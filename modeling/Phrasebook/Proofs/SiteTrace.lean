import Phrasebook.Outline.Walk

/-!
The sites of an outline, read off without walking. Every walk offers exactly these to its handler,
in this order: what the handler answers changes edits and counters, never a site.
-/
namespace Phrasebook

open Script Outline

variable {σ τ : Type}

/-! ### What the slots of a message are called -/

/-- The source text of each slot with the name it got. -/
def SlotNames.labels (n : SlotNames) : List (String × String) :=
  n.bound.map fun (source, b) => (source, b.name)

theorem SlotNames.names_eq (n : SlotNames) : n.names = n.labels.map (·.2) := by
  simp [names, bindings, labels]

theorem SlotNames.find?_labels (n : SlotNames) (source : String) :
    n.labels.find? (·.1 == source) =
      (n.bound.find? (·.1 == source)).map fun (source, b) => (source, b.name) := by
  rw [labels, List.find?_map]
  rfl

/-- Two stages of filling a message that differ at most in the values of the slots. -/
structure Bound.Alike (b c : Bound) : Prop where
  text : b.text = c.text
  index : b.index = c.index
  labels : b.names.labels = c.names.labels

namespace Bound

theorem Alike.refl (b : Bound) : Alike b b := ⟨rfl, rfl, rfl⟩

theorem Alike.names {b c : Bound} (h : Alike b c) : b.names.names = c.names.names := by
  rw [SlotNames.names_eq, SlotNames.names_eq, h.labels]

theorem Alike.pushText {b c : Bound} (h : Alike b c) (text : String) :
    Alike (b.pushText text) (c.pushText text) :=
  ⟨by simp [Bound.pushText, h.text], h.index, h.labels⟩

/-- The name of a slot depends on what is written there, not on what takes its place. -/
theorem bind_alike {m n : SlotNames} (h : m.labels = n.labels) (base source v v' : String)
    (sh sh' : Bool) :
    (m.bind base source v sh).1 = (n.bind base source v' sh').1 ∧
      (m.bind base source v sh).2.labels = (n.bind base source v' sh').2.labels := by
  have hm := m.find?_labels source
  have hn := n.find?_labels source
  have hnames : m.names = n.names := by rw [m.names_eq, n.names_eq, h]
  rw [h] at hm
  rw [hm] at hn
  unfold SlotNames.bind
  cases hfm : m.bound.find? (·.1 == source) with
  | none =>
    cases hfn : n.bound.find? (·.1 == source) with
    | none =>
      rw [hnames]
      refine ⟨rfl, ?_⟩
      simp only [SlotNames.labels] at h
      simp [SlotNames.labels, h]
    | some p => simp [hfm, hfn] at hn
  | some p =>
    cases hfn : n.bound.find? (·.1 == source) with
    | none => simp [hfm, hfn] at hn
    | some q =>
      simp only [hfm, hfn, Option.map_some, Option.some.injEq, Prod.mk.injEq] at hn
      exact ⟨hn.2, h⟩

theorem Alike.pushSlot {b c : Bound} (h : Alike b c) (source : Source) (e : Node)
    (x y : Option Extraction) : Alike (b.pushSlot source e x) (c.pushSlot source e y) := by
  have hb := bind_alike h.labels (slotName b.index e) (source.snippet e.span)
    ((x.map (·.replacement)).getD (source.snippet e.span))
    ((y.map (·.replacement)).getD (source.snippet e.span))
    (x.isNone && isIdent e) (y.isNone && isIdent e)
  rw [h.index] at hb
  constructor
  · simp only [Bound.pushSlot, h.text, h.index, hb.1]
  · simp only [Bound.pushSlot, h.index]
  · simp only [Bound.pushSlot, h.index]
    exact hb.2

theorem fill_alike (source : Source) (parts : List Part) {b c : Bound} (h : Alike b c)
    (xs ys : List (Option Extraction)) :
    Alike (fill source b parts xs) (fill source c parts ys) := by
  induction parts generalizing b c xs ys with
  | nil => exact h
  | cons p parts ih =>
    cases p with
    | text text => exact ih (h.pushText text) xs ys
    | slot e => exact ih (h.pushSlot source e _ _) _ _

end Bound

/-! ### Sites of an outline -/

/-- What the code around a site decides about it. -/
structure Surroundings where
  /-- Number of scopes around that hide the lookup function. -/
  shadowed : Nat := 0
  /-- Components around, innermost first. -/
  components : List String := []
deriving DecidableEq, Repr

def Surroundings.enter (a : Surroundings) (scope : Scope) : Surroundings where
  shadowed := a.shadowed + scope.shadows.toNat
  components := scope.component.toList ++ a.components

def Place.around (p : Place) : Surroundings := ⟨p.shadowed, p.components⟩

theorem Place.around_leave {p : Place} {a : Surroundings} {scope : Scope}
    (h : p.around = a.enter scope) : (p.leave scope).around = a := by
  obtain ⟨shadowed, components⟩ := a
  simp only [around, Surroundings.enter, Surroundings.mk.injEq] at h
  simp [around, Place.leave, h.1, h.2]

namespace Setting

variable (s : Setting)

/-- The site of a message, unless the lookup function is hidden there. -/
def messageSites (a : Surroundings) (kind : SiteKind) (span : Span) (parts : List Part) :
    List Site :=
  let bound := Bound.fill s.source {} parts []
  if 0 < a.shadowed then []
  else [⟨⟨span, kind⟩, bound.text, bound.names.names, s.location span.lo, a.components.head?⟩]

mutual

/-- The sites of an expression in the order of the walk; slots come before their message. -/
def valueSites (a : Surroundings) : Value → List Site
  | .notes _ | .abort _ => []
  | .message kind span parts slots => valuesSites a slots ++ messageSites s a kind span parts
  | .rebuild _ body => stepsSites a body
  | .scope scope body => valueSites (a.enter scope) body

def valuesSites (a : Surroundings) : List Value → List Site
  | [] => []
  | v :: vs => valueSites a v ++ valuesSites a vs

def stepSites (a : Surroundings) : Step → List Site
  | .notes _ => []
  | .replace _ v | .property _ _ _ v => valueSites a v
  | .braced kind span _ _ parts slots => valuesSites a slots ++ messageSites s a kind span parts
  | .scope scope body => stepsSites (a.enter scope) body
  | .binding _ _ body | .staticField _ _ body => stepsSites a body

def stepsSites (a : Surroundings) : List Step → List Site
  | [] => []
  | x :: xs => stepSites a x ++ stepsSites a xs

end

/-- The sites of the module. -/
def outlineSites : List Site := stepsSites s {} s.outline

end Setting

/-! ### Handlers along a list of sites -/

/-- Offers sites one after another: those that got a key, and the state in the end. -/
def Handler.answers (handle : Handler σ) : List Site → σ → List (Site × String) × σ
  | [], h => ([], h)
  | site :: rest, h =>
    let (key, h) := handle site h
    let (more, h) := answers handle rest h
    ((key.map (site, ·)).toList ++ more, h)

theorem Handler.answers_append (handle : Handler σ) (xs ys : List Site) (h : σ) :
    handle.answers (xs ++ ys) h =
      ((handle.answers xs h).1 ++ (handle.answers ys (handle.answers xs h).2).1,
        (handle.answers ys (handle.answers xs h).2).2) := by
  induction xs generalizing h with
  | nil => rfl
  | cons x xs ih => simp [answers, ih, List.append_assoc]

/-- From `w` to `w'` a walk has offered `sites` to its handler and come out of every scope that it
went into. -/
structure Walk.Offers (handle : Handler σ) (sites : List Site) (w w' : Walk σ) : Prop where
  around : w'.place.around = w.place.around
  handler : w'.handler = (handle.answers sites w.handler).2
  applied : w'.report.applied = w.report.applied + (handle.answers sites w.handler).1.length

namespace Walk

variable {s : Setting} {handle : Handler σ} {w w' w'' : Walk σ}

/-- A part of the walk that asks for nothing. -/
theorem Offers.quiet (ha : w'.place.around = w.place.around) (hh : w'.handler = w.handler)
    (hr : w'.report.applied = w.report.applied) : Offers handle [] w w' :=
  ⟨ha, hh, hr⟩

theorem Offers.trans {xs ys : List Site} (h : Offers handle xs w w')
    (h' : Offers handle ys w' w'') : Offers handle (xs ++ ys) w w'' := by
  refine ⟨h'.around.trans h.around, ?_, ?_⟩
  · rw [h'.handler, h.handler, Handler.answers_append]
  · rw [h'.applied, h.applied, h.handler, Handler.answers_append, List.length_append, Nat.add_assoc]

/-- What happens after the last question does not show. -/
theorem Offers.then {xs : List Site} (h : Offers handle xs w w')
    (h' : Offers handle [] w' w'') : Offers handle xs w w'' := by
  simpa using h.trans h'

theorem Offers.scoped {xs : List Site} {scope : Scope} (h : Offers handle xs (w.enter scope) w') :
    Offers handle xs w (w'.leave scope) :=
  ⟨Place.around_leave h.around, h.handler, h.applied⟩

theorem addEdits_offers (w : Walk σ) (edits : List Edit) : Offers handle [] w (w.addEdits edits) :=
  .quiet rfl rfl rfl

theorem addExtraction_offers (w : Walk σ) (span : Span) (x : Option Extraction) :
    Offers handle [] w (w.addExtraction span x) :=
  .quiet rfl rfl rfl

theorem addAccessor_offers (w : Walk σ) (key value : Span) (isArray : Bool)
    (x : Option Extraction) : Offers handle [] w (w.addAccessor s key value isArray x) := by
  cases x <;> exact .quiet rfl rfl rfl

theorem addBinding_offers (w before : Walk σ) (name : String) (pos : Nat) :
    Offers handle [] w (w.addBinding s before name pos) := by
  unfold addBinding
  split
  · split <;> exact .quiet rfl rfl rfl
  · exact .quiet rfl rfl rfl

variable (s handle)

/-- The question about one message, its slots being walked already. -/
theorem finish_offers (w : Walk σ) (kind : SiteKind) (span : Span) (parts : List Part)
    (xs : List (Option Extraction)) :
    Offers handle (s.messageSites w.place.around kind span parts) w
      (w.finish s handle kind span (Bound.fill s.source {} parts xs)).2 := by
  have hfill := Bound.fill_alike s.source parts (.refl {}) xs []
  unfold finish ask Setting.messageSites
  by_cases hs : 0 < w.place.shadowed
  · simp only [Place.around, hs, if_true]
    exact .quiet rfl rfl rfl
  · simp only [Place.around, hs, if_false, siteAt, hfill.text, hfill.names]
    cases hk : handle _ w.handler with
    | mk key h =>
      cases key with
      | none => exact ⟨rfl, by simp [Handler.answers, hk], by simp [Handler.answers, hk]⟩
      | some key =>
        exact ⟨rfl, by simp [Handler.answers, hk, addKey], by simp [Handler.answers, hk, addKey]⟩

-- The recursion is that of the walk itself, so each form of value and step is one case.
mutual

theorem value_offers (w : Walk σ) : ∀ v : Value,
    Offers handle (s.valueSites w.place.around v) w (w.value s handle v).2
  | .notes _ => by
    simp only [value, Setting.valueSites]
    exact .quiet rfl rfl rfl
  | .abort _ => by
    simp only [value, Setting.valueSites]
    exact .quiet rfl rfl rfl
  | .message kind span parts slots => by
    have hslots := values_offers w slots
    have hmessage := finish_offers s handle (w.values s handle slots).2 kind span parts
      (w.values s handle slots).1
    rw [hslots.around] at hmessage
    simp only [value, Setting.valueSites]
    split <;> rename_i heq <;> rw [heq] at hmessage <;> exact hslots.trans hmessage
  | .rebuild span body => by
    have hbody := steps_offers w.openFrame body
    simp only [value, Setting.valueSites, closeFrame, Place.closeFrame]
    exact ⟨hbody.around, hbody.handler, hbody.applied⟩
  | .scope scope body => by
    have hbody := value_offers (w.enter scope) body
    simp only [value, Setting.valueSites]
    exact hbody.scoped

theorem values_offers (w : Walk σ) : ∀ vs : List Value,
    Offers handle (s.valuesSites w.place.around vs) w (w.values s handle vs).2
  | [] => .quiet rfl rfl rfl
  | v :: vs => by
    have hv := value_offers w v
    have hvs := values_offers (w.value s handle v).2 vs
    rw [hv.around] at hvs
    simp only [values, Setting.valuesSites]
    exact hv.trans hvs

theorem step_offers (w : Walk σ) : ∀ x : Step,
    Offers handle (s.stepSites w.place.around x) w (w.step s handle x)
  | .notes _ => by
    simp only [step, Setting.stepSites]
    exact .quiet rfl rfl rfl
  | .replace span v => by
    simp only [step, Setting.stepSites]
    exact (value_offers w v).then (addExtraction_offers _ span _)
  | .braced kind span leading trailing parts slots => by
    have hslots := values_offers w slots
    have hmessage := finish_offers s handle (w.values s handle slots).2 kind span parts
      (w.values s handle slots).1
    rw [hslots.around] at hmessage
    simp only [step, Setting.stepSites]
    split <;> rename_i heq <;> rw [heq] at hmessage
    · exact (hslots.trans hmessage).then (addExtraction_offers _ _ _)
    · exact (hslots.trans hmessage).then (addEdits_offers _ _)
  | .property key span isArray v => by
    simp only [step, Setting.stepSites]
    split
    · exact (value_offers w v).then (addExtraction_offers _ span _)
    · have hv := value_offers (w.enter { isRuntime := true }) v
      exact hv.scoped.then (addAccessor_offers _ key span isArray _)
  | .scope scope body => by
    simp only [step, Setting.stepSites]
    exact (steps_offers (w.enter scope) body).scoped
  | .binding name pos body => by
    simp only [step, Setting.stepSites]
    exact (steps_offers w body).then (addBinding_offers _ _ _ _)
  | .staticField key pos body => by
    simp only [step, Setting.stepSites]
    exact (steps_offers w body).then (addBinding_offers _ _ _ _)

theorem steps_offers (w : Walk σ) : ∀ xs : List Step,
    Offers handle (s.stepsSites w.place.around xs) w (w.steps s handle xs)
  | [] => .quiet rfl rfl rfl
  | x :: xs => by
    have hx := step_offers w x
    have hxs := steps_offers (w.step s handle x) xs
    rw [hx.around] at hxs
    simp only [steps, Setting.stepsSites]
    exact hx.trans hxs

end

end Walk

/-- The handler of a whole walk has seen the sites of the outline, one after another. -/
theorem Setting.walk_handler (s : Setting) (handle : Handler σ) (start : σ) :
    (s.walk handle start).handler = (handle.answers s.outlineSites start).2 :=
  (Walk.steps_offers s handle _ s.outline).handler

theorem Setting.walk_applied (s : Setting) (handle : Handler σ) (start : σ) :
    (s.walk handle start).report.applied = (handle.answers s.outlineSites start).1.length := by
  have h := (Walk.steps_offers s handle (Walk.openFrame { handler := start }) s.outline).applied
  exact h.trans (Nat.zero_add _)

end Phrasebook
