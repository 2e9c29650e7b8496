import Phrasebook.Proofs.SiteTrace
import Phrasebook.Proofs.Splicing

/-!
The frames of a walk. Whatever the handler answers, an expression leaves the frames as they were,
and a step only adds edits to the innermost one. In an outline whose ranges are tidy, all edits of a
frame lie apart and inside the range that is rebuilt from it.
-/
namespace Phrasebook

open Script Outline

variable {σ : Type}

/-! ### Ranges of an outline -/

namespace Outline

/-- The ranges of the slots of a message. -/
def slotSpans (parts : List Part) : List Span :=
  parts.filterMap fun
    | .text _ => none
    | .slot e => some e.span

mutual

/-- The ranges in which a step may place edits of the innermost frame. A property becomes a getter
from its key on. -/
def Step.extents : Step → List Span
  | .notes _ => []
  | .replace span _ | .braced _ span _ _ _ _ => [span]
  | .property key value _ _ => [⟨key.lo, value.hi⟩]
  | .scope _ body | .binding _ _ body | .staticField _ _ body => stepsExtents body

def stepsExtents : List Step → List Span
  | [] => []
  | x :: xs => x.extents ++ stepsExtents xs

end

mutual

/-- What is rebuilt lies around the ranges edited for it, which are apart from each other. -/
def Value.Tidy : Value → Prop
  | .notes _ | .abort _ => True
  | .message _ span parts slots => Span.LaidIn [span] (slotSpans parts) ∧ ValuesTidy slots
  | .rebuild span body => Span.LaidIn [span] (stepsExtents body) ∧ StepsTidy body
  | .scope _ body => body.Tidy

def ValuesTidy : List Value → Prop
  | [] => True
  | v :: vs => v.Tidy ∧ ValuesTidy vs

def Step.Tidy : Step → Prop
  | .notes _ => True
  | .replace _ v => v.Tidy
  | .braced _ span _ _ parts slots => Span.LaidIn [span] (slotSpans parts) ∧ ValuesTidy slots
  | .property key value _ v => (key.lo ≤ value.lo ∧ value.lo < value.hi) ∧ v.Tidy
  | .scope _ body | .binding _ _ body | .staticField _ _ body => StepsTidy body

def StepsTidy : List Step → Prop
  | [] => True
  | x :: xs => x.Tidy ∧ StepsTidy xs

end

theorem stepsExtents_eq (xs : List Step) : stepsExtents xs = xs.flatMap Step.extents := by
  induction xs with
  | nil => rfl
  | cons x xs ih => rw [stepsExtents, ih, List.flatMap_cons]

theorem valuesTidy_iff {vs : List Value} : ValuesTidy vs ↔ ∀ v ∈ vs, v.Tidy := by
  induction vs with
  | nil => simp [ValuesTidy]
  | cons v vs ih => simp [ValuesTidy, ih]

theorem stepsTidy_iff {xs : List Step} : StepsTidy xs ↔ ∀ x ∈ xs, x.Tidy := by
  induction xs with
  | nil => simp [StepsTidy]
  | cons x xs ih => simp [StepsTidy, ih]

end Outline

/-! ### Places -/

namespace Place

@[simp]
theorem addEdits_none (p : Place) : p.addEdits [] = p := by
  cases p with
  | mk frames => cases frames <;> simp [addEdits]

theorem addEdits_addEdits (p : Place) (xs ys : List Edit) :
    (p.addEdits xs).addEdits ys = p.addEdits (xs ++ ys) := by
  cases p with
  | mk frames => cases frames <;> simp [addEdits]

/-- Edits added inside a scope are still there after it, and nothing else has changed. -/
theorem leave_addEdits_enter (p : Place) (scope : Scope) (edits : List Edit) :
    ((p.enter scope).addEdits edits).leave scope = p.addEdits edits := by
  simp [enter, leave, addEdits]

@[simp]
theorem leave_enter (p : Place) (scope : Scope) : (p.enter scope).leave scope = p := by
  simpa using leave_addEdits_enter p scope []

theorem closeFrame_addEdits_openFrame (p : Place) (edits : List Edit) :
    (p.openFrame.addEdits edits).closeFrame = (edits, p) := by
  simp [openFrame, closeFrame, addEdits]

end Place

/-! ### Edits of a message -/

/-- A message without a key brings the edits of its slots, in their places. -/
theorem Bound.fill_slotSpans (source : Source) (parts : List Part) (b : Bound)
    (xs : List (Option Extraction)) :
    ∃ edits, (fill source b parts xs).edits = b.edits ++ edits ∧
      (edits.map Edit.span).Sublist (slotSpans parts) := by
  induction parts generalizing b xs with
  | nil => exact ⟨[], by simp [fill], by simp⟩
  | cons p parts ih =>
    cases p with
    | text text => exact ih (b.pushText text) xs
    | slot e =>
      obtain ⟨edits, hedits, hspans⟩ := ih (b.pushSlot source e (xs.headD none)) (xs.drop 1)
      refine ⟨((xs.headD none).map fun x => ⟨e.span.lo, e.span.hi, x.replacement, x.key⟩).toList ++
        edits, ?_, ?_⟩
      · rw [fill, hedits]
        simp [pushSlot]
      · cases xs.headD none with
        | none => exact hspans.trans (List.sublist_cons_self _ _)
        | some x => exact hspans.cons_cons e.span

theorem Bound.laidIn_edits (source : Source) {parts : List Part} {places : List Span}
    (h : Span.LaidIn places (slotSpans parts)) (xs : List (Option Extraction)) :
    Span.LaidIn places ((fill source {} parts xs).edits.map Edit.span) := by
  obtain ⟨edits, hedits, hspans⟩ := fill_slotSpans source parts {} xs
  rw [hedits, List.nil_append]
  exact h.sublist hspans

namespace Walk

/-! ### Ranges that are spliced -/

/-- A range of the source and the edits that are spliced into it. -/
structure Splicing where
  span : Span
  edits : List Edit
deriving DecidableEq, Repr

/-- The edits are no more than what fits into the range. -/
def Splicing.Laid (x : Splicing) : Prop := Span.LaidIn [x.span] (x.edits.map Edit.span)

variable (s : Setting) (handle : Handler σ)

/-- A message that gets no key is spliced from its slots. -/
def finishSplicings (w : Walk σ) (kind : SiteKind) (span : Span) (bound : Bound) : List Splicing :=
  match (w.finish s handle kind span bound).1 with
  | .ok _ => []
  | .error edits => [⟨span, edits⟩]

mutual

/-- Everything that is spliced on the way through an expression, from the inside out. -/
def valueSplicings (w : Walk σ) : Value → List Splicing
  | .notes _ | .abort _ => []
  | .message kind span parts slots =>
    let (xs, after) := w.values s handle slots
    valuesSplicings w slots ++
      after.finishSplicings s handle kind span (Bound.fill s.source {} parts xs)
  | .rebuild span body =>
    stepsSplicings w.openFrame body ++
      [⟨span, (w.openFrame.steps s handle body).place.closeFrame.1⟩]
  | .scope scope body => valueSplicings (w.enter scope) body

def valuesSplicings (w : Walk σ) : List Value → List Splicing
  | [] => []
  | v :: vs => valueSplicings w v ++ valuesSplicings (w.value s handle v).2 vs

/-- Markup without a key is not spliced: the edits of its slots join those around it. -/
def stepSplicings (w : Walk σ) : Step → List Splicing
  | .notes _ => []
  | .replace _ v => valueSplicings w v
  | .braced _ _ _ _ _ slots => valuesSplicings w slots
  | .property _ _ _ v =>
    if 0 < w.place.runtimeDepth then valueSplicings w v
    else valueSplicings (w.enter { isRuntime := true }) v
  | .scope scope body => stepsSplicings (w.enter scope) body
  | .binding _ _ body | .staticField _ _ body => stepsSplicings w body

def stepsSplicings (w : Walk σ) : List Step → List Splicing
  | [] => []
  | x :: xs => stepSplicings w x ++ stepsSplicings (w.step s handle x) xs

end

/-! ### What a walk does to the frames -/

/-- An expression leaves its place as it found it, and what is spliced for it fits if it is tidy. -/
structure Keeps (w : Walk σ) (v : Value) : Prop where
  place : (w.value s handle v).2.place = w.place
  laid : v.Tidy → ∀ x ∈ w.valueSplicings s handle v, x.Laid

structure KeepsAll (w : Walk σ) (vs : List Value) : Prop where
  place : (w.values s handle vs).2.place = w.place
  laid : ValuesTidy vs → ∀ x ∈ w.valuesSplicings s handle vs, x.Laid

variable {s handle} {w w' w'' : Walk σ} {tidy : Prop} {extents : List Span}

/-- From `w` to `w'` the innermost frame has got edits and nothing else has changed. If the outline
is tidy, they lie in `extents`. -/
def Adds (tidy : Prop) (extents : List Span) (w w' : Walk σ) : Prop :=
  ∃ edits, w'.place = w.place.addEdits edits ∧ (tidy → Span.LaidIn extents (edits.map Edit.span))

theorem Adds.none (h : w'.place = w.place) : Adds tidy extents w w' :=
  ⟨[], by simp [h], fun _ => .nil _⟩

theorem Adds.extraction {span extent : Span} (h : w'.place = w.place)
    (hlaid : tidy → Span.LaidIn [extent] [span]) (x : Option Extraction) :
    Adds tidy [extent] w (w'.addExtraction span x) := by
  refine ⟨(x.map fun x => ⟨span.lo, span.hi, x.replacement, x.key⟩).toList, ?_, ?_⟩
  · simp only [addExtraction, addEdits, h]
  · intro htidy
    cases x with
    | none => exact .nil _
    | some x => exact hlaid htidy

theorem Adds.append {tidy' both : Prop} {extents' : List Span} (h : Adds tidy extents w w')
    (h' : Adds tidy' extents' w' w'') (hfirst : both → tidy) (hrest : both → tidy')
    (hcross : both → ∀ p ∈ extents, ∀ q ∈ extents', p.Apart q) :
    Adds both (extents ++ extents') w w'' := by
  obtain ⟨edits, hplace, hlaid⟩ := h
  obtain ⟨edits', hplace', hlaid'⟩ := h'
  refine ⟨edits ++ edits', ?_, ?_⟩
  · rw [hplace', hplace, Place.addEdits_addEdits]
  · intro hboth
    rw [List.map_append]
    exact (hlaid (hfirst hboth)).append (hlaid' (hrest hboth)) (hcross hboth)

theorem Adds.scoped {scope : Scope} (h : Adds tidy extents (w.enter scope) w') :
    Adds tidy extents w (w'.leave scope) := by
  obtain ⟨edits, hplace, hlaid⟩ := h
  refine ⟨edits, ?_, hlaid⟩
  simp only [leave, hplace]
  exact Place.leave_addEdits_enter w.place scope edits

variable (s handle)

theorem finish_place (w : Walk σ) (kind : SiteKind) (span : Span) (bound : Bound) :
    (w.finish s handle kind span bound).2.place = w.place := by
  unfold finish ask
  by_cases hs : 0 < w.place.shadowed
  · simp only [hs, if_true, addNotes]
  · simp only [hs, if_false]
    cases handle (w.siteAt s kind span bound.text bound.names.names) w.handler with
    | mk key h => cases key <;> rfl

/-- A message without a key is left to the edits of its slots. -/
theorem finish_edits {w : Walk σ} {kind : SiteKind} {span : Span} {bound : Bound}
    {edits : List Edit} (h : (w.finish s handle kind span bound).1 = .error edits) :
    edits = bound.edits := by
  unfold finish at h
  cases hask : w.ask s handle kind span bound.text bound.names.names with
  | mk key after =>
    rw [hask] at h
    cases key with
    | none => exact (Except.error.inj h).symm
    | some key => cases h

theorem addBinding_place (w before : Walk σ) (name : String) (pos : Nat) :
    (w.addBinding s before name pos).place = w.place := by
  unfold addBinding
  split
  · split <;> rfl
  · rfl

theorem Adds.bound {before : Walk σ} {name : String} {pos : Nat} (h : Adds tidy extents w w') :
    Adds tidy extents w (w'.addBinding s before name pos) := by
  obtain ⟨edits, hplace, hlaid⟩ := h
  exact ⟨edits, (addBinding_place s w' before name pos).trans hplace, hlaid⟩

theorem Adds.accessor {key value : Span} {isArray : Bool} (h : w'.place = w.place)
    (hlaid : tidy → Span.LaidIn [⟨key.lo, value.hi⟩] [⟨key.lo, value.hi⟩])
    (x : Option Extraction) :
    Adds tidy [⟨key.lo, value.hi⟩] w (w'.addAccessor s key value isArray x) := by
  cases x with
  | none => exact .none h
  | some x => exact .extraction h hlaid (some (Walk.accessor s key x))

/-- The splicing of a message that gets no key fits, for its slots do. -/
theorem finishSplicings_laid {span : Span} {parts : List Part} (w : Walk σ) (kind : SiteKind)
    (h : Span.LaidIn [span] (slotSpans parts)) (xs : List (Option Extraction)) :
    ∀ x ∈ w.finishSplicings s handle kind span (Bound.fill s.source {} parts xs), x.Laid := by
  intro x hx
  unfold finishSplicings at hx
  split at hx
  · cases hx
  · rename_i edits hfinish
    rw [List.mem_singleton.mp hx, Splicing.Laid, finish_edits s handle hfinish]
    exact Bound.laidIn_edits s.source h xs

mutual

theorem value_keeps (w : Walk σ) : ∀ v : Value, Keeps s handle w v
  | .notes _ | .abort _ => ⟨rfl, fun _ _ hx => absurd hx List.not_mem_nil⟩
  | .message kind span parts slots => by
    have hslots := values_keeps w slots
    have hfinish := finish_place s handle (w.values s handle slots).2 kind span
      (Bound.fill s.source {} parts (w.values s handle slots).1)
    constructor
    · simp only [value]
      rw [← hslots.place, ← hfinish]
      split <;> rename_i heq <;> rw [heq]
    · rintro ⟨hspans, htidy⟩ x hx
      simp only [valueSplicings] at hx
      rcases List.mem_append.mp hx with hx | hx
      · exact hslots.laid htidy x hx
      · exact finishSplicings_laid s handle _ kind hspans _ x hx
  | .rebuild span body => by
    obtain ⟨hadds, hbody⟩ := steps_adds w.openFrame body
    obtain ⟨edits, hplace, hlaid⟩ := hadds
    have hclose : (w.openFrame.steps s handle body).place.closeFrame = (edits, w.place) := by
      rw [hplace]
      exact Place.closeFrame_addEdits_openFrame w.place edits
    constructor
    · simp only [value, closeFrame, hclose]
    · rintro ⟨hspans, htidy⟩ x hx
      simp only [valueSplicings] at hx
      rcases List.mem_append.mp hx with hx | hx
      · exact hbody ⟨htidy, hspans.self⟩ x hx
      · rw [List.mem_singleton.mp hx, Splicing.Laid, hclose]
        exact hspans.trans (hlaid ⟨htidy, hspans.self⟩)
  | .scope scope body => by
    have hbody := value_keeps (w.enter scope) body
    constructor
    · simp only [value, leave, hbody.place]
      exact Place.leave_enter w.place scope
    · exact hbody.laid

theorem values_keeps (w : Walk σ) : ∀ vs : List Value, KeepsAll s handle w vs
  | [] => ⟨rfl, fun _ _ hx => absurd hx List.not_mem_nil⟩
  | v :: vs => by
    have hv := value_keeps w v
    have hvs := values_keeps (w.value s handle v).2 vs
    constructor
    · simp only [values]
      rw [hvs.place, hv.place]
    · rintro ⟨htidy, hrest⟩ x hx
      simp only [valuesSplicings] at hx
      rcases List.mem_append.mp hx with hx | hx
      · exact hv.laid htidy x hx
      · exact hvs.laid hrest x hx

theorem step_adds (w : Walk σ) : ∀ x : Step,
    Adds (x.Tidy ∧ Span.LaidIn x.extents x.extents) x.extents w (w.step s handle x) ∧
      (x.Tidy ∧ Span.LaidIn x.extents x.extents →
        ∀ y ∈ w.stepSplicings s handle x, y.Laid)
  | .notes _ => ⟨.none rfl, fun _ _ hx => absurd hx List.not_mem_nil⟩
  | .replace span v => by
    have hv := value_keeps w v
    exact ⟨.extraction hv.place And.right _, fun h => hv.laid h.1⟩
  | .braced kind span leading trailing parts slots => by
    have hslots := values_keeps w slots
    have hfinish := (finish_place s handle (w.values s handle slots).2 kind span
      (Bound.fill s.source {} parts (w.values s handle slots).1)).trans hslots.place
    refine ⟨?_, fun h => hslots.laid h.1.2⟩
    simp only [step]
    split
    · rename_i heq
      rw [heq] at hfinish
      exact .extraction hfinish And.right _
    · rename_i edits after heq
      rw [heq] at hfinish
      have hedits := finish_edits s handle (congrArg Prod.fst heq)
      refine ⟨edits, ?_, ?_⟩
      · exact congrArg (Place.addEdits · edits) hfinish
      · rintro ⟨⟨hspans, -⟩, -⟩
        rw [hedits]
        exact Bound.laidIn_edits s.source hspans _
  | .property key span isArray v => by
    simp only [step, stepSplicings]
    split
    · have hv := value_keeps w v
      refine ⟨.extraction hv.place ?_ _, fun h => hv.laid h.1.2⟩
      rintro ⟨⟨⟨hlo, hne⟩, -⟩, -⟩
      exact .single hne ⟨hlo, Nat.le_refl _⟩
    · have hv := value_keeps (w.enter { isRuntime := true }) v
      refine ⟨.accessor s ?_ And.right _, fun h => hv.laid h.1.2⟩
      simp only [leave, hv.place]
      exact Place.leave_enter w.place _
  | .scope scope body => by
    obtain ⟨hadds, hlaid⟩ := steps_adds (w.enter scope) body
    exact ⟨hadds.scoped, hlaid⟩
  | .binding name pos body => by
    obtain ⟨hadds, hlaid⟩ := steps_adds w body
    exact ⟨hadds.bound s, hlaid⟩
  | .staticField key pos body => by
    obtain ⟨hadds, hlaid⟩ := steps_adds w body
    exact ⟨hadds.bound s, hlaid⟩

theorem steps_adds (w : Walk σ) : ∀ xs : List Step,
    Adds (StepsTidy xs ∧ Span.LaidIn (stepsExtents xs) (stepsExtents xs)) (stepsExtents xs) w
        (w.steps s handle xs) ∧
      (StepsTidy xs ∧ Span.LaidIn (stepsExtents xs) (stepsExtents xs) →
        ∀ y ∈ w.stepsSplicings s handle xs, y.Laid)
  | [] => ⟨.none rfl, fun _ _ hx => absurd hx List.not_mem_nil⟩
  | x :: xs => by
    obtain ⟨hx, hxlaid⟩ := step_adds w x
    obtain ⟨hxs, hxslaid⟩ := steps_adds (w.step s handle x) xs
    have hfirst : StepsTidy (x :: xs) ∧
        Span.LaidIn (stepsExtents (x :: xs)) (stepsExtents (x :: xs)) →
        x.Tidy ∧ Span.LaidIn x.extents x.extents := fun h =>
      ⟨h.1.1, (h.2.sublist (List.sublist_append_left _ _)).self⟩
    have hrest : StepsTidy (x :: xs) ∧
        Span.LaidIn (stepsExtents (x :: xs)) (stepsExtents (x :: xs)) →
        StepsTidy xs ∧ Span.LaidIn (stepsExtents xs) (stepsExtents xs) := fun h =>
      ⟨h.1.2, (h.2.sublist (List.sublist_append_right _ _)).self⟩
    refine ⟨hx.append hxs hfirst hrest fun h => (List.pairwise_append.mp h.2.apart).2.2, ?_⟩
    intro h y hy
    simp only [stepsSplicings] at hy
    rcases List.mem_append.mp hy with hy | hy
    · exact hxlaid (hfirst h) y hy
    · exact hxslaid (hrest h) y hy

end

end Walk

/-- The edits of a module are those that its outline adds. -/
theorem Setting.walk_edits (s : Setting) (handle : Handler σ) (start : σ) {edits : List Edit}
    (h : (Walk.steps s handle (Walk.openFrame { handler := start }) s.outline).place =
      (Walk.openFrame { handler := start }).place.addEdits edits) :
    (s.walk handle start).edits = edits := by
  simp only [walk]
  rw [h]
  rfl

end Phrasebook
