import Phrasebook.Proofs.Agreement

/-!
Positions that an outline reaches: they lie in a message, and nothing around it hides the lookup
function. Such a position lies in a site that is collected, unless the walk gave up on the way.
-/
namespace Phrasebook

open Script Outline

variable {σ : Type} {pos : Nat}

/-- A position lies in a range. -/
def Script.Span.Holds (span : Span) (pos : Nat) : Prop := span.lo ≤ pos ∧ pos < span.hi

instance (span : Span) (pos : Nat) : Decidable (span.Holds pos) :=
  inferInstanceAs (Decidable (_ ∧ _))

namespace Outline

/-! ### Subtrees that are given up -/

mutual

/-- Where subtrees past the depth limit start, in the order of the walk. -/
def Value.aborts : Value → List Nat
  | .notes _ => []
  | .abort pos => [pos]
  | .message _ _ _ slots => valuesAborts slots
  | .rebuild _ body => stepsAborts body
  | .scope _ body => body.aborts

def valuesAborts : List Value → List Nat
  | [] => []
  | v :: vs => v.aborts ++ valuesAborts vs

def Step.aborts : Step → List Nat
  | .notes _ => []
  | .replace _ v | .property _ _ _ v => v.aborts
  | .braced _ _ _ _ _ slots => valuesAborts slots
  | .scope _ body | .binding _ _ body | .staticField _ _ body => stepsAborts body

def stepsAborts : List Step → List Nat
  | [] => []
  | x :: xs => x.aborts ++ stepsAborts xs

end

end Outline

namespace Walk

variable (s : Setting) (handle : Handler σ)

theorem finish_depthAborts (w : Walk σ) (kind : SiteKind) (span : Span) (bound : Bound) :
    (w.finish s handle kind span bound).2.report.depthAborts = w.report.depthAborts := by
  unfold finish ask
  by_cases hs : 0 < w.place.shadowed
  · simp only [hs, if_true, addNotes]
  · simp only [hs, if_false]
    cases handle (w.siteAt s kind span bound.text bound.names.names) w.handler with
    | mk key h => cases key <;> rfl

theorem addAccessor_depthAborts (w : Walk σ) (key value : Span) (isArray : Bool)
    (x : Option Extraction) :
    (w.addAccessor s key value isArray x).report.depthAborts = w.report.depthAborts := by
  cases x <;> rfl

theorem addBinding_depthAborts (w before : Walk σ) (name : String) (pos : Nat) :
    (w.addBinding s before name pos).report.depthAborts = w.report.depthAborts := by
  unfold addBinding
  split
  · split <;> rfl
  · rfl

mutual

theorem value_depthAborts (w : Walk σ) : ∀ v : Value,
    (w.value s handle v).2.report.depthAborts =
      w.report.depthAborts ++ v.aborts.map s.location
  | .notes _ => by simp [value, Value.aborts, addNotes]
  | .abort _ => by simp [value, Value.aborts, addAbort]
  | .message kind span parts slots => by
    have hslots := values_depthAborts w slots
    have hmessage := finish_depthAborts s handle (w.values s handle slots).2 kind span
      (Bound.fill s.source {} parts (w.values s handle slots).1)
    simp only [value, Value.aborts]
    rw [← hslots, ← hmessage]
    split <;> rename_i heq <;> rw [heq]
  | .rebuild _ body => by
    simp only [value, Value.aborts, closeFrame]
    exact steps_depthAborts w.openFrame body
  | .scope scope body => by
    simp only [value, Value.aborts]
    exact value_depthAborts (w.enter scope) body

theorem values_depthAborts (w : Walk σ) : ∀ vs : List Value,
    (w.values s handle vs).2.report.depthAborts =
      w.report.depthAborts ++ (valuesAborts vs).map s.location
  | [] => by simp [values, valuesAborts]
  | v :: vs => by
    simp only [values, valuesAborts]
    rw [values_depthAborts _ vs, value_depthAborts w v, List.map_append, List.append_assoc]

theorem step_depthAborts (w : Walk σ) : ∀ x : Step,
    (w.step s handle x).report.depthAborts = w.report.depthAborts ++ x.aborts.map s.location
  | .notes _ => by simp [step, Step.aborts, addNotes]
  | .replace _ v => by
    simp only [step, Step.aborts]
    exact value_depthAborts w v
  | .braced kind span _ _ parts slots => by
    have hslots := values_depthAborts w slots
    have hmessage := finish_depthAborts s handle (w.values s handle slots).2 kind span
      (Bound.fill s.source {} parts (w.values s handle slots).1)
    simp only [step, Step.aborts]
    rw [← hslots, ← hmessage]
    split <;> rename_i heq <;> rw [heq] <;> rfl
  | .property key span isArray v => by
    simp only [step, Step.aborts]
    split
    · exact value_depthAborts w v
    · rw [addAccessor_depthAborts]
      exact value_depthAborts (w.enter { isRuntime := true }) v
  | .scope scope body => by
    simp only [step, Step.aborts]
    exact steps_depthAborts (w.enter scope) body
  | .binding _ _ body | .staticField _ _ body => by
    simp only [step, Step.aborts]
    rw [addBinding_depthAborts]
    exact steps_depthAborts w body

theorem steps_depthAborts (w : Walk σ) : ∀ xs : List Step,
    (w.steps s handle xs).report.depthAborts =
      w.report.depthAborts ++ (stepsAborts xs).map s.location
  | [] => by simp [steps, stepsAborts]
  | x :: xs => by
    simp only [steps, stepsAborts]
    rw [steps_depthAborts _ xs, step_depthAborts w x, List.map_append, List.append_assoc]

end

end Walk

/-- The handler has no part in which subtrees are given up. -/
theorem Setting.walk_depthAborts (s : Setting) (handle : Handler σ) (start : σ) :
    (s.walk handle start).report.depthAborts = (stepsAborts s.outline).map s.location :=
  Walk.steps_depthAborts s handle (Walk.openFrame { handler := start }) s.outline

/-! ### Positions inside messages -/

namespace Outline

mutual

/-- A message that may be replaced lies over the position, or a subtree is given up here. Nothing is
reached through a scope that hides the lookup function. -/
inductive Value.Reaches (pos : Nat) : Value → Prop where
  | abort (start : Nat) : Value.Reaches pos (.abort start)
  | message {kind : SiteKind} {span : Span} {parts : List Part} {slots : List Value} :
      span.Holds pos → Value.Reaches pos (.message kind span parts slots)
  | rebuild {span : Span} {body : List Step} {x : Step} :
      x ∈ body → Step.Reaches pos x → Value.Reaches pos (.rebuild span body)
  | scope {scope : Scope} {body : Value} :
      scope.shadows = false → Value.Reaches pos body → Value.Reaches pos (.scope scope body)

inductive Step.Reaches (pos : Nat) : Step → Prop where
  | replace {span : Span} {v : Value} : Value.Reaches pos v → Step.Reaches pos (.replace span v)
  | property {key span : Span} {isArray : Bool} {v : Value} :
      Value.Reaches pos v → Step.Reaches pos (.property key span isArray v)
  | braced {kind : SiteKind} {span : Span} {leading trailing : String} {parts : List Part}
      {slots : List Value} :
      span.Holds pos → Step.Reaches pos (.braced kind span leading trailing parts slots)
  | scope {scope : Scope} {body : List Step} {x : Step} : scope.shadows = false →
      x ∈ body → Step.Reaches pos x → Step.Reaches pos (.scope scope body)
  | binding {name : String} {start : Nat} {body : List Step} {x : Step} :
      x ∈ body → Step.Reaches pos x → Step.Reaches pos (.binding name start body)
  | staticField {key : String} {start : Nat} {body : List Step} {x : Step} :
      x ∈ body → Step.Reaches pos x → Step.Reaches pos (.staticField key start body)

end

def StepsReach (pos : Nat) (xs : List Step) : Prop := ∃ x ∈ xs, x.Reaches pos

namespace StepsReach

variable {xs ys : List Step}

theorem single {x : Step} (h : x.Reaches pos) : StepsReach pos [x] :=
  ⟨x, List.mem_singleton_self x, h⟩

theorem left (h : StepsReach pos xs) : StepsReach pos (xs ++ ys) :=
  let ⟨x, hx, hr⟩ := h
  ⟨x, List.mem_append_left ys hx, hr⟩

theorem right (h : StepsReach pos ys) : StepsReach pos (xs ++ ys) :=
  let ⟨x, hx, hr⟩ := h
  ⟨x, List.mem_append_right xs hx, hr⟩

theorem flatMap {α : Type} {f : α → List Step} {as : List α} {a : α} (ha : a ∈ as)
    (h : StepsReach pos (f a)) : StepsReach pos (as.flatMap f) :=
  let ⟨x, hx, hr⟩ := h
  ⟨x, List.mem_flatMap.mpr ⟨a, ha, hx⟩, hr⟩

theorem map {α : Type} {f : α → Step} {as : List α} {a : α} (ha : a ∈ as)
    (h : (f a).Reaches pos) : StepsReach pos (as.map f) :=
  ⟨f a, List.mem_map_of_mem ha, h⟩

/-- A scope that leaves the lookup function visible. -/
theorem inScope {scope : Scope} (hs : scope.shadows = false) (h : StepsReach pos xs) :
    StepsReach pos [.scope scope xs] :=
  let ⟨_, hx, hr⟩ := h
  single (.scope hs hx hr)

theorem bound (name : String) (start : Nat) (h : StepsReach pos xs) :
    StepsReach pos [.binding name start xs] :=
  let ⟨_, hx, hr⟩ := h
  single (.binding hx hr)

theorem rebuilt (span : Span) (h : StepsReach pos xs) : (Value.rebuild span xs).Reaches pos :=
  let ⟨_, hx, hr⟩ := h
  .rebuild hx hr

end StepsReach

end Outline

/-- Among the sites there is one over the position, or else subtrees were given up. -/
def Met (pos : Nat) (sites : List Site) (aborts : List Nat) : Prop :=
  (∃ site ∈ sites, site.id.span.Holds pos) ∨ aborts ≠ []

theorem Met.mono {sites sites' : List Site} {aborts aborts' : List Nat}
    (h : Met pos sites aborts) (hs : sites ⊆ sites') (ha : aborts ⊆ aborts') :
    Met pos sites' aborts' := by
  obtain ⟨site, hm, hp⟩ | hne := h
  · exact Or.inl ⟨site, hs hm, hp⟩
  · refine Or.inr fun he => hne ?_
    rw [he] at ha
    exact List.subset_nil.mp ha

theorem Surroundings.enter_shadowed {a : Surroundings} {scope : Scope} (ha : a.shadowed = 0)
    (hs : scope.shadows = false) : (a.enter scope).shadowed = 0 := by
  simp [Surroundings.enter, ha, hs]

namespace Setting

variable (s : Setting)

theorem messageSites_met {a : Surroundings} (ha : a.shadowed = 0) (kind : SiteKind) {span : Span}
    (parts : List Part) (h : span.Holds pos) (aborts : List Nat) (before : List Site) :
    Met pos (before ++ s.messageSites a kind span parts) aborts := by
  refine Or.inl ?_
  simp only [messageSites, ha, Nat.lt_irrefl, if_false]
  exact ⟨_, List.mem_append_right _ (List.mem_singleton_self _), h⟩

mutual

theorem value_met {a : Surroundings} (ha : a.shadowed = 0) : ∀ v : Value, v.Reaches pos →
    Met pos (s.valueSites a v) v.aborts
  | .notes _, h => nomatch h
  | .abort _, _ => Or.inr (by simp [Value.aborts])
  | .message kind span parts slots, .message h => by
    simp only [valueSites]
    exact messageSites_met s ha kind parts h _ _
  | .rebuild _ body, .rebuild hx hr => by
    simp only [valueSites, Value.aborts]
    exact steps_met ha body ⟨_, hx, hr⟩
  | .scope scope body, .scope hs hr => by
    simp only [valueSites, Value.aborts]
    exact value_met (Surroundings.enter_shadowed ha hs) body hr

theorem step_met {a : Surroundings} (ha : a.shadowed = 0) : ∀ x : Step, x.Reaches pos →
    Met pos (s.stepSites a x) x.aborts
  | .notes _, h => nomatch h
  | .replace _ v, .replace hr | .property _ _ _ v, .property hr => by
    simp only [stepSites, Step.aborts]
    exact value_met ha v hr
  | .braced kind span _ _ parts slots, .braced h => by
    simp only [stepSites]
    exact messageSites_met s ha kind parts h _ _
  | .scope scope body, .scope hs hx hr => by
    simp only [stepSites, Step.aborts]
    exact steps_met (Surroundings.enter_shadowed ha hs) body ⟨_, hx, hr⟩
  | .binding _ _ body, .binding hx hr | .staticField _ _ body, .staticField hx hr => by
    simp only [stepSites, Step.aborts]
    exact steps_met ha body ⟨_, hx, hr⟩

theorem steps_met {a : Surroundings} (ha : a.shadowed = 0) : ∀ xs : List Step,
    StepsReach pos xs → Met pos (s.stepsSites a xs) (stepsAborts xs)
  | [], ⟨_, hx, _⟩ => nomatch hx
  | x :: xs, ⟨y, hy, hr⟩ => by
    simp only [stepsSites, stepsAborts]
    rcases List.mem_cons.mp hy with heq | hy
    · exact (step_met ha x (heq ▸ hr)).mono (List.subset_append_left _ _)
        (List.subset_append_left _ _)
    · exact (steps_met ha xs ⟨y, hy, hr⟩).mono (List.subset_append_right _ _)
        (List.subset_append_right _ _)

end

/-- What the outline reaches is collected, when the walk follows everything to its end. -/
theorem site_of_reach (hdepth : (s.walk Collector.handler {}).report.depthAborts = [])
    (h : StepsReach pos s.outline) : ∃ site ∈ s.sites, site.id.span.Holds pos := by
  rw [walk_depthAborts, List.map_eq_nil_iff] at hdepth
  obtain ⟨offered, hm, hp⟩ | hne := steps_met s (a := {}) rfl s.outline h
  · have hid := Collector.id_mem_after (c := {}) hm
    obtain ⟨site, hsite, heq⟩ := List.mem_map.mp hid
    rw [sites_eq]
    exact ⟨site, hsite, heq ▸ hp⟩
  · exact absurd hdepth hne

end Setting

end Phrasebook
