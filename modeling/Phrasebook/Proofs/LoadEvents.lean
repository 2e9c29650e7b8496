import Phrasebook.Proofs.LoadTrace
import Phrasebook.Proofs.Offers

/-!
What happens at once while a module is loaded: a site is offered, or a binding is met. Nothing does
inside a scope that runs later, and nothing in the value of a property that may become a getter.
-/
namespace Phrasebook

open Script Outline

/-! ### Events of a trace -/

/-- What happens while the module is loaded: a site is offered, or a binding is met. -/
inductive LoadEvent where
  | site (id : SiteId)
  | binding (name : String) (pos : Nat)

variable {s : Setting} {e : LoadEvent}

namespace Trace

def Has (t : Trace) : LoadEvent → Prop
  | .site id => ∃ o ∈ t.offers, o.isLoad = true ∧ o.site.id = id
  | .binding name pos => ∃ b ∈ t.bindings, b.name = name ∧ b.pos = pos

theorem not_has_empty : ¬empty.Has e := by
  cases e <;> simp [Has, empty]

theorem has_append {t u : Trace} : (t ++ u).Has e ↔ t.Has e ∨ u.Has e := by
  cases e <;> simp [Has, or_and_right, exists_or, Tracked.shift]

theorem Has.of_ofSites {isLoad : Bool} {sites : List Site} (h : (ofSites isLoad sites).Has e) :
    isLoad = true ∧ ∃ site ∈ sites, e = .site site.id := by
  cases e with
  | site id =>
    obtain ⟨o, ho, hload, rfl⟩ := h
    obtain ⟨site, hsite, rfl⟩ := List.mem_map.mp ho
    exact ⟨hload, site, hsite, rfl⟩
  | binding name pos => simp [Has] at h

theorem Has.of_boundIn {c : Scene} {t : Trace} {name : String} {pos : Nat}
    (h : (Setting.boundIn c name pos t).Has e) :
    t.Has e ∨ (c.isLoad = true ∧ e = .binding name pos) := by
  unfold Setting.boundIn at h
  split at h
  · rename_i hload
    cases e with
    | site id => exact .inl h
    | binding other place =>
      obtain ⟨b, hb, rfl, rfl⟩ := h
      rcases List.mem_append.mp hb with hb | hb
      · exact .inl ⟨b, hb, rfl, rfl⟩
      · rw [List.mem_singleton.mp hb]
        exact .inr ⟨hload, rfl⟩
  · exact .inl h

end Trace

namespace Setting

variable {c : Scene}

theorem has_messageTrace {kind : SiteKind} {span : Span} {parts : List Part}
    (h : (s.messageTrace c kind span parts).Has e) : c.isLoad = true ∧ e = .site ⟨span, kind⟩ := by
  obtain ⟨hload, site, hsite, rfl⟩ := h.of_ofSites
  rw [(s.mem_messageSites hsite).2]
  exact ⟨hload, rfl⟩

theorem has_valuesTrace {vs : List Value} :
    (s.valuesTrace c vs).Has e ↔ ∃ v ∈ vs, (s.valueTrace c v).Has e := by
  induction vs with
  | nil => simp [valuesTrace, Trace.not_has_empty]
  | cons v vs ih => simp [valuesTrace, Trace.has_append, ih]

theorem has_stepsTrace {xs : List Step} :
    (s.stepsTrace c xs).Has e ↔ ∃ x ∈ xs, (s.stepTrace c x).Has e := by
  induction xs with
  | nil => simp [stepsTrace, Trace.not_has_empty]
  | cons x xs ih => simp [stepsTrace, Trace.has_append, ih]

-- Once the code runs later, nothing inside it happens at once.
mutual

theorem load_of_has_value {c : Scene} : ∀ {v : Value}, (s.valueTrace c v).Has e → c.isLoad = true
  | .notes _, h | .abort _, h => absurd h Trace.not_has_empty
  | .message kind span parts slots, h => by
    rcases Trace.has_append.mp h with h | h
    · exact load_of_has_values h
    · exact (has_messageTrace h).1
  | .rebuild _ body, h => load_of_has_steps h
  | .scope scope body, h => by
    have henter := load_of_has_value (c := c.enter scope) h
    simp only [Scene.enter, Bool.and_eq_true] at henter
    exact henter.1

theorem load_of_has_values {c : Scene} : ∀ {vs : List Value},
    (s.valuesTrace c vs).Has e → c.isLoad = true
  | [], h => absurd h Trace.not_has_empty
  | v :: vs, h => by
    rcases Trace.has_append.mp h with h | h
    · exact load_of_has_value h
    · exact load_of_has_values h

theorem load_of_has_step {c : Scene} : ∀ {x : Step}, (s.stepTrace c x).Has e → c.isLoad = true
  | .notes _, h => absurd h Trace.not_has_empty
  | .replace _ v, h => load_of_has_value h
  | .property _ _ _ v, h => by
    have henter := load_of_has_value (c := c.enter { isRuntime := true }) h
    simp [Scene.enter] at henter
  | .braced kind span _ _ parts slots, h => by
    rcases Trace.has_append.mp h with h | h
    · exact load_of_has_values h
    · exact (has_messageTrace h).1
  | .scope scope body, h => by
    have henter := load_of_has_steps (c := c.enter scope) h
    simp only [Scene.enter, Bool.and_eq_true] at henter
    exact henter.1
  | .binding _ _ body, h | .staticField _ _ body, h => by
    rcases Trace.Has.of_boundIn h with h | h
    · exact load_of_has_steps h
    · exact h.1

theorem load_of_has_steps {c : Scene} : ∀ {xs : List Step},
    (s.stepsTrace c xs).Has e → c.isLoad = true
  | [], h => absurd h Trace.not_has_empty
  | x :: xs, h => by
    rcases Trace.has_append.mp h with h | h
    · exact load_of_has_step h
    · exact load_of_has_steps h

end

end Setting

/-! ### Outlines in which something happens at once -/

namespace Outline

/-- The event is part of the value and happens at once if the value is met while the module is
loaded. -/
def Value.Loads (s : Setting) (e : LoadEvent) (v : Value) : Prop := ∃ c, (s.valueTrace c v).Has e

def Step.Loads (s : Setting) (e : LoadEvent) (x : Step) : Prop := ∃ c, (s.stepTrace c x).Has e

def StepsLoad (s : Setting) (e : LoadEvent) (xs : List Step) : Prop := ∃ x ∈ xs, x.Loads s e

theorem StepsLoad.of_trace {c : Scene} {xs : List Step} (h : (s.stepsTrace c xs).Has e) :
    StepsLoad s e xs := by
  obtain ⟨x, hx, h⟩ := Setting.has_stepsTrace.mp h
  exact ⟨x, hx, c, h⟩

theorem Value.not_loads_notes {ns : List Note} : ¬(Value.notes ns).Loads s e :=
  fun ⟨_, h⟩ => Trace.not_has_empty h

theorem Value.not_loads_abort {pos : Nat} : ¬(Value.abort pos).Loads s e :=
  fun ⟨_, h⟩ => Trace.not_has_empty h

theorem Value.Loads.of_message {kind : SiteKind} {span : Span} {parts : List Part}
    {slots : List Value} (h : (Value.message kind span parts slots).Loads s e) :
    e = .site ⟨span, kind⟩ ∨ ∃ v ∈ slots, v.Loads s e := by
  obtain ⟨c, h⟩ := h
  rcases Trace.has_append.mp h with h | h
  · obtain ⟨v, hv, h⟩ := Setting.has_valuesTrace.mp h
    exact .inr ⟨v, hv, c, h⟩
  · exact .inl (Setting.has_messageTrace h).2

theorem Value.Loads.of_rebuild {span : Span} {body : List Step}
    (h : (Value.rebuild span body).Loads s e) : StepsLoad s e body := by
  obtain ⟨c, h⟩ := h
  exact .of_trace h

theorem Value.Loads.of_scope {scope : Scope} {body : Value}
    (h : (Value.scope scope body).Loads s e) : scope.isRuntime = false ∧ body.Loads s e := by
  obtain ⟨c, h⟩ := h
  have hload := Setting.load_of_has_value (c := c.enter scope) h
  simp only [Scene.enter, Bool.and_eq_true, Bool.not_eq_true'] at hload
  exact ⟨hload.2, _, h⟩

theorem Step.not_loads_notes {ns : List Note} : ¬(Step.notes ns).Loads s e :=
  fun ⟨_, h⟩ => Trace.not_has_empty h

theorem Step.Loads.of_replace {span : Span} {v : Value} (h : (Step.replace span v).Loads s e) :
    v.Loads s e := h

theorem Step.not_loads_property {key span : Span} {isArray : Bool} {v : Value} :
    ¬(Step.property key span isArray v).Loads s e := by
  rintro ⟨c, h⟩
  have hload := Setting.load_of_has_value (c := c.enter { isRuntime := true }) h
  simp [Scene.enter] at hload

theorem Step.Loads.of_braced {kind : SiteKind} {span : Span} {leading trailing : String}
    {parts : List Part} {slots : List Value}
    (h : (Step.braced kind span leading trailing parts slots).Loads s e) :
    e = .site ⟨span, kind⟩ ∨ ∃ v ∈ slots, v.Loads s e := by
  have hmessage : (Value.message kind span parts slots).Loads s e := h
  exact hmessage.of_message

theorem Step.Loads.of_scope {scope : Scope} {body : List Step}
    (h : (Step.scope scope body).Loads s e) : scope.isRuntime = false ∧ StepsLoad s e body := by
  obtain ⟨c, h⟩ := h
  have hload := Setting.load_of_has_steps (c := c.enter scope) h
  simp only [Scene.enter, Bool.and_eq_true, Bool.not_eq_true'] at hload
  exact ⟨hload.2, .of_trace h⟩

theorem Step.Loads.of_binding {name : String} {pos : Nat} {body : List Step}
    (h : (Step.binding name pos body).Loads s e) :
    e = .binding name pos ∨ StepsLoad s e body := by
  obtain ⟨c, h⟩ := h
  rcases Trace.Has.of_boundIn h with h | h
  · exact .inr (.of_trace h)
  · exact .inl h.2

theorem Step.Loads.of_staticField {key : String} {pos : Nat} {body : List Step}
    (h : (Step.staticField key pos body).Loads s e) :
    (∃ classes : List String, e = .binding (classes.headD "class" ++ "." ++ key) pos) ∨
      StepsLoad s e body := by
  obtain ⟨c, h⟩ := h
  rcases Trace.Has.of_boundIn h with h | h
  · exact .inr (.of_trace h)
  · exact .inl ⟨c.classes, h.2⟩

theorem not_stepsLoad_nil : ¬StepsLoad s e [] := by simp [StepsLoad]

theorem stepsLoad_singleton {x : Step} : StepsLoad s e [x] ↔ x.Loads s e := by simp [StepsLoad]

theorem stepsLoad_append {xs ys : List Step} :
    StepsLoad s e (xs ++ ys) ↔ StepsLoad s e xs ∨ StepsLoad s e ys := by
  simp only [StepsLoad, List.mem_append, or_and_right, exists_or]

theorem stepsLoad_map {α : Type} {f : α → Step} {as : List α} :
    StepsLoad s e (as.map f) ↔ ∃ a ∈ as, (f a).Loads s e := by
  simp [StepsLoad]

theorem stepsLoad_flatMap {α : Type} {f : α → List Step} {as : List α} :
    StepsLoad s e (as.flatMap f) ↔ ∃ a ∈ as, StepsLoad s e (f a) := by
  simp only [StepsLoad, List.mem_flatMap]
  constructor
  · rintro ⟨x, ⟨a, ha, hx⟩, h⟩
    exact ⟨a, ha, x, hx, h⟩
  · rintro ⟨a, ha, x, hx, h⟩
    exact ⟨x, ⟨a, ha, hx⟩, h⟩

end Outline

end Phrasebook
