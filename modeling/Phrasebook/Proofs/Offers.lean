import Phrasebook.Proofs.SiteTrace

/-!
Which sites an outline offers, whatever surrounds it: the messages in it that no scope on the way
hides the lookup function from.
-/
namespace Phrasebook

open Script Outline

variable {id : SiteId}

namespace Outline

mutual

/-- A message with this span and kind is part of the value, and no scope around it inside the value
hides the lookup function. -/
inductive Value.Offers (id : SiteId) : Value → Prop where
  | message {kind : SiteKind} {span : Span} {parts : List Part} {slots : List Value} :
      id = ⟨span, kind⟩ → Value.Offers id (.message kind span parts slots)
  | slot {kind : SiteKind} {span : Span} {parts : List Part} {slots : List Value} {v : Value} :
      v ∈ slots → Value.Offers id v → Value.Offers id (.message kind span parts slots)
  | rebuild {span : Span} {body : List Step} {x : Step} :
      x ∈ body → Step.Offers id x → Value.Offers id (.rebuild span body)
  | scope {scope : Scope} {body : Value} :
      scope.shadows = false → Value.Offers id body → Value.Offers id (.scope scope body)

inductive Step.Offers (id : SiteId) : Step → Prop where
  | replace {span : Span} {v : Value} : Value.Offers id v → Step.Offers id (.replace span v)
  | property {key span : Span} {isArray : Bool} {v : Value} :
      Value.Offers id v → Step.Offers id (.property key span isArray v)
  | braced {kind : SiteKind} {span : Span} {leading trailing : String} {parts : List Part}
      {slots : List Value} :
      id = ⟨span, kind⟩ → Step.Offers id (.braced kind span leading trailing parts slots)
  | slot {kind : SiteKind} {span : Span} {leading trailing : String} {parts : List Part}
      {slots : List Value} {v : Value} : v ∈ slots → Value.Offers id v →
      Step.Offers id (.braced kind span leading trailing parts slots)
  | scope {scope : Scope} {body : List Step} {x : Step} : scope.shadows = false →
      x ∈ body → Step.Offers id x → Step.Offers id (.scope scope body)
  | binding {name : String} {start : Nat} {body : List Step} {x : Step} :
      x ∈ body → Step.Offers id x → Step.Offers id (.binding name start body)
  | staticField {key : String} {start : Nat} {body : List Step} {x : Step} :
      x ∈ body → Step.Offers id x → Step.Offers id (.staticField key start body)

end

def StepsOffer (id : SiteId) (xs : List Step) : Prop := ∃ x ∈ xs, x.Offers id

@[simp] theorem Value.not_offers_notes {ns : List Note} : ¬(Value.notes ns).Offers id := nofun

@[simp] theorem Value.not_offers_abort {pos : Nat} : ¬(Value.abort pos).Offers id := nofun

@[simp] theorem Value.offers_message {kind : SiteKind} {span : Span} {parts : List Part}
    {slots : List Value} : (Value.message kind span parts slots).Offers id ↔
      id = ⟨span, kind⟩ ∨ ∃ v ∈ slots, v.Offers id := by
  constructor
  · intro h
    cases h with
    | message heq => exact .inl heq
    | slot hv h => exact .inr ⟨_, hv, h⟩
  · rintro (heq | ⟨v, hv, h⟩)
    · exact .message heq
    · exact .slot hv h

@[simp] theorem Value.offers_rebuild {span : Span} {body : List Step} :
    (Value.rebuild span body).Offers id ↔ StepsOffer id body :=
  ⟨fun | .rebuild hx h => ⟨_, hx, h⟩, fun ⟨_, hx, h⟩ => .rebuild hx h⟩

@[simp] theorem Value.offers_scope {scope : Scope} {body : Value} :
    (Value.scope scope body).Offers id ↔ scope.shadows = false ∧ body.Offers id :=
  ⟨fun | .scope hs h => ⟨hs, h⟩, fun ⟨hs, h⟩ => .scope hs h⟩

@[simp] theorem Step.not_offers_notes {ns : List Note} : ¬(Step.notes ns).Offers id := nofun

@[simp] theorem Step.offers_replace {span : Span} {v : Value} :
    (Step.replace span v).Offers id ↔ v.Offers id :=
  ⟨fun | .replace h => h, .replace⟩

@[simp] theorem Step.offers_property {key span : Span} {isArray : Bool} {v : Value} :
    (Step.property key span isArray v).Offers id ↔ v.Offers id :=
  ⟨fun | .property h => h, .property⟩

@[simp] theorem Step.offers_braced {kind : SiteKind} {span : Span} {leading trailing : String}
    {parts : List Part} {slots : List Value} :
    (Step.braced kind span leading trailing parts slots).Offers id ↔
      id = ⟨span, kind⟩ ∨ ∃ v ∈ slots, v.Offers id := by
  constructor
  · intro h
    cases h with
    | braced heq => exact .inl heq
    | slot hv h => exact .inr ⟨_, hv, h⟩
  · rintro (heq | ⟨v, hv, h⟩)
    · exact .braced heq
    · exact .slot hv h

@[simp] theorem Step.offers_scope {scope : Scope} {body : List Step} :
    (Step.scope scope body).Offers id ↔ scope.shadows = false ∧ StepsOffer id body :=
  ⟨fun | .scope hs hx h => ⟨hs, _, hx, h⟩, fun ⟨hs, _, hx, h⟩ => .scope hs hx h⟩

@[simp] theorem Step.offers_binding {name : String} {start : Nat} {body : List Step} :
    (Step.binding name start body).Offers id ↔ StepsOffer id body :=
  ⟨fun | .binding hx h => ⟨_, hx, h⟩, fun ⟨_, hx, h⟩ => .binding hx h⟩

@[simp] theorem Step.offers_staticField {key : String} {start : Nat} {body : List Step} :
    (Step.staticField key start body).Offers id ↔ StepsOffer id body :=
  ⟨fun | .staticField hx h => ⟨_, hx, h⟩, fun ⟨_, hx, h⟩ => .staticField hx h⟩

@[simp] theorem not_stepsOffer_nil : ¬StepsOffer id [] := by simp [StepsOffer]

@[simp] theorem stepsOffer_singleton {x : Step} : StepsOffer id [x] ↔ x.Offers id := by
  simp [StepsOffer]

@[simp] theorem stepsOffer_append {xs ys : List Step} :
    StepsOffer id (xs ++ ys) ↔ StepsOffer id xs ∨ StepsOffer id ys := by
  simp only [StepsOffer, List.mem_append, or_and_right, exists_or]

theorem stepsOffer_map {α : Type} {f : α → Step} {as : List α} :
    StepsOffer id (as.map f) ↔ ∃ a ∈ as, (f a).Offers id := by
  simp only [StepsOffer, List.mem_map]
  constructor
  · rintro ⟨_, ⟨a, ha, rfl⟩, h⟩
    exact ⟨a, ha, h⟩
  · rintro ⟨a, ha, h⟩
    exact ⟨f a, ⟨a, ha, rfl⟩, h⟩

theorem stepsOffer_flatMap {α : Type} {f : α → List Step} {as : List α} :
    StepsOffer id (as.flatMap f) ↔ ∃ a ∈ as, StepsOffer id (f a) := by
  simp only [StepsOffer, List.mem_flatMap]
  constructor
  · rintro ⟨x, ⟨a, ha, hx⟩, h⟩
    exact ⟨a, ha, x, hx, h⟩
  · rintro ⟨a, ha, x, hx, h⟩
    exact ⟨x, ⟨a, ha, hx⟩, h⟩

end Outline

/-! ### Sites of an outline are offered -/

theorem Surroundings.of_enter_shadowed {a : Surroundings} {scope : Scope}
    (h : (a.enter scope).shadowed = 0) : a.shadowed = 0 ∧ scope.shadows = false := by
  simp only [enter, Nat.add_eq_zero_iff] at h
  exact ⟨h.1, by simpa using h.2⟩

namespace Setting

variable (s : Setting)

theorem mem_messageSites {a : Surroundings} {kind : SiteKind} {span : Span} {parts : List Part}
    {site : Site} (h : site ∈ s.messageSites a kind span parts) :
    a.shadowed = 0 ∧ site.id = ⟨span, kind⟩ := by
  simp only [messageSites] at h
  split at h
  · cases h
  · rename_i hs
    rw [List.mem_singleton.mp h]
    exact ⟨Nat.eq_zero_of_not_pos hs, rfl⟩

mutual

theorem offers_of_mem_value {a : Surroundings} {site : Site} : ∀ v : Value,
    site ∈ s.valueSites a v → a.shadowed = 0 ∧ v.Offers site.id
  | .notes _, h | .abort _, h => by simp [valueSites] at h
  | .message kind span parts slots, h => by
    simp only [valueSites, List.mem_append] at h
    rcases h with h | h
    · obtain ⟨ha, v, hv, ho⟩ := offers_of_mem_values slots h
      exact ⟨ha, .slot hv ho⟩
    · obtain ⟨ha, hid⟩ := mem_messageSites s h
      exact ⟨ha, .message hid⟩
  | .rebuild span body, h => by
    obtain ⟨ha, ho⟩ := offers_of_mem_steps body (by simpa only [valueSites] using h)
    exact ⟨ha, Value.offers_rebuild.mpr ho⟩
  | .scope scope body, h => by
    obtain ⟨ha, ho⟩ := offers_of_mem_value body (by simpa only [valueSites] using h)
    obtain ⟨ha, hs⟩ := Surroundings.of_enter_shadowed ha
    exact ⟨ha, .scope hs ho⟩

theorem offers_of_mem_values {a : Surroundings} {site : Site} : ∀ vs : List Value,
    site ∈ s.valuesSites a vs → a.shadowed = 0 ∧ ∃ v ∈ vs, v.Offers site.id
  | [], h => by simp [valuesSites] at h
  | v :: vs, h => by
    simp only [valuesSites, List.mem_append] at h
    rcases h with h | h
    · obtain ⟨ha, ho⟩ := offers_of_mem_value v h
      exact ⟨ha, v, List.mem_cons_self .., ho⟩
    · obtain ⟨ha, x, hx, ho⟩ := offers_of_mem_values vs h
      exact ⟨ha, x, List.mem_cons_of_mem _ hx, ho⟩

theorem offers_of_mem_step {a : Surroundings} {site : Site} : ∀ x : Step,
    site ∈ s.stepSites a x → a.shadowed = 0 ∧ x.Offers site.id
  | .notes _, h => by simp [stepSites] at h
  | .replace _ v, h => by
    obtain ⟨ha, ho⟩ := offers_of_mem_value v (by simpa only [stepSites] using h)
    exact ⟨ha, .replace ho⟩
  | .property _ _ _ v, h => by
    obtain ⟨ha, ho⟩ := offers_of_mem_value v (by simpa only [stepSites] using h)
    exact ⟨ha, .property ho⟩
  | .braced kind span _ _ parts slots, h => by
    simp only [stepSites, List.mem_append] at h
    rcases h with h | h
    · obtain ⟨ha, v, hv, ho⟩ := offers_of_mem_values slots h
      exact ⟨ha, .slot hv ho⟩
    · obtain ⟨ha, hid⟩ := mem_messageSites s h
      exact ⟨ha, .braced hid⟩
  | .scope scope body, h => by
    obtain ⟨ha, ho⟩ := offers_of_mem_steps body (by simpa only [stepSites] using h)
    obtain ⟨ha, hs⟩ := Surroundings.of_enter_shadowed ha
    exact ⟨ha, Step.offers_scope.mpr ⟨hs, ho⟩⟩
  | .binding _ _ body, h => by
    obtain ⟨ha, ho⟩ := offers_of_mem_steps body (by simpa only [stepSites] using h)
    exact ⟨ha, Step.offers_binding.mpr ho⟩
  | .staticField _ _ body, h => by
    obtain ⟨ha, ho⟩ := offers_of_mem_steps body (by simpa only [stepSites] using h)
    exact ⟨ha, Step.offers_staticField.mpr ho⟩

theorem offers_of_mem_steps {a : Surroundings} {site : Site} : ∀ xs : List Step,
    site ∈ s.stepsSites a xs → a.shadowed = 0 ∧ StepsOffer site.id xs
  | [], h => by simp [stepsSites] at h
  | x :: xs, h => by
    simp only [stepsSites, List.mem_append] at h
    rcases h with h | h
    · obtain ⟨ha, ho⟩ := offers_of_mem_step x h
      exact ⟨ha, x, List.mem_cons_self .., ho⟩
    · obtain ⟨ha, y, hy, ho⟩ := offers_of_mem_steps xs h
      exact ⟨ha, y, List.mem_cons_of_mem _ hy, ho⟩

end

end Setting

end Phrasebook
