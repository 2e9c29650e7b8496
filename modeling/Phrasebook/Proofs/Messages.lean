import Phrasebook.Proofs.Origin
import Phrasebook.Proofs.Wordings

/-!
What holds of all messages of a module. A message is formed in three places only: from a single
text, from a template or chain of `+`, and from a run of markup. What holds there holds all over the
outline, whichever roles its nodes have.
-/
namespace Phrasebook

open Script Outline

/-! ### Messages of an outline -/

namespace Outline

/-- The parts of a message with the values of its slots. -/
structure Filling where
  parts : List Part
  slots : List Value

mutual

/-- The messages of an expression in the order of the walk. -/
def Value.fillings : Value → List Filling
  | .notes _ | .abort _ => []
  | .message _ _ parts slots => valuesFillings slots ++ [⟨parts, slots⟩]
  | .rebuild _ body => stepsFillings body
  | .scope _ body => body.fillings

def valuesFillings : List Value → List Filling
  | [] => []
  | v :: vs => v.fillings ++ valuesFillings vs

def Step.fillings : Step → List Filling
  | .notes _ => []
  | .replace _ v | .property _ _ _ v => v.fillings
  | .braced _ _ _ _ parts slots => valuesFillings slots ++ [⟨parts, slots⟩]
  | .scope _ body | .binding _ _ body | .staticField _ _ body => stepsFillings body

def stepsFillings : List Step → List Filling
  | [] => []
  | x :: xs => x.fillings ++ stepsFillings xs

end

mutual

/-- The wordings of an outline are made of the parts of its messages. -/
theorem Value.map_parts : ∀ v : Value,
    v.fillings.map Filling.parts = v.wordings.map Wording.parts
  | .notes _ | .abort _ => rfl
  | .message _ _ _ slots => by
    simp only [Value.fillings, Value.wordings, List.map_append, valuesFillings_map_parts slots]
    rfl
  | .rebuild _ body => stepsFillings_map_parts body
  | .scope _ body => body.map_parts

theorem valuesFillings_map_parts : ∀ vs : List Value,
    (valuesFillings vs).map Filling.parts = (valuesWordings vs).map Wording.parts
  | [] => rfl
  | v :: vs => by
    simp only [valuesFillings, valuesWordings, List.map_append, v.map_parts,
      valuesFillings_map_parts vs]

theorem Step.map_parts : ∀ x : Step,
    x.fillings.map Filling.parts = x.wordings.map Wording.parts
  | .notes _ => rfl
  | .replace _ v | .property _ _ _ v => v.map_parts
  | .braced _ _ _ _ _ slots => by
    simp only [Step.fillings, Step.wordings, List.map_append, valuesFillings_map_parts slots]
    rfl
  | .scope _ body | .binding _ _ body | .staticField _ _ body => stepsFillings_map_parts body

theorem stepsFillings_map_parts : ∀ xs : List Step,
    (stepsFillings xs).map Filling.parts = (stepsWordings xs).map Wording.parts
  | [] => rfl
  | x :: xs => by
    simp only [stepsFillings, stepsWordings, List.map_append, x.map_parts,
      stepsFillings_map_parts xs]

end

end Outline

variable {P : Filling → Prop}

/-- All of these messages have `P`. -/
def Every (P : Filling → Prop) (ms : List Filling) : Prop := ∀ m ∈ ms, P m

@[simp] theorem every_nil : Every P [] := by simp [Every]

@[simp] theorem every_append {ms ns : List Filling} :
    Every P (ms ++ ns) ↔ Every P ms ∧ Every P ns := by
  simp [Every, or_imp, forall_and]

@[simp] theorem every_singleton {m : Filling} : Every P [m] ↔ P m := by simp [Every]

theorem every_steps {xs : List Step} :
    Every P (stepsFillings xs) ↔ ∀ x ∈ xs, Every P x.fillings := by
  induction xs with
  | nil => simp [stepsFillings]
  | cons x xs ih => simp [stepsFillings, ih]

theorem every_values {vs : List Value} :
    Every P (valuesFillings vs) ↔ ∀ v ∈ vs, Every P v.fillings := by
  induction vs with
  | nil => simp [valuesFillings]
  | cons v vs ih => simp [valuesFillings, ih]

theorem every_flatMap {α : Type} {f : α → List Step} {as : List α}
    (h : ∀ a ∈ as, Every P (stepsFillings (f a))) : Every P (stepsFillings (as.flatMap f)) := by
  rw [every_steps]
  intro x hx
  obtain ⟨a, ha, hx⟩ := List.mem_flatMap.mp hx
  exact every_steps.mp (h a ha) x hx

theorem every_map {α : Type} {f : α → Step} {as : List α}
    (h : ∀ a ∈ as, Every P (f a).fillings) : Every P (stepsFillings (as.map f)) := by
  rw [every_steps]
  intro x hx
  obtain ⟨a, ha, rfl⟩ := List.mem_map.mp hx
  exact h a ha

theorem every_join {xs ys : List Step} (hx : Every P (stepsFillings xs))
    (hy : Every P (stepsFillings ys)) : Every P (stepsFillings (xs ++ ys)) := by
  rw [every_steps] at hx hy ⊢
  intro z hz
  exact (List.mem_append.mp hz).elim (hx z) (hy z)

/-! ### Where messages are formed -/

/-- `P` holds of a message wherever one is formed. -/
structure Setting.Forms (s : Setting) (P : Filling → Prop) : Prop where
  text : ∀ text, Text.hasTarget text = true → P ⟨[.text text], []⟩
  message : ∀ {kind span parts} (children : List Node) (depth : Nat),
    Setting.messageOf kind span children = some parts →
      P ⟨parts, Setting.slotsOf kind (s.viewsOfAll children) depth⟩
  run : ∀ owner, ∀ r ∈ s.plan.runsFor owner, ∀ cs : List Child,
    P ⟨r.message (cs.map (·.1)), Setting.runSlots r cs⟩

/-- Whichever way the node above uses this child, its messages have `P`. -/
structure Child.Every (P : Filling → Prop) (c : Child) : Prop where
  expr : ∀ depth, Phrasebook.Every P (c.views.expr depth).fillings
  inner : Phrasebook.Every P (stepsFillings (c.views.inner ()))
  slots : ∀ depth, ∀ v ∈ c.views.slots depth, Phrasebook.Every P v.fillings
  member : ∀ depth, Phrasebook.Every P (stepsFillings (c.views.member depth))

namespace Child.Every

variable {c : Child}

theorem replaced (h : c.Every P) (depth : Nat) :
    Phrasebook.Every P (c.replaced depth).fillings := by
  unfold Child.replaced
  split <;> exact h.expr depth

theorem visit (h : c.Every P) : Phrasebook.Every P (stepsFillings c.visit) := by
  unfold Child.visit
  split
  · simpa [stepsFillings] using h.replaced 0
  · exact h.inner

end Child.Every

namespace Setting

variable {s : Setting} {kind : Kind} {span : Span} {cs : List Child}

theorem every_visitAll (h : ∀ c ∈ cs, c.Every P) : Every P (stepsFillings (visitAll cs)) :=
  every_flatMap fun c hc => (h c hc).visit

theorem every_unlessLiteral (reason : Reason) (c : Child) {otherwise : List Step}
    (h : Every P (stepsFillings otherwise)) :
    Every P (stepsFillings (unlessLiteral reason c otherwise)) := by
  unfold unlessLiteral
  split
  · simp [stepsFillings, Step.fillings]
  · exact h

theorem every_literal (hforms : s.Forms P) (span : Span) (value : Option String) :
    Every P (literal span value).fillings := by
  unfold literal
  split
  · split
    · rename_i htarget
      simpa [Value.fillings, valuesFillings] using hforms.text _ htarget
    · simp [Value.nothing, Value.fillings]
  · simp [Value.nothing, Value.fillings]

theorem every_rebuilt (h : ∀ c ∈ cs, c.Every P) (span : Span) (depth : Nat) :
    Every P (rebuilt span cs depth).fillings :=
  every_map fun c hc => (h c hc).replaced (depth + 1)

/-! ### Markup -/

theorem every_run (h : ∀ c ∈ cs, c.Every P) {r : Markup.Run}
    (hr : P ⟨r.message (cs.map (·.1)), runSlots r cs⟩) : Every P (stepsFillings (run r cs)) := by
  unfold run
  simp only
  split
  · simp only [stepsFillings, Step.fillings, List.append_nil, every_append, every_singleton,
      every_values]
    refine ⟨?_, hr⟩
    intro v hv
    obtain ⟨c, hc, rfl⟩ := OutlinedAt.mem_runSlots hv
    exact (h c hc).expr 1
  · simp [stepsFillings]

theorem every_childrenFrom {runs : List Markup.Run} {all : List Child}
    (hruns : ∀ r ∈ runs, P ⟨r.message (all.map (·.1)), runSlots r all⟩)
    (hall : ∀ c ∈ all, c.Every P) (rest : List Child) (hrest : ∀ c ∈ rest, c.Every P)
    (index resume : Nat) : Every P (stepsFillings (childrenFrom runs all index resume rest)) := by
  induction rest generalizing index resume with
  | nil => simp [childrenFrom, stepsFillings]
  | cons c rest ih =>
    have hlater : ∀ index resume,
        Every P (stepsFillings (childrenFrom runs all index resume rest)) :=
      ih fun d hd => hrest d (List.mem_cons_of_mem _ hd)
    rw [childrenFrom]
    split
    · exact hlater _ _
    · split
      · rename_i r hfind
        exact every_join (every_run hall (hruns r (List.mem_of_find?_eq_some hfind)))
          (hlater _ _)
      · exact every_join (hrest c (List.mem_cons_self ..)).inner (hlater _ _)

theorem every_markupChildren (hforms : s.Forms P) (h : ∀ c ∈ cs, c.Every P) (owner : Span) :
    Every P (stepsFillings (markupChildren s owner cs)) :=
  every_childrenFrom (fun r hr => hforms.run owner r hr cs) h cs h 0 0

theorem every_markupText (hforms : s.Forms P) (span : Span) (value : String) :
    Every P (stepsFillings (markupText s span value)) := by
  unfold markupText
  simp only
  split
  · simp [stepsFillings]
  · rename_i htarget
    split
    · simp [stepsFillings, Step.fillings]
    · have htext := hforms.text (Text.trim (Markup.clean value)) (by simpa using htarget)
      simpa [stepsFillings, Step.fillings, valuesFillings] using htext

theorem every_attributeText (hforms : s.Forms P) (span : Span) (value : String) :
    Every P (stepsFillings (attributeText span value)) := by
  unfold attributeText
  split
  · rename_i htarget
    simpa [stepsFillings, Step.fillings, valuesFillings] using hforms.text _ htarget
  · simp [stepsFillings]

/-! ### Nodes -/

theorem every_declarator (h : ∀ c ∈ cs, c.Every P) (lo : Nat) :
    Every P (stepsFillings (declarator s lo cs)) := by
  unfold declarator
  split
  · simp [stepsFillings]
  · simpa [stepsFillings, Step.fillings] using every_visitAll h

theorem every_staticField (h : ∀ c ∈ cs, c.Every P) (lo : Nat) :
    Every P (stepsFillings (staticField s lo cs)) := by
  unfold staticField
  split
  · simp [stepsFillings]
  · simpa [stepsFillings, Step.fillings] using every_visitAll h

theorem every_inner (hforms : s.Forms P) (h : ∀ c ∈ cs, c.Every P) :
    Every P (stepsFillings (inner s kind span cs)) := by
  have hall := every_visitAll h
  unfold inner
  split
  -- The cases stand in the order of the definition.
  case h_1 | h_2 => exact every_map fun c hc => (h c hc).visit
  case h_7 => exact every_staticField h span.lo
  case h_9 object key =>
    have hkey : Every P (stepsFillings (keptKey key)) :=
      every_unlessLiteral .memberKey key (h key (by simp)).visit
    exact every_join (h object (by simp)).visit hkey
  case h_10 => simp [stepsFillings, Step.fillings]
  case h_11 test body =>
    have hbody := every_visitAll fun c hc => h c (List.mem_cons_of_mem test hc)
    exact every_join (every_unlessLiteral .comparison test (h test (by simp)).visit) hbody
  case h_12 opening kids =>
    refine every_join (h opening (by simp)).visit ?_
    split
    · simp [stepsFillings]
    · exact every_markupChildren hforms (fun c hc => h c (List.mem_cons_of_mem opening hc)) span
  case h_13 => exact every_markupChildren hforms h span
  case h_14 => exact every_markupText hforms span _
  case h_15 => exact every_attributeText hforms span _
  case h_16 | h_17 => exact every_flatMap fun c hc => (h c hc).inner
  case h_18 => exact every_declarator h span.lo
  case h_24 => exact hall
  all_goals simpa [stepsFillings, Step.fillings] using hall

theorem every_call (h : ∀ c ∈ cs, c.Every P) (depth : Nat) :
    Every P (call s span cs depth).fillings := by
  have hparts := every_rebuilt (fun c hc => h c (OutlinedAt.valueParts_subset hc)) span depth
  unfold call
  split
  · simp [Value.nothing, Value.fillings]
  · simp only
    split
    · simp [Value.fillings]
    · split
      · split
        · simp [Value.nothing, Value.fillings]
        · split
          · simp [Value.fillings]
          · exact hparts
      · exact hparts

theorem every_construct (h : ∀ c ∈ cs, c.Every P) (depth : Nat) :
    Every P (construct s span cs depth).fillings := by
  have hparts := every_rebuilt (fun c hc => h c (OutlinedAt.valueParts_subset hc)) span depth
  unfold construct
  split
  · simp [Value.nothing, Value.fillings]
  · split
    · split
      · simp [Value.fillings]
      · exact hparts
    · exact hparts

theorem every_comparison (h : ∀ c ∈ cs, c.Every P) (depth : Nat) :
    Every P (comparison span cs depth).fillings := by
  refine every_flatMap fun c hc => every_unlessLiteral .comparison c ?_
  simpa [stepsFillings] using (h c hc).replaced (depth + 1)

theorem every_arrowPart {c : Child} (h : c.Every P) (depth : Nat) :
    Every P (stepsFillings (arrowPart depth c)) := by
  unfold arrowPart
  split
  · simp [stepsFillings]
  · simp [stepsFillings]
  · split
    · simpa [stepsFillings] using h.replaced (depth + 1)
    · exact h.visit

theorem every_property (h : ∀ c ∈ cs, c.Every P) (depth : Nat) :
    Every P (stepsFillings (property cs depth)) := by
  unfold property
  split
  · rename_i key value
    have hvalue := h value (by simp)
    have hreplaced : Every P (stepsFillings [value.replaced (depth + 1)]) := by
      simpa [stepsFillings] using hvalue.replaced (depth + 1)
    split
    · exact every_join ((h key (by simp)).member depth) hreplaced
    · split
      · exact hreplaced
      · simpa [stepsFillings, Step.fillings] using hvalue.expr (depth + 1)
  · simp [stepsFillings]

theorem every_slotsOf (h : ∀ c ∈ cs, c.Every P) (depth : Nat) :
    ∀ v ∈ slotsOf kind cs depth, Every P v.fillings := by
  intro v hv
  unfold slotsOf at hv
  split at hv
  · obtain ⟨c, hc, rfl⟩ := List.mem_map.mp hv
    exact (h c (List.mem_of_mem_take hc)).expr depth
  · obtain ⟨c, hc, hv⟩ := List.mem_flatMap.mp hv
    exact (h c hc).slots depth v hv
  · cases hv

theorem every_exprWithin (hforms : s.Forms P)
    (hmessage : ∀ depth parts, messageOf kind span (cs.map (·.1)) = some parts →
      P ⟨parts, slotsOf kind cs depth⟩)
    (h : ∀ c ∈ cs, c.Every P) (depth : Nat) :
    Every P (exprWithin s kind span cs depth).fillings := by
  have hvalues : ∀ c ∈ valueParts cs, c.Every P := fun c hc =>
    h c (OutlinedAt.valueParts_subset hc)
  unfold exprWithin
  simp only
  split
  · rename_i parts hparts
    simp only [Value.fillings, every_append, every_singleton, every_values]
    exact ⟨every_slotsOf h (depth + 1), hmessage (depth + 1) parts hparts⟩
  · split
    -- The cases stand in the order of the definition.
    case h_1 => exact every_literal hforms span _
    case h_8 => exact every_comparison h depth
    case h_9 => exact every_rebuilt hvalues span depth
    case h_10 => exact every_call h depth
    case h_11 => exact every_construct h depth
    case h_12 => exact every_flatMap fun c hc => (h c hc).member depth
    case h_13 => exact every_flatMap fun c hc => every_arrowPart (h c hc) depth
    case h_14 =>
      unfold constAssertion
      split
      · exact every_literal hforms _ _
      · exact every_rebuilt h span depth
    case h_15 => exact every_inner hforms h
    all_goals exact every_rebuilt h span depth

theorem every_views (hforms : s.Forms P)
    (hmessage : ∀ depth parts, messageOf kind span (cs.map (·.1)) = some parts →
      P ⟨parts, slotsOf kind cs depth⟩)
    (h : ∀ c ∈ cs, c.Every P) :
    Child.Every P (.mk kind span (cs.map (·.1)), views s kind span cs) := by
  unfold views
  split
  case h_1 e =>
    have he := h e (by simp)
    refine ⟨he.expr, he.visit, fun depth v hv => ?_, fun depth => ?_⟩
    · rw [List.mem_singleton.mp hv]
      exact he.expr depth
    · simpa [Child.views, stepsFillings] using he.replaced (depth + 1)
  case h_2 e =>
    have he := h e (by simp)
    refine ⟨he.expr, he.visit, fun depth v hv => ?_, fun _ => he.visit⟩
    rw [List.mem_singleton.mp hv]
    exact he.expr depth
  case h_3 key =>
    have hkey := h key (by simp)
    refine ⟨fun _ => every_nil, hkey.visit, fun _ v hv => ?_,
      fun _ => every_unlessLiteral .memberKey key hkey.visit⟩
    rw [List.mem_singleton.mp hv]
    exact every_nil
  case h_4 =>
    refine ⟨fun _ => every_nil, every_visitAll h, fun _ v hv => ?_, every_property h⟩
    rw [List.mem_singleton.mp hv]
    exact every_nil
  case h_5 =>
    generalize hview : (fun depth => if s.options.maxDepth < depth then Value.abort span.lo
      else exprWithin s kind span cs depth) = expr
    have hexpr : ∀ depth, Every P (expr depth).fillings := by
      intro depth
      rw [← hview]
      simp only
      split
      · exact every_nil
      · exact every_exprWithin hforms hmessage h depth
    refine ⟨hexpr, every_inner hforms h, ?_, fun _ => every_inner hforms h⟩
    intro depth v hv
    simp only [Child.views, operandSlots] at hv
    split at hv
    · cases hv
    · cases hv
    · exact every_slotsOf h depth v hv
    · exact every_slotsOf h depth v hv
    · rw [List.mem_singleton.mp hv]
      exact hexpr depth

theorem every_viewsOf (hforms : s.Forms P) (n : Node) : Child.Every P (n, s.viewsOf n) := by
  induction n using Node.inductOn with
  | mk kind span children ih =>
    have hchildren : (s.viewsOfAll children).map (·.1) = children := by
      simp [viewsOfAll_eq, Function.comp_def]
    have hviews : Child.Every P (.mk kind span ((s.viewsOfAll children).map (·.1)),
        views s kind span (s.viewsOfAll children)) := by
      refine every_views hforms (fun depth parts hparts => ?_) ?_
      · rw [hchildren] at hparts
        exact hforms.message children depth hparts
      · intro c hc
        rw [viewsOfAll_eq] at hc
        obtain ⟨n, hn, rfl⟩ := List.mem_map.mp hc
        exact ih n hn
    rwa [hchildren] at hviews

/-- What holds of messages as they are formed holds of all messages of the module. -/
theorem every_outline (hforms : s.Forms P) : Every P (stepsFillings s.outline) :=
  (every_viewsOf hforms s.source.tree).inner

end Setting

end Phrasebook
