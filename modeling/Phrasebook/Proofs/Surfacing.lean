import Phrasebook.Proofs.Fitting
import Phrasebook.Proofs.Messages

/-!
Keys come to the surface. Wherever the handler gives a key out, an edit reaches the module through
whatever is rebuilt around the site, and nothing is rebuilt without a key.
-/
namespace Phrasebook

open Script Outline

variable {σ : Type}

/-! ### Slots and their values -/

/-- A message has one value for each slot. -/
def Outline.Filling.Paired (m : Filling) : Prop := m.slots.length = (slotSpans m.parts).length

namespace Message

/-- What is neither text nor a chain is one slot. -/
theorem operandSpans_of_other {kind : Kind} {span : Span} {children : List Node}
    (hstring : ∀ value, kind ≠ .string value) (hnumber : ∀ value, kind ≠ .number value)
    (htemplate : ∀ pieces, kind ≠ .template pieces)
    (hchain : kind = .binary .add → children.length ≠ 2) :
    (operands (.mk kind span children)).flatMap operandSpans = [span] := by
  have hoperands : operands (.mk kind span children) = [.mk kind span children] := by
    refine operands.eq_2 _ fun span' left right h => ?_
    obtain ⟨hkind, -, hchildren⟩ := Node.mk.inj h
    exact hchain hkind (by rw [hchildren]; rfl)
  have hspans : operandSpans (.mk kind span children) = [span] := by
    unfold operandSpans
    split
    · rename_i h
      exact absurd (Node.mk.inj h).1 (hstring _)
    · rename_i h
      exact absurd (Node.mk.inj h).1 (hnumber _)
    · rename_i h
      exact absurd (Node.mk.inj h).1 (htemplate _)
    · rfl
  rw [hoperands, List.flatMap_singleton, hspans]

/-- A chain with a message has two sides. -/
theorem exists_sides {span : Span} {children : List Node} {parts : List Part}
    (h : ofConcat (.mk (.binary .add) span children) = some parts) :
    ∃ left right, children = [left, right] := by
  by_contra hnot
  have hoperands : operands (.mk (.binary .add) span children) =
      [.mk (.binary .add) span children] :=
    operands.eq_2 _ fun span' left right h => hnot ⟨left, right, (Node.mk.inj h).2.2⟩
  simp only [ofConcat, Option.bind_eq_bind, Option.bind_eq_some_iff, hoperands] at h
  -- A lone chain is no string, so the search for the first one fails.
  obtain ⟨first, hfirst, -⟩ := h
  simp [isStringOperand, Node.kind] at hfirst

end Message

namespace Setting

variable (s : Setting)

theorem length_slotsOf_template (pieces : List Piece) (children : List Node) (depth : Nat) :
    (slotsOf (.template pieces) (s.viewsOfAll children) depth).length =
      (slotSpans (Message.weave pieces children)).length := by
  simp [slotsOf, viewsOfAll_eq, Message.slotSpans_weave]

/-- A node brings as many values to a chain of `+` as it has slots there. -/
theorem length_slots (n : Node) (depth : Nat) : ((s.viewsOf n).slots depth).length =
    ((Message.operands n).flatMap Message.operandSpans).length := by
  induction n using Node.inductOn with
  | mk kind span children ih =>
    rw [viewsOf]
    unfold views
    split
    case h_1 | h_2 | h_3 | h_4 => simp [Message.operands, Message.operandSpans]
    case h_5 =>
      simp only [operandSlots]
      split
      · simp [Message.operands, Message.operandSpans]
      · simp [Message.operands, Message.operandSpans]
      · rw [length_slotsOf_template]
        simp [Message.operands, Message.operandSpans]
      · rename_i htwo _ _ _ _
        obtain ⟨left, right, rfl⟩ : ∃ left right, children = [left, right] := by
          rw [viewsOfAll_eq] at htwo
          exact List.length_eq_two.mp (by simpa using congrArg List.length htwo)
        simp [slotsOf, viewsOfAll_eq, Message.operands, Child.views, ih]
      · rename_i hstring hnumber htemplate _ _ _ _ htwo
        rw [Message.operandSpans_of_other hstring hnumber htemplate fun hkind hlength => ?_]
        · rfl
        · obtain ⟨left, right, rfl⟩ := List.length_eq_two.mp hlength
          exact htwo _ _ hkind (viewsOfAll_eq s _)

theorem paired_message {kind : Kind} {span : Span} {children : List Node} {parts : List Part}
    (h : messageOf kind span children = some parts) (depth : Nat) :
    (slotsOf kind (s.viewsOfAll children) depth).length = (slotSpans parts).length := by
  unfold messageOf at h
  split at h
  · obtain ⟨hparts, -⟩ := Option.filter_eq_some_iff.mp h
    rw [← Option.some.inj hparts]
    exact length_slotsOf_template s _ children depth
  · obtain ⟨hparts, -⟩ := Option.filter_eq_some_iff.mp h
    obtain ⟨left, right, rfl⟩ := Message.exists_sides hparts
    simp only [Message.ofConcat, Option.bind_eq_bind, Option.bind_eq_some_iff] at hparts
    obtain ⟨-, -, -, -, hparts⟩ := hparts
    rw [Message.slotSpans_foldlM_pushOperand _ hparts]
    exact length_slots s (.mk (.binary .add) span [left, right]) depth
  · cases h

/-- The values of a run are those of the expressions in its message. -/
theorem paired_run (r : Markup.Run) (cs : List Child) :
    (runSlots r cs).length = (slotSpans (r.message (cs.map (·.1)))).length := by
  rw [runSlots_eq, slotSpans_message, List.length_filterMap_eq_countP,
    List.length_filterMap_eq_countP]
  refine congrArg (List.countP · _) (funext fun c => ?_)
  obtain ⟨⟨kind, span, children⟩, views⟩ := c
  simp only [slotOf, slotRange, Child.node]
  split <;> rename_i heq
  · cases heq
    rfl
  · split
    · rename_i h
      exact absurd (congrArg (·, views) h) (heq _ _ _)
    · rfl

theorem paired_forms : s.Forms Filling.Paired where
  text _ _ := rfl
  message _ depth h := paired_message s h depth
  run _ r _ cs := paired_run r cs

end Setting

/-- With a value for each slot, a message brings edits exactly if one of its slots has changed. -/
theorem Bound.fill_edits_ne_nil (source : Source) (parts : List Part) (b : Bound)
    {xs : List (Option Extraction)} (hlength : xs.length = (slotSpans parts).length) :
    (fill source b parts xs).edits ≠ [] ↔ b.edits ≠ [] ∨ ∃ x ∈ xs, x ≠ none := by
  induction parts generalizing b xs with
  | nil =>
    obtain rfl : xs = [] := List.eq_nil_of_length_eq_zero hlength
    simp [fill]
  | cons p parts ih =>
    cases p with
    | text text => exact ih (b.pushText text) hlength
    | slot e =>
      obtain ⟨x, xs, rfl⟩ := List.exists_cons_of_length_eq_add_one hlength
      have hrest := ih (b.pushSlot source e x) (Nat.succ.inj hlength)
      rw [fill, List.headD_cons, List.drop_one, List.tail_cons, hrest]
      cases x <;> simp [pushSlot]

namespace Walk

/-- What is reported only about keys that were given out. -/
def trail (w : Walk σ) : List String × Nat × List DeferredBinding × List Location :=
  (w.eagerKeys, w.report.lazyAccessors, w.report.deferred, w.report.containerAccessors)

/-- From `w` to `w'` keys were given out exactly if something has `changed`. -/
structure Changes (changed : Prop) (w w' : Walk σ) : Prop where
  le : w.report.applied ≤ w'.report.applied
  lt_iff : changed ↔ w.report.applied < w'.report.applied
  trail : ¬ changed → w'.trail = w.trail

section

variable {p q : Prop} {w w' w'' : Walk σ}

theorem Changes.quiet (hp : ¬ p) (happlied : w'.report.applied = w.report.applied)
    (htrail : w'.trail = w.trail) : Changes p w w' :=
  ⟨happlied.ge, by simp [happlied, hp], fun _ => htrail⟩

theorem Changes.congr (h : Changes p w w') (hpq : p ↔ q) : Changes q w w' := by
  rwa [propext hpq] at h

theorem Changes.trans (h : Changes p w w') (h' : Changes q w' w'') : Changes (p ∨ q) w w'' := by
  have hle := h.le
  have hle' := h'.le
  refine ⟨by omega, ?_, fun hnot => ?_⟩
  · rw [h.lt_iff, h'.lt_iff]
    omega
  · rw [not_or] at hnot
    exact (h'.trail hnot.2).trans (h.trail hnot.1)

theorem Changes.scoped {scope : Scope} (h : Changes p (w.enter scope) w') :
    Changes p w (w'.leave scope) := ⟨h.le, h.lt_iff, h.trail⟩

/-- What happens after the last question does not show, if it reports nothing. -/
theorem Changes.then (h : Changes p w w') (happlied : w''.report.applied = w'.report.applied)
    (htrail : ¬ p → w''.trail = w'.trail) : Changes p w w'' := by
  refine ⟨?_, ?_, fun hnot => (htrail hnot).trans (h.trail hnot)⟩
  · rw [happlied]
    exact h.le
  · rw [happlied]
    exact h.lt_iff

end

variable (s : Setting) (handle : Handler σ)

theorem spliced_ne_none {span : Span} {edits : List Edit} :
    spliced s span edits ≠ none ↔ edits ≠ [] := by
  cases edits <;> simp [spliced]

theorem length_values (w : Walk σ) (vs : List Value) :
    (w.values s handle vs).1.length = vs.length := by
  induction vs generalizing w with
  | nil => rfl
  | cons v vs ih => simp [values, ih]

/-- One message: its key, if it gets one, is counted. -/
theorem finish_changes (w : Walk σ) (kind : SiteKind) (span : Span) (bound : Bound) :
    Changes (∃ x, (w.finish s handle kind span bound).1 = .ok x) w
      (w.finish s handle kind span bound).2 := by
  unfold finish ask
  by_cases hs : 0 < w.place.shadowed
  · simp only [hs, if_true]
    exact .quiet (by simp) rfl rfl
  · simp only [hs, if_false]
    cases handle (w.siteAt s kind span bound.text bound.names.names) w.handler with
    | mk key h =>
      cases key with
      | none => exact .quiet (by simp) rfl rfl
      | some key => exact ⟨Nat.le_succ _, by simp [addKey], fun hnot => absurd ⟨_, rfl⟩ hnot⟩

/-- A message with its slots: it gets a key, or the edits of the slots that have changed. -/
theorem message_changes {w : Walk σ} {parts : List Part} {slots : List Value}
    (hpaired : Filling.Paired ⟨parts, slots⟩)
    (hslots : Changes (∃ x ∈ (w.values s handle slots).1, x ≠ none) w (w.values s handle slots).2)
    (kind : SiteKind) (span : Span) {bound : Bound}
    (hbound : Bound.fill s.source {} parts (w.values s handle slots).1 = bound) :
    Changes (∀ edits, ((w.values s handle slots).2.finish s handle kind span bound).1 =
        .error edits → edits ≠ []) w
      ((w.values s handle slots).2.finish s handle kind span bound).2 := by
  have hedits : bound.edits ≠ [] ↔ ∃ x ∈ (w.values s handle slots).1, x ≠ none := by
    have hlength : (w.values s handle slots).1.length = (slotSpans parts).length :=
      (length_values s handle w slots).trans hpaired
    simpa [hbound] using Bound.fill_edits_ne_nil s.source parts {} hlength
  refine (hslots.trans (finish_changes s handle _ kind span bound)).congr ?_
  cases hfinish : ((w.values s handle slots).2.finish s handle kind span bound).1 with
  | ok x => simp
  | error edits =>
    obtain rfl := finish_edits s handle hfinish
    simpa using hedits.symm

theorem value_place_scoped (w : Walk σ) (scope : Scope) (v : Value) :
    (((w.enter scope).value s handle v).2.leave scope).place = w.place := by
  rw [leave, (value_keeps s handle (w.enter scope) v).place]
  exact Place.leave_enter w.place scope

/-- Edits are added to the innermost frame exactly if keys are given out. -/
def Surfaces (w w' : Walk σ) : Prop :=
  ∃ edits, w'.place = w.place.addEdits edits ∧ Changes (edits ≠ []) w w'

section

variable {w w' w'' : Walk σ}

theorem Surfaces.none (hplace : w'.place = w.place)
    (happlied : w'.report.applied = w.report.applied) (htrail : w'.trail = w.trail) :
    Surfaces w w' :=
  ⟨[], by simp [hplace], .quiet (by simp) happlied htrail⟩

theorem Surfaces.trans (h : Surfaces w w') (h' : Surfaces w' w'') : Surfaces w w'' := by
  obtain ⟨edits, hplace, hchanges⟩ := h
  obtain ⟨edits', hplace', hchanges'⟩ := h'
  refine ⟨edits ++ edits', ?_, (hchanges.trans hchanges').congr ?_⟩
  · rw [hplace', hplace, Place.addEdits_addEdits]
  · simp [List.append_eq_nil_iff, or_iff_not_imp_left]

/-- A replacement takes its place as one edit. -/
theorem Surfaces.extraction {x : Option Extraction} (hplace : w'.place = w.place)
    (h : Changes (x ≠ Option.none) w w') (span : Span) : Surfaces w (w'.addExtraction span x) := by
  refine ⟨(x.map fun x => ⟨span.lo, span.hi, x.replacement, x.key⟩).toList, ?_, ?_⟩
  · rw [addExtraction, addEdits, hplace]
  · refine (h.congr ?_).then rfl fun _ => rfl
    cases x <;> simp

theorem Surfaces.accessor {x : Option Extraction} (hplace : w'.place = w.place)
    (h : Changes (x ≠ Option.none) w w') (key value : Span) (isArray : Bool) :
    Surfaces w (w'.addAccessor s key value isArray x) := by
  cases x with
  | none => exact ⟨[], by simpa [addAccessor] using hplace, h.congr (by simp)⟩
  | some x =>
    refine .extraction (by exact hplace) (x := some (Walk.accessor s key x)) ?_ _
    exact (h.congr (by simp)).then rfl (by simp)

theorem Surfaces.scoped {scope : Scope} (h : Surfaces (w.enter scope) w') :
    Surfaces w (w'.leave scope) := by
  obtain ⟨edits, hplace, hchanges⟩ := h
  refine ⟨edits, ?_, hchanges.scoped⟩
  rw [leave, hplace]
  exact Place.leave_addEdits_enter w.place scope edits

/-- A binding is reported only if a key was given out inside it. -/
theorem Surfaces.bound (h : Surfaces w w') (name : String) (pos : Nat) :
    Surfaces w (w'.addBinding s w name pos) := by
  obtain ⟨edits, hplace, hchanges⟩ := h
  refine ⟨edits, (addBinding_place s w' w name pos).trans hplace, hchanges.then ?_ fun hnot => ?_⟩
  · unfold addBinding
    split
    · split <;> rfl
    · rfl
  · have hkeys : w'.eagerKeys = w.eagerKeys := congrArg Prod.fst (hchanges.trail hnot)
    simp [addBinding, hkeys]

end

mutual

theorem value_changes (w : Walk σ) : ∀ v : Value, Every Filling.Paired v.fillings →
    Changes ((w.value s handle v).1 ≠ none) w (w.value s handle v).2
  | .notes _, _ => .quiet (by simp [value]) rfl rfl
  | .abort _, _ => .quiet (by simp [value]) rfl rfl
  | .message kind span parts slots, h => by
    simp only [Value.fillings, every_append, every_singleton] at h
    have hmessage := message_changes s handle h.2 (values_changes w slots h.1) kind span rfl
    simp only [value]
    split <;> rename_i heq <;> rw [heq] at hmessage
    · exact hmessage.congr (by simp)
    · exact hmessage.congr (by simp [spliced_ne_none])
  | .rebuild span body, h => by
    obtain ⟨edits, hplace, hchanges⟩ := steps_surfaces w.openFrame body h
    have hclose : (w.openFrame.steps s handle body).place.closeFrame = (edits, w.place) := by
      rw [hplace]
      exact Place.closeFrame_addEdits_openFrame w.place edits
    simp only [value, closeFrame, hclose, spliced_ne_none]
    exact ⟨hchanges.le, hchanges.lt_iff, hchanges.trail⟩
  | .scope scope body, h => by
    simp only [value]
    exact (value_changes (w.enter scope) body h).scoped

theorem values_changes (w : Walk σ) : ∀ vs : List Value, Every Filling.Paired (valuesFillings vs) →
    Changes (∃ x ∈ (w.values s handle vs).1, x ≠ none) w (w.values s handle vs).2
  | [], _ => .quiet (by simp [values]) rfl rfl
  | v :: vs, h => by
    simp only [valuesFillings, every_append] at h
    have hv := value_changes w v h.1
    have hvs := values_changes (w.value s handle v).2 vs h.2
    simp only [values, List.exists_mem_cons_iff]
    exact hv.trans hvs

theorem step_surfaces (w : Walk σ) : ∀ x : Step, Every Filling.Paired x.fillings →
    Surfaces w (w.step s handle x)
  | .notes _, _ => .none rfl rfl rfl
  | .replace span v, h => by
    simp only [step]
    exact .extraction (value_keeps s handle w v).place (value_changes w v h) span
  | .braced kind span leading trailing parts slots, h => by
    simp only [Step.fillings, every_append, every_singleton] at h
    have hmessage := message_changes s handle h.2 (values_changes w slots h.1) kind span rfl
    have hplace := (finish_place s handle (w.values s handle slots).2 kind span
      (Bound.fill s.source {} parts (w.values s handle slots).1)).trans
        (values_keeps s handle w slots).place
    simp only [step]
    split <;> rename_i heq <;> rw [heq] at hmessage hplace
    · exact .extraction hplace (hmessage.congr (by simp)) span
    · rename_i edits after
      refine ⟨edits, congrArg (Place.addEdits · edits) hplace, ?_⟩
      exact (hmessage.congr (by simp)).then rfl fun _ => rfl
  | .property key span isArray v, h => by
    simp only [step]
    split
    · exact .extraction (value_keeps s handle w v).place (value_changes w v h) span
    · have hv := value_changes (w.enter { isRuntime := true }) v h
      exact .accessor s (value_place_scoped s handle w _ v) hv.scoped key span isArray
  | .scope scope body, h => by
    simp only [step]
    exact (steps_surfaces (w.enter scope) body h).scoped
  | .binding name pos body, h => by
    simp only [step]
    exact (steps_surfaces w body h).bound s name pos
  | .staticField key pos body, h => by
    simp only [step]
    exact (steps_surfaces w body h).bound s _ pos

theorem steps_surfaces (w : Walk σ) : ∀ xs : List Step, Every Filling.Paired (stepsFillings xs) →
    Surfaces w (w.steps s handle xs)
  | [], _ => .none rfl rfl rfl
  | x :: xs, h => by
    simp only [stepsFillings, every_append] at h
    simp only [steps]
    exact (step_surfaces w x h.1).trans (steps_surfaces (w.step s handle x) xs h.2)

end

end Walk

/-! ### Whole modules -/

namespace Setting

variable (s : Setting) (handle : Handler σ) (start : σ)

/-- A module is edited if keys are given out. If none is, there is nothing to report about keys. -/
theorem walk_changes : ((s.walk handle start).edits = [] ↔
      (s.walk handle start).report.applied = 0) ∧
    ((s.walk handle start).report.applied = 0 →
      (s.walk handle start).report.lazyAccessors = 0 ∧
      (s.walk handle start).report.deferred = [] ∧
      (s.walk handle start).report.containerAccessors = []) := by
  obtain ⟨edits, hplace, hchanges⟩ := Walk.steps_surfaces s handle
    (Walk.openFrame { handler := start }) s.outline (every_outline s.paired_forms)
  have hiff : edits = [] ↔ (s.walk handle start).report.applied = 0 := by
    have hlt : edits ≠ [] ↔ 0 < (s.walk handle start).report.applied := hchanges.lt_iff
    rw [← not_iff_not, ← ne_eq, hlt, Nat.pos_iff_ne_zero]
  rw [s.walk_edits handle start hplace]
  refine ⟨hiff, fun hnone => ?_⟩
  have htrail := hchanges.trail (by simpa using hiff.mpr hnone)
  simp only [Walk.trail, Prod.mk.injEq] at htrail
  exact htrail.2

end Setting

end Phrasebook
