import Mathlib.Data.List.Flatten
import Phrasebook.Proofs.Coverage
import Phrasebook.Proofs.Layout
import Phrasebook.Proofs.Wordings

/-!
The outline of a tree fits the text. When the parts of every node lie apart, so do the ranges that
the outline edits, each inside what is rebuilt from it, and no two of its wordings have the same id.
-/
namespace Phrasebook

open Script Outline

/-! ### Outlines that fit into places -/

namespace Outline

variable {places places' : List Span} {span : Span}

/-- Ids of which no two are the same, each with its range in one of `places`. -/
structure IdsIn (places : List Span) (ids : List SiteId) : Prop where
  nodup : ids.Nodup
  inside : ∀ id ∈ ids, id.span.lo < id.span.hi ∧ ∃ p ∈ places, id.span.Inside p

theorem IdsIn.nil (places : List Span) : IdsIn places [] := ⟨.nil, by simp⟩

theorem IdsIn.append {ids ids' : List SiteId} (h : IdsIn places ids) (h' : IdsIn places' ids')
    (hcross : ∀ p ∈ places, ∀ q ∈ places', p.Apart q) :
    IdsIn (places ++ places') (ids ++ ids') := by
  refine ⟨List.nodup_append.mpr ⟨h.nodup, h'.nodup, ?_⟩, ?_⟩
  · rintro id hid _ hid' rfl
    obtain ⟨hne, p, hp, hin⟩ := h.inside id hid
    obtain ⟨-, q, hq, hin'⟩ := h'.inside id hid'
    -- A range that is not empty is not apart from itself.
    have := (hcross p hp q hq).inside hin hin'
    simp only [Span.Apart] at this
    omega
  · intro id hid
    rcases List.mem_append.mp hid with hid | hid
    · obtain ⟨hne, p, hp, hin⟩ := h.inside id hid
      exact ⟨hne, p, List.mem_append_left _ hp, hin⟩
    · obtain ⟨hne, p, hp, hin⟩ := h'.inside id hid
      exact ⟨hne, p, List.mem_append_right _ hp, hin⟩

theorem IdsIn.widen {ids : List SiteId} (h : IdsIn places ids)
    (hwider : ∀ p ∈ places, ∃ q ∈ places', p.Inside q) : IdsIn places' ids := by
  refine ⟨h.nodup, ?_⟩
  intro id hid
  obtain ⟨hne, p, hp, hin⟩ := h.inside id hid
  obtain ⟨q, hq, hin'⟩ := hwider p hp
  exact ⟨hne, q, hq, hin.trans hin'⟩

/-- A message larger than its slots has an id of its own. -/
theorem IdsIn.concat {ids : List SiteId} (h : IdsIn [span] ids) (hne : span.lo < span.hi)
    (hlarger : ∀ id ∈ ids, id.span ≠ span) (kind : SiteKind) :
    IdsIn [span] (ids ++ [⟨span, kind⟩]) := by
  refine ⟨List.nodup_append.mpr ⟨h.nodup, by simp, ?_⟩, ?_⟩
  · rintro id hid _ hid' rfl
    rw [List.mem_singleton.mp hid'] at hid
    exact hlarger _ hid rfl
  · intro id hid
    rcases List.mem_append.mp hid with hid | hid
    · exact h.inside id hid
    · rw [List.mem_singleton.mp hid]
      exact ⟨hne, span, by simp, .refl span⟩

/-- The wordings of an expression have their places, and what is rebuilt inside it is tidy. -/
structure Value.FitsIn (places : List Span) (v : Value) : Prop where
  tidy : v.Tidy
  ids : IdsIn places (v.wordings.map Wording.id)

structure ValuesFitIn (places : List Span) (vs : List Value) : Prop where
  tidy : ValuesTidy vs
  ids : IdsIn places ((valuesWordings vs).map Wording.id)

structure StepsFitIn (places : List Span) (xs : List Step) : Prop where
  tidy : StepsTidy xs
  extents : Span.LaidIn places (stepsExtents xs)
  ids : IdsIn places ((stepsWordings xs).map Wording.id)

/-! #### Expressions -/

theorem Value.FitsIn.nothing : Value.nothing.FitsIn places := ⟨trivial, .nil _⟩

theorem Value.FitsIn.notes (ns : List Note) : (Value.notes ns).FitsIn places := ⟨trivial, .nil _⟩

theorem Value.FitsIn.abort (pos : Nat) : (Value.abort pos).FitsIn places := ⟨trivial, .nil _⟩

theorem Value.FitsIn.widen {v : Value} (h : v.FitsIn places)
    (hwider : ∀ p ∈ places, ∃ q ∈ places', p.Inside q) : v.FitsIn places' :=
  ⟨h.tidy, h.ids.widen hwider⟩

theorem Value.FitsIn.message {kind : SiteKind} {parts : List Part} {slots : List Value}
    (hne : span.lo < span.hi) (hparts : Span.LaidIn [span] (slotSpans parts))
    (hslots : ValuesFitIn [span] slots)
    (hlarger : ∀ m ∈ valuesWordings slots, m.span ≠ span) :
    (Value.message kind span parts slots).FitsIn [span] := by
  refine ⟨⟨hparts, hslots.tidy⟩, ?_⟩
  simp only [Value.wordings, List.map_append, List.map_cons, List.map_nil]
  exact hslots.ids.concat hne (by simpa [Wording.id] using hlarger) kind

theorem Value.FitsIn.rebuild {body : List Step} (h : StepsFitIn [span] body) :
    (Value.rebuild span body).FitsIn [span] := ⟨⟨h.extents, h.tidy⟩, h.ids⟩

theorem Value.FitsIn.scope {v : Value} (h : v.FitsIn places) (scope : Scope) :
    (Value.scope scope v).FitsIn places := ⟨h.tidy, h.ids⟩

theorem ValuesFitIn.nil (places : List Span) : ValuesFitIn places [] := ⟨trivial, .nil _⟩

theorem ValuesFitIn.single {v : Value} (h : v.FitsIn places) : ValuesFitIn places [v] := by
  refine ⟨⟨h.tidy, trivial⟩, ?_⟩
  simp only [valuesWordings, List.append_nil]
  exact h.ids

theorem ValuesFitIn.widen {vs : List Value} (h : ValuesFitIn places vs)
    (hwider : ∀ p ∈ places, ∃ q ∈ places', p.Inside q) : ValuesFitIn places' vs :=
  ⟨h.tidy, h.ids.widen hwider⟩

theorem ValuesFitIn.append {vs vs' : List Value} (h : ValuesFitIn places vs)
    (h' : ValuesFitIn places' vs') (hcross : ∀ p ∈ places, ∀ q ∈ places', p.Apart q) :
    ValuesFitIn (places ++ places') (vs ++ vs') := by
  constructor
  · rw [valuesTidy_iff]
    intro v hv
    rcases List.mem_append.mp hv with hv | hv
    · exact valuesTidy_iff.mp h.tidy v hv
    · exact valuesTidy_iff.mp h'.tidy v hv
  · rw [valuesWordings_eq, List.flatMap_append, List.map_append, ← valuesWordings_eq,
      ← valuesWordings_eq]
    exact h.ids.append h'.ids hcross

theorem ValuesFitIn.flatMap {α : Type} {as : List α} {f : α → List Span} {g : α → List Value}
    (h : ∀ a ∈ as, ValuesFitIn (f a) (g a)) (hapart : (as.flatMap f).Pairwise Span.Apart) :
    ValuesFitIn (as.flatMap f) (as.flatMap g) :=
  Span.flatMap_of_append (.nil _) .append h hapart

/-! #### Steps -/

namespace StepsFitIn

theorem nil (places : List Span) : StepsFitIn places [] := ⟨trivial, .nil _, .nil _⟩

theorem notes (ns : List Note) : StepsFitIn places [.notes ns] :=
  ⟨⟨trivial, trivial⟩, .nil _, .nil _⟩

theorem widen {xs : List Step} (h : StepsFitIn places xs)
    (hwider : ∀ p ∈ places, ∃ q ∈ places', p.Inside q) : StepsFitIn places' xs :=
  ⟨h.tidy, h.extents.widen hwider, h.ids.widen hwider⟩

theorem append {xs ys : List Step} (h : StepsFitIn places xs) (h' : StepsFitIn places' ys)
    (hcross : ∀ p ∈ places, ∀ q ∈ places', p.Apart q) :
    StepsFitIn (places ++ places') (xs ++ ys) := by
  refine ⟨?_, ?_, ?_⟩
  · rw [stepsTidy_iff]
    intro x hx
    rcases List.mem_append.mp hx with hx | hx
    · exact stepsTidy_iff.mp h.tidy x hx
    · exact stepsTidy_iff.mp h'.tidy x hx
  · rw [stepsExtents_eq, List.flatMap_append, ← stepsExtents_eq, ← stepsExtents_eq]
    exact h.extents.append h'.extents hcross
  · rw [stepsWordings_eq, List.flatMap_append, List.map_append, ← stepsWordings_eq,
      ← stepsWordings_eq]
    exact h.ids.append h'.ids hcross

theorem flatMap {α : Type} {as : List α} {f : α → List Span} {g : α → List Step}
    (h : ∀ a ∈ as, StepsFitIn (f a) (g a)) (hapart : (as.flatMap f).Pairwise Span.Apart) :
    StepsFitIn (as.flatMap f) (as.flatMap g) :=
  Span.flatMap_of_append (.nil _) .append h hapart

/-- Two stretches of a range, the second from where the first one ends. -/
theorem join {xs ys : List Step} {lo cut : Nat} (hxs : StepsFitIn [⟨lo, cut⟩] xs)
    (hys : StepsFitIn [⟨cut, span.hi⟩] ys) (hlo : span.lo ≤ lo) (hcut : lo ≤ cut)
    (hhi : cut ≤ span.hi) : StepsFitIn [span] (xs ++ ys) := by
  refine (hxs.append hys (by simp [Span.Apart])).widen ?_
  intro p hp
  refine ⟨span, List.mem_singleton_self _, ?_⟩
  rcases List.mem_append.mp hp with hp | hp
  · rw [List.mem_singleton.mp hp]
    exact ⟨hlo, hhi⟩
  · rw [List.mem_singleton.mp hp]
    exact ⟨Nat.le_trans hlo hcut, Nat.le_refl _⟩

/-- A step that has the ranges and wordings of its body. -/
theorem around {body : List Step} {x : Step} (h : StepsFitIn places body)
    (htidy : x.Tidy ↔ StepsTidy body) (hextents : x.extents = stepsExtents body)
    (hwordings : x.wordings = stepsWordings body) : StepsFitIn places [x] := by
  refine ⟨⟨htidy.mpr h.tidy, trivial⟩, ?_, ?_⟩
  · simp only [stepsExtents, hextents, List.append_nil]
    exact h.extents
  · simp only [stepsWordings, hwordings, List.append_nil]
    exact h.ids

theorem inScope {body : List Step} (h : StepsFitIn places body) (scope : Scope) :
    StepsFitIn places [.scope scope body] := h.around Iff.rfl rfl rfl

theorem bound {body : List Step} (h : StepsFitIn places body) (name : String) (pos : Nat) :
    StepsFitIn places [.binding name pos body] := h.around Iff.rfl rfl rfl

theorem inField {body : List Step} (h : StepsFitIn places body) (key : String) (pos : Nat) :
    StepsFitIn places [.staticField key pos body] := h.around Iff.rfl rfl rfl

theorem replace {v : Value} (h : v.FitsIn [span]) (hne : span.lo < span.hi) :
    StepsFitIn [span] [.replace span v] := by
  refine ⟨⟨h.tidy, trivial⟩, .single hne (.refl span), ?_⟩
  simp only [stepsWordings, Step.wordings, List.append_nil]
  exact h.ids

theorem braced {kind : SiteKind} {leading trailing : String} {parts : List Part}
    {slots : List Value} (hne : span.lo < span.hi)
    (hparts : Span.LaidIn [span] (slotSpans parts)) (hslots : ValuesFitIn [span] slots)
    (hlarger : ∀ m ∈ valuesWordings slots, m.span ≠ span) :
    StepsFitIn [span] [.braced kind span leading trailing parts slots] := by
  have hmessage : (Value.message kind span parts slots).FitsIn [span] :=
    .message hne hparts hslots hlarger
  refine ⟨⟨hmessage.tidy, trivial⟩, .single hne (.refl span), ?_⟩
  simp only [stepsWordings, Step.wordings, List.append_nil]
  exact hmessage.ids

theorem property {key value : Span} {isArray : Bool} {v : Value} (h : v.FitsIn [value])
    (hlo : key.lo ≤ value.lo) (hne : value.lo < value.hi) :
    StepsFitIn [⟨key.lo, value.hi⟩] [.property key value isArray v] := by
  have hinside : value.Inside ⟨key.lo, value.hi⟩ := ⟨hlo, Nat.le_refl _⟩
  refine ⟨⟨⟨⟨hlo, hne⟩, h.tidy⟩, trivial⟩, .single (Nat.lt_of_le_of_lt hlo hne) (.refl _), ?_⟩
  simp only [stepsWordings, Step.wordings, List.append_nil]
  exact h.ids.widen (by simpa using hinside)

end StepsFitIn

end Outline

/-! ### Children in their places -/

/-- A child fits in every role it can have. As a value it has to lie around its parts. -/
structure Child.Placed (c : Child) : Prop where
  expr : c.node.Snug → ∀ depth, (c.views.expr depth).FitsIn [c.node.span]
  replaced : c.node.Snug → ∀ depth, StepsFitIn c.node.places [c.replaced depth]
  inner : StepsFitIn c.node.places (c.views.inner ())
  slots : c.node.Snug → ∀ depth, ValuesFitIn [c.node.span] (c.views.slots depth)
  member : ∀ depth, StepsFitIn c.node.places (c.views.member depth)

theorem Child.Placed.visit {c : Child} (h : c.Placed) (hsnug : c.kind.isExpr = true → c.node.Snug) :
    StepsFitIn c.node.places c.visit := by
  unfold Child.visit
  split
  · rename_i hexpr
    exact h.replaced (hsnug hexpr) 0
  · exact h.inner

namespace Setting

variable {s : Setting} {kind : Kind} {span : Span} {cs : List Child} {c : Child}

/-- The node that has these children. -/
abbrev parent (kind : Kind) (span : Span) (cs : List Child) : Node := .mk kind span (cs.map (·.1))

/-- Everything under the node is spaced, its runs are its own, and its children fit. -/
structure LaidAt (s : Setting) (kind : Kind) (span : Span) (cs : List Child) : Prop where
  below : ∀ m ∈ (parent kind span cs).subnodes, m.Spaced
  nonempty : ∀ p ∈ (parent kind span cs).places, p.lo < p.hi
  runs : ∀ r ∈ s.plan.runsFor span, Markup.isMarkup (parent kind span cs) = true →
    r ∈ Markup.planChildren s.source (Markup.rendered (parent kind span cs))
  placed : ∀ c ∈ cs, c.Placed

namespace LaidAt

theorem spaced (h : s.LaidAt kind span cs) : (parent kind span cs).Spaced :=
  h.below _ (Node.mem_subnodes_self _)

theorem mem_children (hc : c ∈ cs) : c.node ∈ (parent kind span cs).children :=
  List.mem_map_of_mem hc

theorem placesOfAll_eq (cs : List Child) :
    Node.placesOfAll (cs.map (·.1)) = cs.flatMap (·.node.places) := by
  rw [Node.placesOfAll_eq, List.flatMap_map]
  rfl

theorem apart (h : s.LaidAt kind span cs) :
    (cs.flatMap (·.node.places)).Pairwise Span.Apart := by
  rw [← placesOfAll_eq]
  exact h.spaced.apart.apart

theorem nonempty_of_mem (h : s.LaidAt kind span cs) (hc : c ∈ cs) :
    ∀ p ∈ c.node.places, p.lo < p.hi := by
  intro p hp
  exact (h.spaced.apart.inside p (Node.places_subset (mem_children hc) hp)).1

theorem exists_place {parts : List Child} (hsub : parts ⊆ cs) : ∀ p ∈ parts.flatMap (·.node.places),
    ∃ q ∈ (parent kind span cs).places, p.Inside q := by
  intro p hp
  obtain ⟨c, hc, hp⟩ := List.mem_flatMap.mp hp
  exact Node.exists_place _ (Node.places_subset (mem_children (hsub hc)) hp)

/-- Parts of a node that fit one by one fit together. -/
theorem fits (h : s.LaidAt kind span cs) {parts : List Child} (hsub : parts.Sublist cs)
    {f : Child → List Step} (hf : ∀ c ∈ parts, StepsFitIn c.node.places (f c)) :
    StepsFitIn (parent kind span cs).places (parts.flatMap f) := by
  have hapart := h.apart.sublist (hsub.flatMap _)
  exact (StepsFitIn.flatMap hf hapart).widen (exists_place hsub.subset)

/-- The first part and the others, each handled in a way of its own. -/
theorem fits_cons {first : Child} {rest : List Child} (h : s.LaidAt kind span (first :: rest))
    {xs : List Step} {f : Child → List Step} (hfirst : StepsFitIn first.node.places xs)
    (hrest : ∀ c ∈ rest, StepsFitIn c.node.places (f c)) :
    StepsFitIn (parent kind span (first :: rest)).places (xs ++ rest.flatMap f) := by
  have hapart := h.apart
  rw [List.flatMap_cons, List.pairwise_append] at hapart
  obtain ⟨-, hothers, hcross⟩ := hapart
  have hwider : ∀ p ∈ (first :: rest).flatMap (·.node.places),
      ∃ q ∈ (parent kind span (first :: rest)).places, p.Inside q :=
    exists_place (List.Subset.refl _)
  rw [List.flatMap_cons] at hwider
  exact (hfirst.append (.flatMap hrest hothers) hcross).widen hwider

theorem snug_of_isExpr (h : s.LaidAt kind span cs) (hbare : kind ≠ .bare) (hc : c ∈ cs)
    (hexpr : c.kind.isExpr = true) : c.node.Snug :=
  h.spaced.snug_of_isExpr (mem_children hc) hexpr hbare

theorem snug_of_holdsValues (h : s.LaidAt kind span cs) (hkind : kind.holdsValues = true)
    (hc : c ∈ cs) : c.node.Snug :=
  h.spaced.snug_of_holdsValues (mem_children hc) hkind

theorem visit (h : s.LaidAt kind span cs) (hbare : kind ≠ .bare) (hc : c ∈ cs) :
    StepsFitIn c.node.places c.visit :=
  (h.placed c hc).visit (h.snug_of_isExpr hbare hc)

theorem visitAll (h : s.LaidAt kind span cs) (hbare : kind ≠ .bare) :
    StepsFitIn (parent kind span cs).places (visitAll cs) :=
  h.fits (List.Sublist.refl cs) fun _ hc => h.visit hbare hc

theorem unlessLiteral {reason : Reason} {otherwise : List Step}
    (h : StepsFitIn c.node.places otherwise) :
    StepsFitIn c.node.places (unlessLiteral reason c otherwise) := by
  unfold Setting.unlessLiteral
  split
  · exact .notes _
  · exact h

end LaidAt

/-! ### Texts -/

theorem literal_fits (hne : span.lo < span.hi) (value : Option String) :
    (literal span value).FitsIn [span] := by
  unfold literal
  split
  · split
    · exact .message hne (.nil _) (.nil _) (by simp [valuesWordings])
    · exact .nothing
  · exact .nothing

theorem markupText_fits (hne : span.lo < span.hi) (value : String) :
    StepsFitIn [span] (markupText s span value) := by
  simp only [markupText]
  split
  · exact .nil _
  · split
    · exact .notes _
    · exact .braced hne (.nil _) (.nil _) (by simp [valuesWordings])

theorem attributeText_fits (hne : span.lo < span.hi) (value : String) :
    StepsFitIn [span] (attributeText span value) := by
  unfold attributeText
  split
  · exact .braced hne (.nil _) (.nil _) (by simp [valuesWordings])
  · exact .nil _

/-! ### Markup -/

/-- Children one after another in the text. -/
structure InLine (all : List Child) : Prop where
  placed : ∀ c ∈ all, c.Placed
  spaced : ∀ c ∈ all, c.node.Spaced
  snug : ∀ c ∈ all, c.node.Snug
  nonempty : ∀ c ∈ all, c.node.span.lo < c.node.span.hi
  ordered : all.Pairwise fun a b => a.node.span.hi ≤ b.node.span.lo

/-- The slot that a child brings to a run. -/
def slotOf (c : Child) : Option Value :=
  match c with
  | (.mk .container _ [_], views) => some (views.expr 1)
  | _ => none

/-- The range of that slot. -/
def slotRange (n : Node) : Option Span :=
  match n with
  | .mk .container _ [e] => some e.span
  | _ => none

theorem runSlots_eq (r : Markup.Run) (all : List Child) :
    runSlots r all = ((Markup.exprIndices r.parts).filterMap (all[·]?)).filterMap slotOf := by
  rw [runSlots, Markup.exprIndices, List.filterMap_filterMap, List.filterMap_filterMap]
  refine List.filterMap_congr fun part _ => ?_
  cases part with
  | text text => rfl
  | expr i =>
    cases hget : all[i]? with
    | none => simp [hget]
    | some c =>
      simp only [Option.bind_some, hget, slotOf]
      split
      · rename_i heq
        cases heq
        rfl
      · rename_i hother
        split
        · exact absurd rfl (hother _ _ _)
        · rfl

theorem slotSpans_message (r : Markup.Run) (all : List Child) :
    slotSpans (r.message (all.map (·.1))) =
      ((Markup.exprIndices r.parts).filterMap (all[·]?)).filterMap (slotRange ·.node) := by
  rw [slotSpans, Markup.Run.message, Markup.exprIndices, List.filterMap_filterMap,
    List.filterMap_filterMap, List.filterMap_filterMap]
  refine List.filterMap_congr fun part _ => ?_
  cases part with
  | text text => rfl
  | expr i =>
    cases hget : all[i]? with
    | none => simp [hget]
    | some c =>
      obtain ⟨n, views⟩ := c
      simp only [List.getElem?_map, hget, Option.map_some, Option.bind_some, slotRange, Child.node]
      split
      · rename_i heq
        cases heq
        rfl
      · rename_i hother
        split
        · exact absurd rfl (hother _ _)
        · rfl

theorem slotOf_fits {all : List Child} (hall : InLine all) (hc : c ∈ all) :
    ValuesFitIn [c.node.span] (slotOf c).toList := by
  unfold slotOf
  split
  · exact .single ((hall.placed _ hc).expr (hall.snug _ hc) 1)
  · exact .nil _

theorem slotRange_laid {all : List Child} (hall : InLine all) (hc : c ∈ all) :
    Span.LaidIn [c.node.span] (slotRange c.node).toList := by
  have hsnug := hall.snug c hc
  have hspaced := hall.spaced c hc
  unfold slotRange
  split
  · rename_i span e heq
    rw [heq] at hsnug hspaced ⊢
    have hlaid := hspaced.laidIn_values rfl
    rwa [hsnug.places_eq] at hlaid
  · exact .nil _

theorem InLine.before {all : List Child} (hall : InLine all) {i j : Nat} {a b : Child}
    (hlt : i < j) (ha : all[i]? = some a) (hb : all[j]? = some b) :
    a.node.span.hi ≤ b.node.span.lo := by
  obtain ⟨hi, rfl⟩ := List.getElem?_eq_some_iff.mp ha
  obtain ⟨hj, rfl⟩ := List.getElem?_eq_some_iff.mp hb
  exact List.pairwise_iff_getElem.mp hall.ordered i j hi hj hlt

/-- A run of at least two children lies around each of them and is larger. -/
theorem InLine.inside_run {all : List Child} (hall : InLine all) {r : Markup.Run}
    (hr : r.Takes all.length) {first last : Child} (hfirst : all[r.start]? = some first)
    (hlast : all[r.stop - 1]? = some last) (hc : c ∈ r.members all) :
    c.node.span.Inside ⟨first.node.span.lo, last.node.span.hi⟩ ∧
      ¬Span.Inside ⟨first.node.span.lo, last.node.span.hi⟩ c.node.span := by
  have hmany := hr.many
  rw [Markup.Run.members, ← Markup.filterMap_range'_getElem?] at hc
  obtain ⟨i, hi, hget⟩ := List.mem_filterMap.mp hc
  rw [List.mem_range'_1] at hi
  have hne := hall.nonempty c (List.mem_of_getElem? hget)
  have hnefirst := hall.nonempty first (List.mem_of_getElem? hfirst)
  have hnelast := hall.nonempty last (List.mem_of_getElem? hlast)
  simp only [Span.Inside]
  rcases Nat.eq_or_lt_of_le hi.1 with rfl | hlt
  · -- The first child ends before the last one starts.
    obtain rfl : first = c := Option.some.inj (hfirst.symm.trans hget)
    have hend := hall.before (by omega) hfirst hlast
    omega
  · have hstart := hall.before hlt hfirst hget
    have hend : c.node.span.hi ≤ last.node.span.hi := by
      rcases Nat.eq_or_lt_of_le (show i ≤ r.stop - 1 by omega) with rfl | hlt'
      · obtain rfl : last = c := Option.some.inj (hlast.symm.trans hget)
        exact Nat.le_refl _
      · have := hall.before hlt' hget hlast
        omega
    omega

theorem run_fits {all : List Child} (hall : InLine all) {r : Markup.Run}
    (hr : r.Takes all.length) {first last : Child} (hfirst : all[r.start]? = some first)
    (hlast : all[r.stop - 1]? = some last) :
    StepsFitIn [⟨first.node.span.lo, last.node.span.hi⟩] (run r all) := by
  have hmany := hr.many
  have hspan : r.span (all.map (·.1)) = some ⟨first.node.span.lo, last.node.span.hi⟩ :=
    Markup.Run.span_eq (by omega) (by simp [hfirst, Child.node]) (by simp [hlast, Child.node])
  have hbounds := hall.before (show r.start < r.stop - 1 by omega) hfirst hlast
  have hnefirst := hall.nonempty first (List.mem_of_getElem? hfirst)
  have hnelast := hall.nonempty last (List.mem_of_getElem? hlast)
  -- The slots come from children of the run, in their order.
  let chosen := (Markup.exprIndices r.parts).filterMap (all[·]?)
  have hsub : chosen.Sublist (r.members all) := hr.members_sublist
  have hall' : chosen.Sublist all := by
    refine hsub.trans ?_
    exact (List.take_sublist _ _).trans (List.drop_sublist _ _)
  have hapart : (chosen.flatMap fun c => [c.node.span]).Pairwise Span.Apart := by
    rw [← List.map_eq_flatMap, List.pairwise_map]
    exact (hall.ordered.sublist hall').imp fun h => .inl h
  have hwider : ∀ p ∈ chosen.flatMap fun c => [c.node.span],
      ∃ q ∈ [(⟨first.node.span.lo, last.node.span.hi⟩ : Span)], p.Inside q := by
    intro p hp
    obtain ⟨c, hc, hp⟩ := List.mem_flatMap.mp hp
    rw [List.mem_singleton.mp hp]
    exact ⟨_, List.mem_singleton_self _, (hall.inside_run hr hfirst hlast (hsub.subset hc)).1⟩
  have hslots : ValuesFitIn (chosen.flatMap fun c => [c.node.span]) (runSlots r all) := by
    rw [runSlots_eq, List.filterMap_eq_flatMap_toList]
    exact .flatMap (fun c hc => slotOf_fits hall (hall'.subset hc)) hapart
  have hparts : Span.LaidIn (chosen.flatMap fun c => [c.node.span])
      (slotSpans (r.message (all.map (·.1)))) := by
    rw [slotSpans_message, List.filterMap_eq_flatMap_toList]
    exact .flatMap (fun c hc => slotRange_laid hall (hall'.subset hc)) hapart
  simp only [run, hspan]
  refine .braced (by simp only; omega) (hparts.widen hwider) (hslots.widen hwider) ?_
  intro m hm heq
  obtain ⟨-, p, hp, hin⟩ := hslots.ids.inside m.id (List.mem_map_of_mem hm)
  obtain ⟨c, hc, hp⟩ := List.mem_flatMap.mp hp
  rw [List.mem_singleton.mp hp] at hin
  simp only [Wording.id, heq] at hin
  exact (hall.inside_run hr hfirst hlast (hsub.subset hc)).2 hin

/-- Children from a position on stay in any range that lies around those not yet outlined. -/
theorem childrenFrom_fits {all : List Child} (hall : InLine all) {runs : List Markup.Run}
    (hruns : ∀ r ∈ runs, r.Takes all.length) (rest : List Child) {index resume : Nat} {range : Span}
    (hdrop : all.drop index = rest)
    (hrange : ∀ i c, index ≤ i → resume ≤ i → all[i]? = some c → c.node.span.Inside range) :
    StepsFitIn [range] (childrenFrom runs all index resume rest) := by
  induction rest generalizing index resume range with
  | nil => exact .nil _
  | cons c rest ih =>
    obtain ⟨hget, hnext⟩ := next_of_drop hdrop
    simp only [childrenFrom]
    split
    · exact ih hnext fun i d hi => hrange i d (by omega)
    · rename_i hresume
      have hin := hrange index c (Nat.le_refl _) (by omega) hget
      have hmem := List.mem_of_getElem? hget
      have hne := hall.nonempty c hmem
      split
      · rename_i r hfind
        have hr := hruns r (List.mem_of_find?_eq_some hfind)
        obtain rfl : r.start = index := by simpa using List.find?_some hfind
        have hmany := hr.many
        have hwithin := hr.within
        have hlast : all[r.stop - 1]? = some _ := List.getElem?_eq_getElem (by omega)
        have hlastin := hrange (r.stop - 1) _ (by omega) (by omega) hlast
        have hbefore := hall.before (show r.start < r.stop - 1 by omega) hget hlast
        have hnelast := hall.nonempty _ (List.mem_of_getElem? hlast)
        refine (run_fits hall hr hget hlast).join (ih hnext ?_) hin.1 (by omega) hlastin.2
        intro i d hi hi' hd
        exact ⟨hall.before (by omega) hlast hd, (hrange i d (by omega) (by omega) hd).2⟩
      · have hinner := (hall.placed c hmem).inner
        rw [(hall.snug c hmem).places_eq] at hinner
        refine hinner.join (ih hnext ?_) hin.1 (Nat.le_of_lt hne) hin.2
        intro i d hi hi' hd
        exact ⟨hall.before hi hget hd, (hrange i d (by omega) hi' hd).2⟩

namespace LaidAt

theorem snug (h : s.LaidAt kind span cs) (hkind : kind.fillsSpan = true) :
    (parent kind span cs).Snug := h.spaced.filled hkind

theorem span_nonempty (h : s.LaidAt kind span cs) (hsnug : (parent kind span cs).Snug) :
    span.lo < span.hi :=
  h.nonempty span (by rw [hsnug.places_eq]; exact List.mem_singleton_self _)

theorem child_nonempty (h : s.LaidAt kind span cs) (hc : c ∈ cs) (hsnug : c.node.Snug) :
    c.node.span.lo < c.node.span.hi :=
  h.nonempty_of_mem hc _ (by simp [hsnug.places_eq])

theorem child_spaced (h : s.LaidAt kind span cs) (hc : c ∈ cs) : c.node.Spaced :=
  h.below _ (Node.subnodes_subset_of_mem_children (mem_children hc) (Node.mem_subnodes_self _))

theorem inLine (h : s.LaidAt kind span cs) (hvalues : kind.holdsValues = true)
    (hordered : kind.isOrdered = true) : InLine cs where
  placed := h.placed
  spaced := fun _ => h.child_spaced
  snug := fun _ => h.snug_of_holdsValues hvalues
  nonempty := fun _ hc => h.child_nonempty hc (h.snug_of_holdsValues hvalues hc)
  ordered := List.pairwise_map.mp (h.spaced.ordered hordered)

theorem inside (h : s.LaidAt kind span cs) (hsnug : (parent kind span cs).Snug)
    (hvalues : kind.holdsValues = true) (hc : c ∈ cs) : c.node.span.Inside span :=
  hsnug.inside (mem_children hc) (h.snug_of_holdsValues hvalues hc)

theorem fragment_fits (h : s.LaidAt .fragment span cs) :
    StepsFitIn (parent .fragment span cs).places (markupChildren s span cs) := by
  have hsnug := h.snug rfl
  rw [hsnug.places_eq]
  refine childrenFrom_fits (h.inLine rfl rfl) ?_ cs rfl ?_
  · intro r hr
    have htakes : r.Takes (cs.map (·.1)).length := Markup.planChildren_takes (h.runs r hr rfl)
    rwa [List.length_map] at htakes
  · intro i c _ _ hc
    exact h.inside hsnug rfl (List.mem_of_getElem? hc)

theorem element_fits {opening : Child} {kids : List Child}
    (h : s.LaidAt .element span (opening :: kids)) :
    StepsFitIn (parent .element span (opening :: kids)).places (opening.visit ++
      if isRawOpening opening.node then [] else markupChildren s span kids) := by
  have hsnug := h.snug rfl
  have hline := h.inLine rfl rfl
  have hmem : opening ∈ opening :: kids := List.mem_cons_self ..
  obtain ⟨hbefore, hordered⟩ := List.pairwise_cons.mp hline.ordered
  have hkids : InLine kids := {
    placed := fun c hc => hline.placed c (List.mem_cons_of_mem _ hc)
    spaced := fun c hc => hline.spaced c (List.mem_cons_of_mem _ hc)
    snug := fun c hc => hline.snug c (List.mem_cons_of_mem _ hc)
    nonempty := fun c hc => hline.nonempty c (List.mem_cons_of_mem _ hc)
    ordered := hordered }
  have hvisit := h.visit (by decide) hmem
  rw [(hline.snug opening hmem).places_eq] at hvisit
  have hin := h.inside hsnug rfl hmem
  have hne := hline.nonempty opening hmem
  rw [hsnug.places_eq]
  refine hvisit.join ?_ hin.1 (Nat.le_of_lt hne) hin.2
  by_cases hraw : isRawOpening opening.node = true
  · rw [if_pos hraw]
    exact .nil _
  · rw [if_neg hraw]
    refine childrenFrom_fits hkids ?_ kids rfl ?_
    · intro r hr
      have htakes : r.Takes (kids.map (·.1)).length := Markup.planChildren_takes (h.runs r hr rfl)
      rwa [List.length_map] at htakes
    · intro i c _ _ hc
      have hc := List.mem_of_getElem? hc
      exact ⟨hbefore c hc, (h.inside hsnug rfl (List.mem_cons_of_mem _ hc)).2⟩

/-! ### Nodes visited where they stand -/

theorem items_fit (h : s.LaidAt kind span cs) (hbare : kind ≠ .bare) :
    StepsFitIn (parent kind span cs).places (cs.map (item s)) := by
  rw [List.map_eq_flatMap]
  exact h.fits (List.Sublist.refl cs) fun c hc => (h.visit hbare hc).inScope _

theorem held_fit (h : s.LaidAt kind span cs) :
    StepsFitIn (parent kind span cs).places (cs.flatMap (·.views.inner ())) :=
  h.fits (List.Sublist.refl cs) fun c hc => (h.placed c hc).inner

theorem staticField_fits (h : s.LaidAt (.field true) span cs) :
    StepsFitIn (parent (.field true) span cs).places (staticField s span.lo cs) := by
  unfold staticField
  split
  · exact .nil _
  · exact (h.visitAll (by decide)).inField _ _

theorem declarator_fits (h : s.LaidAt .declarator span cs) :
    StepsFitIn (parent .declarator span cs).places (declarator s span.lo cs) := by
  unfold declarator
  split
  · exact .nil _
  · exact ((h.visitAll (by decide)).inScope _).bound _ _

theorem keyedMember_fits {object key : Child}
    (h : s.LaidAt (.member .computed) span [object, key]) :
    StepsFitIn (parent (.member .computed) span [object, key]).places
      (object.visit ++ keptKey key) := by
  have hkey : StepsFitIn key.node.places (keptKey key) :=
    unlessLiteral (h.visit (by decide) (by simp))
  have hboth := h.fits_cons (f := keptKey) (h.visit (by decide) (by simp)) (by simpa using hkey)
  simpa using hboth

theorem switchCase_fits {test : Child} {body : List Child}
    (h : s.LaidAt (.switchCase true) span (test :: body)) :
    StepsFitIn (parent (.switchCase true) span (test :: body)).places
      (Setting.unlessLiteral .comparison test test.visit ++ Phrasebook.visitAll body) := by
  refine h.fits_cons (unlessLiteral (h.visit (by decide) (by simp))) ?_
  intro c hc
  exact h.visit (by decide) (List.mem_cons_of_mem _ hc)

theorem inner_fits (h : s.LaidAt kind span cs) :
    StepsFitIn (parent kind span cs).places (inner s kind span cs) := by
  unfold inner
  split
  case h_1 | h_2 => exact h.items_fit (by simp)
  case h_3 | h_4 | h_5 | h_6 | h_8 => exact (h.visitAll (by simp)).inScope _
  case h_7 => exact h.staticField_fits
  case h_9 => exact h.keyedMember_fits
  case h_10 => exact .notes _
  case h_11 => exact h.switchCase_fits
  case h_12 => exact h.element_fits
  case h_13 => exact h.fragment_fits
  case h_14 =>
    have hsnug := h.snug rfl
    rw [hsnug.places_eq]
    exact markupText_fits (h.span_nonempty hsnug) _
  case h_15 =>
    have hsnug := h.snug rfl
    rw [hsnug.places_eq]
    exact attributeText_fits (h.span_nonempty hsnug) _
  case h_16 | h_17 => exact h.held_fit
  case h_18 => exact h.declarator_fits
  case h_19 => exact (h.visitAll (by simp)).bound _ _
  case h_20 | h_21 | h_22 | h_23 => exact (h.visitAll (by simp)).inScope _
  case h_24 => exact h.visitAll (by assumption)

/-! ### Expressions -/

variable (depth : Nat)

theorem rebuild_fits {body : List Step} (hsnug : (parent kind span cs).Snug)
    (h : StepsFitIn (parent kind span cs).places body) :
    (Value.rebuild span body).FitsIn [span] := by
  rw [hsnug.places_eq] at h
  exact .rebuild h

/-- Parts that are values are rebuilt in their places. -/
theorem rebuilt_fits (h : s.LaidAt kind span cs) (hsnug : (parent kind span cs).Snug)
    {parts : List Child} (hsub : parts.Sublist cs) (hvalues : ∀ c ∈ parts, c.node.Snug) :
    (rebuilt span parts depth).FitsIn [span] := by
  refine rebuild_fits hsnug ?_
  rw [List.map_eq_flatMap]
  exact h.fits hsub fun c hc => (h.placed c (hsub.subset hc)).replaced (hvalues c hc) _

theorem comparison_fits (h : s.LaidAt (.binary .compare) span cs)
    (hsnug : (parent (.binary .compare) span cs).Snug) :
    (comparison span cs depth).FitsIn [span] := by
  refine rebuild_fits hsnug (h.fits (List.Sublist.refl cs) fun c hc => unlessLiteral ?_)
  exact (h.placed c hc).replaced (h.snug_of_holdsValues rfl hc) _

theorem valueParts_fit (h : s.LaidAt kind span cs) (hbare : kind ≠ .bare)
    (hsnug : (parent kind span cs).Snug) : (rebuilt span (valueParts cs) depth).FitsIn [span] := by
  refine h.rebuilt_fits depth hsnug List.filter_sublist fun c hc => ?_
  obtain ⟨hc, hkind⟩ := List.mem_filter.mp hc
  rcases Bool.or_eq_true_iff.mp hkind with hexpr | hspread
  · exact h.snug_of_isExpr hbare hc hexpr
  · have hkind : c.node.kind = .spread := beq_iff_eq.mp hspread
    exact (h.child_spaced hc).filled (by rw [hkind]; rfl)

theorem call_fits (h : s.LaidAt .call span cs) (hsnug : (parent .call span cs).Snug) :
    (call s span cs depth).FitsIn [span] := by
  have hparts := h.valueParts_fit depth (by decide) hsnug
  unfold call
  split
  · exact .nothing
  · simp only
    split
    · exact .notes _
    · split
      · split
        · exact .nothing
        · split
          · exact .notes _
          · exact hparts
      · exact hparts

theorem construct_fits (h : s.LaidAt .construct span cs)
    (hsnug : (parent .construct span cs).Snug) :
    (construct s span cs depth).FitsIn [span] := by
  have hparts := h.valueParts_fit depth (by decide) hsnug
  unfold construct
  split
  · exact .nothing
  · split
    · split
      · exact .notes _
      · exact hparts
    · exact hparts

theorem arrow_fits (h : s.LaidAt .arrow span cs) (hsnug : (parent .arrow span cs).Snug)
    (scope : Scope) :
    (Value.scope scope (.rebuild span (cs.flatMap (arrowPart depth)))).FitsIn [span] := by
  refine .scope (rebuild_fits hsnug (h.fits (List.Sublist.refl cs) fun c hc => ?_)) scope
  unfold arrowPart
  split
  · exact .nil _
  · exact .nil _
  · split
    · rename_i hexpr
      exact (h.placed c hc).replaced (h.snug_of_isExpr (by decide) hc hexpr) _
    · exact h.visit (by decide) hc

theorem constAssertion_fits (h : s.LaidAt .constAssertion span cs)
    (hsnug : (parent .constAssertion span cs).Snug) :
    (constAssertion span cs depth).FitsIn [span] := by
  unfold constAssertion
  split
  · rename_i value inner children views
    have hmem : (Node.mk (.string value) inner children, views) ∈
        [(Node.mk (.string value) inner children, views)] := List.mem_singleton_self _
    have hne := h.child_nonempty hmem (h.snug_of_holdsValues rfl hmem)
    have hin := h.inside hsnug rfl hmem
    exact (literal_fits hne value).widen (by simpa using hin)
  · exact h.rebuilt_fits depth hsnug (List.Sublist.refl cs) fun c hc => h.snug_of_holdsValues rfl hc

/-- The slots of a message lie inside it, and each is smaller. -/
theorem slotsOf_fit (h : s.LaidAt kind span cs) (hsnug : (parent kind span cs).Snug)
    (hkind : kind.isMessage = true) : ValuesFitIn [span] (slotsOf kind cs depth) ∧
      ∀ m ∈ valuesWordings (slotsOf kind cs depth), m.span ≠ span := by
  have hvalues : kind.holdsValues = true := by
    cases kind <;> first | rfl | cases hkind
  have hapart : (cs.flatMap fun c => [c.node.span]).Pairwise Span.Apart := by
    have := (h.spaced.laidIn_values hvalues).apart
    rwa [Node.children, List.map_map, List.map_eq_flatMap] at this
  have hslots : ValuesFitIn (cs.flatMap fun c => [c.node.span]) (slotsOf kind cs depth) := by
    unfold slotsOf
    split
    · rename_i pieces
      have htake := (List.take_sublist pieces.length cs).flatMap fun c => [c.node.span]
      have hfirst : ValuesFitIn ((cs.take pieces.length).flatMap fun c => [c.node.span])
          ((cs.take pieces.length).flatMap fun c => [c.views.expr depth]) := by
        refine .flatMap (fun c hc => .single ?_) (hapart.sublist htake)
        have hc := List.mem_of_mem_take hc
        exact (h.placed c hc).expr (h.snug_of_holdsValues hvalues hc) depth
      rw [List.map_eq_flatMap]
      exact hfirst.widen fun p hp => ⟨p, htake.subset hp, .refl p⟩
    · exact .flatMap (fun c hc => (h.placed c hc).slots (h.snug_of_holdsValues hvalues hc) depth)
        hapart
    · exact .nil _
  refine ⟨hslots.widen ?_, ?_⟩
  · intro p hp
    obtain ⟨c, hc, hp⟩ := List.mem_flatMap.mp hp
    rw [List.mem_singleton.mp hp]
    exact ⟨span, List.mem_singleton_self _, h.inside hsnug hvalues hc⟩
  · intro m hm heq
    obtain ⟨-, p, hp, hin⟩ := hslots.ids.inside m.id (List.mem_map_of_mem hm)
    obtain ⟨c, hc, hp⟩ := List.mem_flatMap.mp hp
    rw [List.mem_singleton.mp hp] at hin
    simp only [Wording.id, heq] at hin
    exact h.spaced.larger hkind _ (mem_children hc) ((h.inside hsnug hvalues hc).antisymm hin)

theorem message_fits (h : s.LaidAt kind span cs) (hsnug : (parent kind span cs).Snug)
    {parts : List Part} (hparts : messageOf kind span (cs.map (·.1)) = some parts) :
    (Value.message .interpolated span parts (slotsOf kind cs depth)).FitsIn [span] := by
  have hne := h.span_nonempty hsnug
  unfold messageOf at hparts
  split at hparts
  · rename_i pieces
    obtain ⟨hslots, hlarger⟩ := h.slotsOf_fit depth hsnug rfl
    obtain ⟨hsome, -⟩ := Option.filter_eq_some_iff.mp hparts
    cases hsome
    have hlaid := h.spaced.laidIn_values rfl
    rw [hsnug.places_eq] at hlaid
    exact .message hne (hlaid.sublist (Message.slotSpans_weave_sublist pieces _)) hslots hlarger
  · obtain ⟨hslots, hlarger⟩ := h.slotsOf_fit depth hsnug rfl
    obtain ⟨hsome, -⟩ := Option.filter_eq_some_iff.mp hparts
    exact .message hne (Message.laidIn_ofConcat hsome hsnug hne h.below) hslots hlarger
  · cases hparts

theorem exprWithin_fits (h : s.LaidAt kind span cs)
    (hsnug : (parent kind span cs).Snug) : (exprWithin s kind span cs depth).FitsIn [span] := by
  unfold exprWithin
  simp only
  split
  · rename_i hparts
    exact h.message_fits _ hsnug hparts
  · split
    case h_1 => exact literal_fits (h.span_nonempty hsnug) _
    case h_2 | h_3 | h_4 | h_5 | h_6 | h_7 =>
      exact h.rebuilt_fits depth hsnug (List.Sublist.refl cs)
        fun c hc => h.snug_of_holdsValues rfl hc
    case h_8 => exact h.comparison_fits depth hsnug
    case h_9 => exact h.valueParts_fit depth (by decide) hsnug
    case h_10 => exact h.call_fits depth hsnug
    case h_11 => exact h.construct_fits depth hsnug
    case h_12 =>
      exact rebuild_fits hsnug (h.fits (List.Sublist.refl cs) fun c hc =>
        (h.placed c hc).member depth)
    case h_13 => exact h.arrow_fits depth hsnug _
    case h_14 => exact h.constAssertion_fits depth hsnug
    case h_15 => exact rebuild_fits hsnug h.inner_fits

/-! ### All roles of a node -/

/-- One part of a node that fits on its own. -/
theorem fits_one (_h : s.LaidAt kind span cs) (hc : c ∈ cs) {xs : List Step}
    (hxs : StepsFitIn c.node.places xs) : StepsFitIn (parent kind span cs).places xs := by
  refine hxs.widen fun p hp => ?_
  exact Node.exists_place _ (Node.places_subset (mem_children hc) hp)

theorem property_fits (h : s.LaidAt .property span cs) :
    StepsFitIn (parent .property span cs).places (property cs depth) := by
  unfold property
  split
  · rename_i key value
    have hkey : key ∈ [key, value] := by simp
    have hvalue : value ∈ [key, value] := by simp
    have hvaluesnug := h.snug_of_holdsValues rfl hvalue
    have hreplaced := (h.placed value hvalue).replaced hvaluesnug (depth + 1)
    split
    · exact h.fits_cons (f := fun c => [c.replaced (depth + 1)])
        ((h.placed key hkey).member depth) (by simpa using hreplaced)
    · split
      · exact h.fits_one hvalue hreplaced
      · -- The getter reaches from the key to the end of the value.
        have hsnug := h.snug rfl
        have hkeyne := h.child_nonempty hkey (h.snug_of_holdsValues rfl hkey)
        have hvaluene := h.child_nonempty hvalue hvaluesnug
        have hbefore : key.node.span.hi ≤ value.node.span.lo := by
          simpa using (h.inLine rfl rfl).ordered
        have hgetter : StepsFitIn [⟨key.node.span.lo, value.node.span.hi⟩]
            [.property key.node.span value.node.span (value.kind == .array)
              (value.views.expr (depth + 1))] :=
          .property ((h.placed value hvalue).expr hvaluesnug (depth + 1)) (by omega) hvaluene
        rw [hsnug.places_eq]
        refine hgetter.widen ?_
        intro p hp
        rw [List.mem_singleton.mp hp]
        exact ⟨span, List.mem_singleton_self _, (h.inside hsnug rfl hkey).1,
          (h.inside hsnug rfl hvalue).2⟩
  · exact .nil _

theorem operandSlots_fit (h : s.LaidAt kind span cs) (hsnug : (parent kind span cs).Snug)
    (expr : Nat → Value) (hexpr : (expr depth).FitsIn [span]) :
    ValuesFitIn [span] (operandSlots kind cs expr depth) := by
  unfold operandSlots
  split
  · exact .nil _
  · exact .nil _
  · exact (h.slotsOf_fit depth hsnug rfl).1
  · exact (h.slotsOf_fit depth hsnug rfl).1
  · exact .single hexpr

end LaidAt

/-- A child that is no spread takes the place of its own range. -/
theorem replaced_fits {depth : Nat} (hsnug : c.node.Snug) (hne : c.node.span.lo < c.node.span.hi)
    (hspread : ∀ span e, c.node ≠ .mk .spread span [e])
    (h : (c.views.expr depth).FitsIn [c.node.span]) :
    StepsFitIn c.node.places [c.replaced depth] := by
  rw [hsnug.places_eq]
  unfold Child.replaced
  split
  · rename_i heq
    exact absurd heq (hspread _ _)
  · exact .replace h hne

namespace LaidAt

/-- What a node holds alone lies inside it. -/
theorem held_inside {held : Child} (h : s.LaidAt kind span [held])
    (hvalues : kind.holdsValues = true) (hsnug : (parent kind span [held]).Snug) :
    ∀ p ∈ [held.node.span], ∃ q ∈ [span], p.Inside q := by
  intro p hp
  rw [List.mem_singleton.mp hp]
  exact ⟨span, List.mem_singleton_self _, h.inside hsnug hvalues (List.mem_singleton_self held)⟩

theorem views_placed (h : s.LaidAt kind span cs) :
    Child.Placed (parent kind span cs, views s kind span cs) := by
  unfold views
  split
  case h_1 held =>
    -- A spread stands for what it holds, in the place of what it holds.
    have hmem : held ∈ [held] := List.mem_singleton_self held
    have hheld := h.snug_of_holdsValues rfl hmem
    have hplaced := h.placed held hmem
    refine ⟨fun hsnug depth => ?_, fun _ depth => h.fits_one hmem ?_,
      h.fits_one hmem (h.visit (by decide) hmem), fun hsnug depth => ?_,
      fun depth => h.fits_one hmem (hplaced.replaced hheld (depth + 1))⟩
    · exact (hplaced.expr hheld depth).widen (h.held_inside rfl hsnug)
    · rw [hheld.places_eq]
      exact .replace (hplaced.expr hheld depth) (h.child_nonempty hmem hheld)
    · exact .single ((hplaced.expr hheld depth).widen (h.held_inside rfl hsnug))
  case h_2 held =>
    have hmem : held ∈ [held] := List.mem_singleton_self held
    have hheld := h.snug_of_holdsValues rfl hmem
    have hplaced := h.placed held hmem
    have hvisit := h.fits_one hmem (h.visit (by decide) hmem)
    have hexpr : (parent .container span [held]).Snug → ∀ depth,
        (held.views.expr depth).FitsIn [span] := fun hsnug depth =>
      (hplaced.expr hheld depth).widen (h.held_inside rfl hsnug)
    refine ⟨hexpr, fun hsnug depth => ?_, hvisit, fun hsnug depth => ?_, fun _ => hvisit⟩
    · exact replaced_fits hsnug (h.span_nonempty hsnug) (by simp [Child.node]) (hexpr hsnug depth)
    · exact .single (hexpr hsnug depth)
  case h_3 key =>
    have hmem : key ∈ [key] := List.mem_singleton_self key
    have hvisit := h.visit (by decide) hmem
    refine ⟨fun _ _ => .nothing, fun hsnug depth => ?_, h.fits_one hmem hvisit,
      fun _ _ => .single .nothing, fun _ => h.fits_one hmem (unlessLiteral hvisit)⟩
    exact replaced_fits hsnug (h.span_nonempty hsnug) (by simp [Child.node]) .nothing
  case h_4 =>
    refine ⟨fun _ _ => .nothing, fun hsnug depth => ?_, h.visitAll (by decide),
      fun _ _ => .single .nothing, fun depth => h.property_fits depth⟩
    exact replaced_fits hsnug (h.span_nonempty hsnug) (by simp [Child.node]) .nothing
  case h_5 _ hspread _ _ =>
    let expr := fun depth =>
      if s.options.maxDepth < depth then Value.abort span.lo else exprWithin s kind span cs depth
    have hexpr : (parent kind span cs).Snug → ∀ depth, (expr depth).FitsIn [span] := by
      intro hsnug depth
      simp only [expr]
      split
      · exact .abort _
      · exact h.exprWithin_fits depth hsnug
    refine ⟨hexpr, fun hsnug depth => ?_, h.inner_fits, fun hsnug depth => ?_,
      fun _ => h.inner_fits⟩
    · refine replaced_fits hsnug (h.span_nonempty hsnug) ?_ (hexpr hsnug depth)
      intro other e heq
      injection heq with hkind _ hchildren
      obtain ⟨c, rfl, rfl⟩ := List.map_eq_singleton_iff.mp hchildren
      exact hspread c hkind rfl
    · exact h.operandSlots_fit depth hsnug expr (hexpr hsnug depth)

end LaidAt

/-! ### The whole tree -/

theorem map_viewsOfAll (s : Setting) (ns : List Node) : (s.viewsOfAll ns).map (·.1) = ns := by
  simp [viewsOfAll_eq, Function.comp_def]

theorem viewsOf_placed {n : Node} (h : s.LaidAt n.kind n.span (s.viewsOfAll n.children)) :
    Child.Placed (n, s.viewsOf n) := by
  cases n with
  | mk kind span children =>
    have hviews := h.views_placed
    rwa [parent, map_viewsOfAll] at hviews

/-- In a tree with its parts in their places and runs that are its own, every node has its children
laid out. -/
theorem laidAt_of_spaced {n : Node} (hspaced : ∀ m ∈ n.subnodes, m.Spaced)
    (hne : ∀ p ∈ n.places, p.lo < p.hi)
    (hruns : ∀ m ∈ n.subnodes, ∀ r ∈ s.plan.runsFor m.span, Markup.isMarkup m = true →
      r ∈ Markup.planChildren s.source (Markup.rendered m)) :
    s.LaidAt n.kind n.span (s.viewsOfAll n.children) := by
  induction n using Node.inductOn with
  | mk kind span children ih =>
    have hself := Node.mem_subnodes_self (.mk kind span children)
    simp only [Node.kind, Node.span, Node.children]
    refine ⟨by rwa [parent, map_viewsOfAll], by rwa [parent, map_viewsOfAll], ?_, ?_⟩
    · rw [parent, map_viewsOfAll]
      exact hruns _ hself
    · intro c hc
      rw [viewsOfAll_eq] at hc
      obtain ⟨m, hm, rfl⟩ := List.mem_map.mp hc
      have hsub : m.subnodes ⊆ (Node.mk kind span children).subnodes :=
        Node.subnodes_subset_of_mem hm
      refine viewsOf_placed (ih m hm (fun k hk => hspaced k (hsub hk)) ?_ fun k hk =>
        hruns k (hsub hk))
      intro p hp
      exact ((hspaced _ hself).apart.inside p (Node.places_subset hm hp)).1

end Setting

end Phrasebook
