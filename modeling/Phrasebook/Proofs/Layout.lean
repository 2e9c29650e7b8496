import Phrasebook.Proofs.Frames
import Phrasebook.Proofs.Runs

/-!
How the nodes of a tree lie in its text. The parts of a node are apart from each other, and what is
rebuilt or replaced as a whole lies around its parts. A node that is neither may have parts outside
its own range: decorators stand before what they decorate, and types after the name they belong to.
-/
namespace Phrasebook

open Script Outline

namespace Script

namespace Kind

/-- Kinds whose nodes are replaced as a whole, or edited from end to end. -/
def fillsSpan : Kind → Bool
  | .text _ | .attrText _ | .property | .spread | .element | .fragment => true
  | _ => false

/-- Kinds whose children are all taken as values, whatever they are. -/
def holdsValues : Kind → Bool
  | .template _ | .conditional | .paren | .array | .binary _ | .constAssertion | .spread
  | .container | .property | .element | .fragment => true
  | _ => false

/-- Kinds whose children stand in the order of the text. -/
def isOrdered : Kind → Bool
  | .property | .element | .fragment => true
  | _ => false

/-- Kinds of messages that are larger than any slot of theirs. -/
def isMessage : Kind → Bool
  | .template _ | .binary .add => true
  | _ => false

end Kind

namespace Node

mutual

/-- The ranges that edits of a node stay in: its own, or those of its parts when one of them lies
outside. -/
def places : Node → List Span
  | .mk _ span children =>
    if ∀ p ∈ placesOfAll children, p.Inside span then [span] else placesOfAll children

def placesOfAll : List Node → List Span
  | [] => []
  | n :: ns => n.places ++ placesOfAll ns

end

/-- The node lies around its parts. -/
def Snug (n : Node) : Prop := ∀ p ∈ placesOfAll n.children, p.Inside n.span

instance (n : Node) : Decidable n.Snug :=
  inferInstanceAs (Decidable (∀ p ∈ placesOfAll n.children, p.Inside n.span))

/-- How the parts of a node lie. -/
structure Spaced (n : Node) : Prop where
  /-- Nothing is empty, and no two parts overlap. -/
  apart : Span.LaidIn (placesOfAll n.children) (placesOfAll n.children)
  filled : n.kind.fillsSpan = true → n.Snug
  /-- Expressions lie around their parts; only a bare one, which is no value, need not. -/
  values : ∀ c ∈ n.children,
    (n.kind.holdsValues || c.kind.isExpr && n.kind != .bare) = true → c.Snug
  ordered : n.kind.isOrdered = true → n.children.Pairwise fun a b => a.span.hi ≤ b.span.lo
  larger : n.kind.isMessage = true → ∀ c ∈ n.children, c.span ≠ n.span

instance (n : Node) : Decidable n.Spaced :=
  decidable_of_iff
    (Span.LaidIn (placesOfAll n.children) (placesOfAll n.children) ∧
      (n.kind.fillsSpan = true → n.Snug) ∧
      (∀ c ∈ n.children,
        (n.kind.holdsValues || c.kind.isExpr && n.kind != .bare) = true → c.Snug) ∧
      (n.kind.isOrdered = true → n.children.Pairwise fun a b => a.span.hi ≤ b.span.lo) ∧
      (n.kind.isMessage = true → ∀ c ∈ n.children, c.span ≠ n.span))
    ⟨fun h => ⟨h.1, h.2.1, h.2.2.1, h.2.2.2.1, h.2.2.2.2⟩,
      fun h => ⟨h.apart, h.filled, h.values, h.ordered, h.larger⟩⟩

/-- How the parts of most nodes lie: one apart from the other, and all of them inside the node. -/
structure Nested (n : Node) : Prop where
  laid : Span.LaidIn [n.span] (n.children.map span)
  ordered : n.kind.isOrdered = true → n.children.Pairwise fun a b => a.span.hi ≤ b.span.lo
  larger : n.kind.isMessage = true → ∀ c ∈ n.children, c.span ≠ n.span

instance (n : Node) : Decidable n.Nested :=
  decidable_of_iff (Span.LaidIn [n.span] (n.children.map span) ∧
      (n.kind.isOrdered = true → n.children.Pairwise fun a b => a.span.hi ≤ b.span.lo) ∧
      (n.kind.isMessage = true → ∀ c ∈ n.children, c.span ≠ n.span))
    ⟨fun h => ⟨h.1, h.2.1, h.2.2⟩, fun h => ⟨h.laid, h.ordered, h.larger⟩⟩

theorem placesOfAll_eq (ns : List Node) : placesOfAll ns = ns.flatMap places := by
  induction ns with
  | nil => rfl
  | cons n ns ih => rw [placesOfAll, ih, List.flatMap_cons]

variable {n c : Node}

theorem Snug.places_eq (h : n.Snug) : n.places = [n.span] := by
  cases n with
  | mk kind span children => exact if_pos h

theorem placesOfAll_eq_map {ns : List Node} (h : ∀ n ∈ ns, n.Snug) :
    placesOfAll ns = ns.map span := by
  rw [placesOfAll_eq, List.map_eq_flatMap]
  exact List.flatMap_congr fun c hc => (h c hc).places_eq

/-- Every part lies in a place of its node. -/
theorem exists_place (n : Node) {p : Span} (hp : p ∈ placesOfAll n.children) :
    ∃ q ∈ n.places, p.Inside q := by
  cases n with
  | mk kind span children =>
    by_cases hsnug : ∀ p ∈ placesOfAll children, p.Inside span
    · exact ⟨span, by simp only [places, if_pos hsnug, List.mem_singleton], hsnug p hp⟩
    · exact ⟨p, by rwa [places, if_neg hsnug], .refl p⟩

theorem places_subset (hc : c ∈ n.children) : c.places ⊆ placesOfAll n.children := by
  intro p hp
  rw [placesOfAll_eq]
  exact List.mem_flatMap.mpr ⟨c, hc, hp⟩

theorem Spaced.snug_of_isExpr (h : n.Spaced) (hc : c ∈ n.children) (hexpr : c.kind.isExpr = true)
    (hbare : n.kind ≠ .bare) : c.Snug :=
  h.values c hc (by simp [hexpr, hbare])

theorem Spaced.snug_of_holdsValues (h : n.Spaced) (hc : c ∈ n.children)
    (hkind : n.kind.holdsValues = true) : c.Snug :=
  h.values c hc (by simp [hkind])

/-- Children that are snug lie inside a snug node. -/
theorem Snug.inside (h : n.Snug) (hc : c ∈ n.children) (hsnug : c.Snug) : c.span.Inside n.span :=
  h c.span (places_subset hc (by simp [hsnug.places_eq]))

/-- Values next to each other have ranges of their own. -/
theorem Spaced.laidIn_values (h : n.Spaced) (hkind : n.kind.holdsValues = true) :
    Span.LaidIn n.places (n.children.map span) := by
  rw [← placesOfAll_eq_map fun c hc => h.snug_of_holdsValues hc hkind]
  exact h.apart.widen fun p hp => n.exists_place hp

theorem subnodes_subset_of_mem_subnodes {m : Node} (h : m ∈ n.subnodes) :
    m.subnodes ⊆ n.subnodes := by
  induction n using inductOn with
  | mk kind span children ih =>
    rcases List.mem_cons.mp h with rfl | h
    · exact List.Subset.refl _
    · obtain ⟨c, hc, hm⟩ := mem_subnodesOfAll.mp h
      exact List.Subset.trans (ih c hc hm) (subnodes_subset_of_mem hc)

/-- Nodes nested all the way down lie around their parts. -/
theorem snug_of_nested (h : ∀ m ∈ n.subnodes, m.Nested) : n.Snug := by
  induction n using inductOn with
  | mk kind span children ih =>
    have hchildren : ∀ c ∈ children, c.Snug := fun c hc =>
      ih c hc fun m hm => h m (subnodes_subset_of_mem hc hm)
    intro p hp
    rw [Node.children, placesOfAll_eq_map hchildren] at hp
    obtain ⟨-, q, hq, hin⟩ := (h _ (mem_subnodes_self _)).laid.inside p hp
    rwa [List.mem_singleton.mp hq] at hin

theorem spaced_of_nested (h : ∀ m ∈ n.subnodes, m.Nested) : n.Spaced := by
  have hself := h n (mem_subnodes_self n)
  have hchildren : ∀ c ∈ n.children, c.Snug := fun c hc =>
    snug_of_nested fun m hm => h m (subnodes_subset_of_mem_children hc hm)
  refine ⟨?_, fun _ => snug_of_nested h, fun c hc _ => hchildren c hc, hself.ordered, hself.larger⟩
  rw [placesOfAll_eq_map hchildren]
  exact hself.laid.self

end Node

end Script

/-! ### Slots of templates and chains -/

theorem Outline.slotSpans_append (ps qs : List Part) :
    slotSpans (ps ++ qs) = slotSpans ps ++ slotSpans qs := List.filterMap_append

namespace Message

/-- The slots of a template are its expressions, one after each piece. -/
theorem slotSpans_weave (pieces : List Piece) (es : List Node) :
    slotSpans (weave pieces es) = (es.take pieces.length).map Node.span := by
  induction pieces generalizing es with
  | nil => rfl
  | cons p ps ih =>
    have htext : slotSpans (if p.text == "" then [] else [Part.text p.text]) = [] := by
      split <;> rfl
    cases es with
    | nil =>
      simp only [weave, slotSpans_append, htext, List.nil_append, ih, List.take_nil]
    | cons e es =>
      simp only [weave, slotSpans_append, htext, List.nil_append]
      exact congrArg (e.span :: ·) (ih es)

theorem slotSpans_weave_sublist (pieces : List Piece) (es : List Node) :
    (slotSpans (weave pieces es)).Sublist (es.map Node.span) := by
  rw [slotSpans_weave]
  exact (List.take_sublist _ es).map Node.span

theorem slotSpans_pushText (parts : List Part) (text : String) :
    slotSpans (pushText parts text) = slotSpans parts := by
  unfold pushText
  split
  · rename_i last hlast
    obtain ⟨init, rfl⟩ := List.getLast?_eq_some_iff.mp hlast
    simp [slotSpans]
  · split
    · rfl
    · simp [slotSpans]

theorem slotSpans_foldl_pushPart (more parts : List Part) :
    slotSpans (more.foldl pushPart parts) = slotSpans parts ++ slotSpans more := by
  induction more generalizing parts with
  | nil => simp [slotSpans]
  | cons p more ih =>
    rw [List.foldl_cons, ih]
    cases p with
    | text text =>
      rw [pushPart, slotSpans_pushText]
      rfl
    | slot e => simp [pushPart, slotSpans]

/-- The ranges of the slots that an operand brings to a chain. -/
def operandSpans (operand : Node) : List Span :=
  match operand with
  | .mk (.string _) _ _ | .mk (.number _) _ _ => []
  | .mk (.template pieces) _ es => slotSpans (weave pieces es)
  | other => [other.span]

theorem slotSpans_pushOperand {parts parts' : List Part} {operand : Node}
    (h : pushOperand parts operand = some parts') :
    slotSpans parts' = slotSpans parts ++ operandSpans operand := by
  unfold pushOperand at h
  split at h
  · obtain ⟨text, -, rfl⟩ := Option.map_eq_some_iff.mp h
    simp [operandSpans, slotSpans_pushText]
  · cases h
    simp [operandSpans, slotSpans_pushText]
  · cases h
    simp [operandSpans, slotSpans_foldl_pushPart]
  · cases h
    rename_i hstring hnumber htemplate
    rw [slotSpans_append]
    unfold operandSpans
    split
    · exact absurd rfl (hstring _ _ _)
    · exact absurd rfl (hnumber _ _ _)
    · exact absurd rfl (htemplate _ _ _)
    · rfl

theorem slotSpans_foldlM_pushOperand (es : List Node) {parts parts' : List Part}
    (h : es.foldlM pushOperand parts = some parts') :
    slotSpans parts' = slotSpans parts ++ es.flatMap operandSpans := by
  induction es generalizing parts with
  | nil =>
    cases h
    simp
  | cons e es ih =>
    rw [List.foldlM_cons] at h
    obtain ⟨next, hnext, hrest⟩ := Option.bind_eq_some_iff.mp h
    rw [ih hrest, slotSpans_pushOperand hnext, List.flatMap_cons, List.append_assoc]

/-- The operands of a chain lie apart inside it. -/
theorem laidIn_operands (n : Node) (hsnug : n.Snug) (hne : n.span.lo < n.span.hi)
    (hspaced : ∀ m ∈ n.subnodes, m.Spaced) :
    Span.LaidIn [n.span] ((operands n).map Node.span) ∧
      ∀ e ∈ operands n, e.Snug ∧ e.Spaced := by
  induction n using Node.inductOn with
  | mk kind span children ih =>
    have hself := hspaced _ (Node.mem_subnodes_self _)
    unfold operands
    split
    · rename_i left right heq
      cases heq
      have hvalue : ∀ c ∈ [left, right], c.Snug := fun c hc =>
        hself.snug_of_holdsValues (n := .mk (.binary .add) span [left, right]) hc rfl
      have hlaid := hself.laidIn_values rfl
      rw [hsnug.places_eq] at hlaid
      have hbelow : ∀ c ∈ [left, right],
          Span.LaidIn [c.span] ((operands c).map Node.span) ∧ ∀ e ∈ operands c, e.Snug ∧ e.Spaced :=
        fun c hc => ih c hc (hvalue c hc) (hlaid.inside c.span (List.mem_map_of_mem hc)).1
          fun m hm => hspaced m (Node.subnodes_subset_of_mem hc hm)
      obtain ⟨hl, hls⟩ := hbelow left (by simp)
      obtain ⟨hr, hrs⟩ := hbelow right (by simp)
      have hcross : ∀ p ∈ [left.span], ∀ q ∈ [right.span], p.Apart q := by
        intro p hp q hq
        rw [List.mem_singleton.mp hp, List.mem_singleton.mp hq]
        exact (List.pairwise_cons.mp hlaid.apart).1 right.span (List.mem_singleton_self _)
      refine ⟨?_, ?_⟩
      · rw [List.map_append]
        exact hlaid.trans (hl.append hr hcross)
      · intro e he
        exact (List.mem_append.mp he).elim (hls e) (hrs e)
    · exact ⟨.single hne (.refl _), by simp [hsnug, hself]⟩

theorem laidIn_operandSpans {e : Node} (hsnug : e.Snug) (hspaced : e.Spaced)
    (hne : e.span.lo < e.span.hi) : Span.LaidIn [e.span] (operandSpans e) := by
  unfold operandSpans
  split
  · exact .nil _
  · exact .nil _
  · rename_i pieces span es
    have hlaid := hspaced.laidIn_values rfl
    rw [hsnug.places_eq] at hlaid
    exact hlaid.sublist (slotSpans_weave_sublist pieces es)
  · exact .single hne (.refl _)

/-- So do the slots of its message. -/
theorem laidIn_ofConcat {n : Node} {parts : List Part} (h : ofConcat n = some parts)
    (hsnug : n.Snug) (hne : n.span.lo < n.span.hi) (hspaced : ∀ m ∈ n.subnodes, m.Spaced) :
    Span.LaidIn [n.span] (slotSpans parts) := by
  obtain ⟨hlaid, hoperands⟩ := laidIn_operands n hsnug hne hspaced
  simp only [ofConcat, Option.bind_eq_bind, Option.bind_eq_some_iff] at h
  obtain ⟨first, -, -, -, hparts⟩ := h
  rw [slotSpans_foldlM_pushOperand _ hparts]
  rw [List.map_eq_flatMap] at hlaid
  refine hlaid.trans (.flatMap ?_ hlaid.apart)
  intro e he
  obtain ⟨hes, hesp⟩ := hoperands e he
  refine laidIn_operandSpans hes hesp (hlaid.inside e.span ?_).1
  exact List.mem_flatMap.mpr ⟨e, he, List.mem_singleton_self _⟩

end Message

/-! ### Runs of markup -/

namespace Markup

/-- Positions of the expressions of a run among the children. -/
def exprIndices (parts : List RunPart) : List Nat :=
  parts.filterMap fun
    | .text _ => none
    | .expr i => some i

theorem exprIndices_pushRunText (parts : List RunPart) (text : String) :
    exprIndices (pushRunText parts text) = exprIndices parts := by
  unfold pushRunText
  split
  · rename_i last hlast
    obtain ⟨init, rfl⟩ := List.getLast?_eq_some_iff.mp hlast
    simp [exprIndices]
  · simp [exprIndices]

theorem exprIndices_runParts (members : List Node) (index : Nat) (parts : List RunPart) :
    (exprIndices (runParts index parts members)).Sublist
      (exprIndices parts ++ List.range' index members.length) := by
  induction members generalizing index parts with
  | nil => simp [runParts]
  | cons m rest ih =>
    rw [runParts, List.length_cons, List.range'_succ]
    split
    · refine (ih (index + 1) _).trans ?_
      rw [exprIndices_pushRunText]
      exact (List.Sublist.refl _).append (List.sublist_cons_self _ _)
    · refine (ih (index + 1) _).trans ?_
      simp [exprIndices]

theorem exprIndices_trimFirst (parts : List RunPart) :
    exprIndices (trimFirst parts) = exprIndices parts := by
  unfold trimFirst
  split <;> simp [exprIndices]

theorem exprIndices_trimLast (parts : List RunPart) :
    exprIndices (trimLast parts) = exprIndices parts := by
  unfold trimLast
  split
  · rename_i last hlast
    obtain ⟨init, rfl⟩ := List.getLast?_eq_some_iff.mp hlast
    simp [exprIndices]
  · rfl

/-- Text and expression cannot be one and the same member. -/
theorem length_of_isMergeable {members : List Node} (h : isMergeable members = true) :
    2 ≤ members.length := by
  obtain _ | ⟨m, _ | ⟨m', rest⟩⟩ := members
  · simp [isMergeable] at h
  · cases hp : pieceOf m <;> simp [isMergeable, hp] at h
  · simp

/-- The children that a run takes up: at least two, and its expressions are among them. -/
structure Run.Takes (r : Run) (count : Nat) : Prop where
  many : r.start + 2 ≤ r.stop
  within : r.stop ≤ count
  indices : (exprIndices r.parts).Sublist (List.range' r.start (r.stop - r.start))

theorem planChildren_takes {source : Source} {children : List Node} {r : Run}
    (h : r ∈ planChildren source children) : r.Takes children.length := by
  have hwithin := planChildren_within h
  obtain ⟨start, members, -, hrun⟩ := planFrom_members children h
  have hmany := length_of_isMergeable (isMergeable_of_planRun hrun)
  unfold planRun at hrun
  split at hrun
  · split at hrun
    · cases hrun
      refine ⟨Nat.add_le_add_left hmany start, hwithin.2, ?_⟩
      have hparts := exprIndices_runParts members start []
      rw [← exprIndices_trimFirst, ← exprIndices_trimLast] at hparts
      rw [Nat.add_sub_cancel_left]
      exact (List.filter_sublist.filterMap _).trans hparts
    · cases hrun
  · cases hrun

/-- The children of a run, from its first to its last one. -/
def Run.members {α : Type} (r : Run) (all : List α) : List α :=
  (all.drop r.start).take (r.stop - r.start)

theorem filterMap_range'_getElem? {α : Type} (all : List α) (start count : Nat) :
    (List.range' start count).filterMap (all[·]?) = (all.drop start).take count := by
  induction count generalizing start with
  | zero => simp
  | succ count ih =>
    rw [List.range'_succ, List.filterMap_cons, ih]
    cases hget : all[start]? with
    | none =>
      have hlen : all.length ≤ start := List.getElem?_eq_none_iff.mp hget
      rw [List.drop_eq_nil_of_le hlen, List.drop_eq_nil_of_le (Nat.le_succ_of_le hlen),
        List.take_nil, List.take_nil]
    | some a =>
      obtain ⟨hlt, rfl⟩ := List.getElem?_eq_some_iff.mp hget
      rw [List.drop_eq_getElem_cons hlt, List.take_succ_cons]

theorem Run.Takes.members_sublist {α : Type} {r : Run} {all : List α} (h : r.Takes all.length) :
    ((exprIndices r.parts).filterMap (all[·]?)).Sublist (r.members all) := by
  rw [Run.members, ← filterMap_range'_getElem?]
  exact h.indices.filterMap _

end Markup

end Phrasebook
