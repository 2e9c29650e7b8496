import Phrasebook.Markup.Plan
import Phrasebook.Proofs.Reach
import Phrasebook.Residual

/-!
Well-formed trees: which nodes may hold which, and how their spans lie. The type of trees is wider,
since it has one sort of node for expressions, markup, types and statements.
-/
namespace Phrasebook.Script

namespace Kind

def isType : Kind → Bool
  | .type | .ascription | .typeArgs | .typeParams | .typeDecl => true
  | _ => false

def isLiteral : Kind → Bool
  | .string _ | .template _ => true
  | _ => false

/-- Parts of an object that are values only together with it. -/
def isObjectPart : Kind → Bool
  | .property | .computedKey => true
  | _ => false

/-- Kinds that stand between the tags of an element. -/
def isMarkupChild : Kind → Bool
  | .text _ | .container | .spreadChild | .element | .fragment => true
  | _ => false

/-- What is called by a keyword. -/
def isKeywordCallee : Kind → Bool
  | .superCallee | .importCallee => true
  | _ => false

/-- Kinds whose nodes start no later and end no earlier than the texts in them. Decorators stand
outside the span of what they decorate, so functions and classes are not among them. -/
def coversTexts : Kind → Bool
  | .string _ | .template _ | .binary .add | .text _ | .attrText _ | .container | .spreadChild
  | .element | .fragment => true
  | k => k.isType

/-- Whether a node of one kind may be a child of a node of another. -/
def mayHold : Kind → Kind → Bool
  | .string _, _ | .text _, _ | .attrText _, _ | .key, _ | .superCallee, _ | .importCallee, _ =>
    false
  | .bare, k | .attr, k | .object, k => !k.isLiteral
  | .template _, k | .conditional, k | .paren, k | .array, k | .binary _, k
  | .constAssertion, k => !k.isObjectPart
  | .spread, k | .container, k => k.isExpr
  | .call, k | .construct, k => k.isExpr || k == .spread || k.isType || k.isKeywordCallee
  | _, _ => true

theorem not_isObjectPart_of_isExpr {k : Kind} (h : k.isExpr = true) : k.isObjectPart = false := by
  cases k <;> first | rfl | cases h

theorem not_isLiteral_of_not_isExpr {k : Kind} (h : ¬k.isExpr = true) : k.isLiteral = false := by
  cases k <;> first | rfl | exact absurd rfl h

theorem not_isLiteral {k : Kind} (hstring : ∀ value, k ≠ .string value)
    (htemplate : ∀ pieces, k ≠ .template pieces) : k.isLiteral = false := by
  cases k with
  | string value => exact absurd rfl (hstring value)
  | template pieces => exact absurd rfl (htemplate pieces)
  | _ => rfl

theorem coversTexts_of_isType {k : Kind} (h : k.isType = true) : k.coversTexts = true := by
  cases k <;> first | rfl | cases h

theorem coversTexts_of_isMarkupChild {k : Kind} (h : k.isMarkupChild = true) :
    k.coversTexts = true := by
  cases k <;> first | rfl | cases h

theorem not_isLiteral_of_isMarkupChild {k : Kind} (h : k.isMarkupChild = true) :
    k.isLiteral = false := by
  cases k <;> first | rfl | cases h

end Kind

namespace Node

/-- A key, which may be computed, and the value. -/
def arePropertyParts : List Node → Bool
  | [key, value] => (key.kind == .key || key.kind == .computedKey) && !value.kind.isObjectPart
  | _ => false

def isGrammatical (n : Node) : Bool :=
  n.children.all (n.kind.mayHold ·.kind) && (Markup.rendered n).all (·.kind.isMarkupChild) &&
    (n.kind != .property || arePropertyParts n.children)

/-- The first of two nodes neither starts nor ends later than the second. -/
def InOrder (a b : Node) : Prop := a.span.lo ≤ b.span.lo ∧ a.span.hi ≤ b.span.hi

instance : DecidableRel InOrder := fun _ _ => inferInstanceAs (Decidable (_ ∧ _))

mutual

/-- A node and everything under it. -/
def subnodes : Node → List Node
  | .mk kind span children => .mk kind span children :: subnodesOfAll children

def subnodesOfAll : List Node → List Node
  | [] => []
  | n :: ns => subnodes n ++ subnodesOfAll ns

end

/-- What holds of a single node. -/
structure Proper (n : Node) : Prop where
  grammatical : n.isGrammatical = true
  covering : n.kind.coversTexts = true → ∀ f ∈ foundTexts n, n.span.Holds f.pos
  ordered : (Markup.rendered n).Pairwise InOrder

instance (n : Node) : Decidable n.Proper :=
  decidable_of_iff (n.isGrammatical = true ∧
      (n.kind.coversTexts = true → ∀ f ∈ foundTexts n, n.span.Holds f.pos) ∧
      (Markup.rendered n).Pairwise InOrder)
    ⟨fun h => ⟨h.1, h.2.1, h.2.2⟩, fun h => ⟨h.grammatical, h.covering, h.ordered⟩⟩

/-- The tree of a module: its nodes are proper, and no two elements have the same span. -/
structure WellFormed (tree : Node) : Prop where
  root : tree.kind = .module
  proper : ∀ n ∈ tree.subnodes, n.Proper
  distinct : ((tree.subnodes.filter Markup.isMarkup).map span).Nodup

instance (tree : Node) : Decidable tree.WellFormed :=
  decidable_of_iff (tree.kind = .module ∧ (∀ n ∈ tree.subnodes, n.Proper) ∧
      ((tree.subnodes.filter Markup.isMarkup).map span).Nodup)
    ⟨fun h => ⟨h.1, h.2.1, h.2.2⟩, fun h => ⟨h.root, h.proper, h.distinct⟩⟩

/-! ### Subtrees -/

theorem mem_subnodesOfAll {m : Node} {ns : List Node} :
    m ∈ subnodesOfAll ns ↔ ∃ n ∈ ns, m ∈ n.subnodes := by
  induction ns with
  | nil => simp [subnodesOfAll]
  | cons n ns ih => simp [subnodesOfAll, ih]

theorem mem_subnodes_self (n : Node) : n ∈ n.subnodes := by
  cases n
  simp [subnodes]

theorem subnodes_subset_of_mem {kind : Kind} {span : Span} {children : List Node} {c : Node}
    (h : c ∈ children) : c.subnodes ⊆ (Node.mk kind span children).subnodes := by
  intro m hm
  exact List.mem_cons_of_mem _ (mem_subnodesOfAll.mpr ⟨c, h, hm⟩)

theorem subnodes_subset_of_mem_children {n c : Node} (h : c ∈ n.children) :
    c.subnodes ⊆ n.subnodes := by
  cases n with
  | mk kind span children => exact subnodes_subset_of_mem h

end Node

/-- A text that is read, and whose module then passes a test. -/
theorem Source.exists_read {markup : Bool} {code : String} {P : Source → Prop} [DecidablePred P]
    (h : (Source.read markup code).toOption.any (fun source => decide (P source)) = true) :
    ∃ source, Source.read markup code = .ok source ∧ P source := by
  cases hread : Source.read markup code with
  | error fault => simp [hread, Except.toOption] at h
  | ok source => exact ⟨source, rfl, by simpa [hread, Except.toOption] using h⟩

end Phrasebook.Script
