import Phrasebook.Proofs.Coverage
import Phrasebook.Proofs.Offers

/-!
Where sites come from. A site that is offered belongs to a node that is found by going down the
tree, only through scopes that leave the lookup function visible and only into texts that are not
kept on purpose. Each node on the way is used in a role, on which it depends what it keeps.
-/
namespace Phrasebook

open Script Outline

variable {id : SiteId}

/-! ### Going down a tree -/

namespace Script

/-- How a node is used by the one above it: as an expression, visited where it stands, or as a
member of an object literal or the key of one. -/
inductive Role where
  | value
  | visited
  | member
deriving DecidableEq

namespace Kind

/-- Expressions that keep texts on purpose or are a scope, if they are evaluated. -/
def isEvaluated : Kind → Bool
  | .call | .construct | .binary .compare | .tagged | .arrow => true
  | _ => false

/-- Kinds that visit what they hold where it stands. -/
def isHolder : Kind → Bool
  | .bare | .attr | .object | .element | .fragment => true
  | _ => false

def isFunctionScope : Kind → Bool
  | .function | .arrow | .classConstructor | .getter | .setter => true
  | _ => false

def holdsItems : Kind → Bool
  | .module | .namespaceDecl _ => true
  | _ => false

/-- Kinds of which the residual scan enters every child. -/
def isScanned : Kind → Bool
  | .module | .namespaceDecl _ | .function | .arrow | .classConstructor | .getter | .setter | .call
  | .construct | .binary .compare | .member .computed | .computedKey | .switchCase true
  | .enumDecl _ | .tagged | .element | .text _ => false
  | _ => true

/-- Kinds that keep none of their children. -/
def entersAll : Kind → Bool
  | .call | .construct | .binary .compare | .switchCase true | .enumDecl _ | .element => false
  | _ => true

theorem entersAll_of_isScanned {k : Kind} (h : k.isScanned = true) : k.entersAll = true := by
  unfold entersAll
  split <;> first | rfl | cases h

theorem not_isEvaluated_of_not_isExpr {k : Kind} (h : ¬k.isExpr = true) :
    k.isEvaluated = false := by
  cases k <;> first | rfl | exact absurd rfl h

/-- Neither functions nor what holds items, which may hide a name from their parts. -/
def isOpen (k : Kind) : Bool := !k.isFunctionScope && !k.holdsItems

theorem isOpen_of_isScanned {k : Kind} (h : k.isScanned = true) : k.isOpen = true := by
  cases k <;> first | rfl | cases h

theorem isOpen_of_isHolder {k : Kind} (h : k.isHolder = true) : k.isOpen = true := by
  cases k <;> first | rfl | cases h

/-- Types that are not entered: those of calls, constructions and tagged templates, and those around
the parameters of an arrow function. -/
def skipsType : Kind → Kind → Bool
  | .call, child | .construct, child | .tagged, child => child.isType
  | .arrow, child => child == .typeParams || child == .ascription
  | _, _ => false

theorem skipsType_of_isScanned {k : Kind} (h : k.isScanned = true) (child : Kind) :
    k.skipsType child = false := by
  cases k <;> first | rfl | cases h

theorem skipsType_of_isHolder {k : Kind} (h : k.isHolder = true) (child : Kind) :
    k.skipsType child = false := by
  cases k <;> first | rfl | cases h

theorem skipsType_of_holdsItems {k : Kind} (h : k.holdsItems = true) (child : Kind) :
    k.skipsType child = false := by
  cases k <;> first | rfl | cases h

theorem skipsType_of_not_isType {k child : Kind} (h : child.isType = false) :
    k.skipsType child = false := by
  unfold skipsType
  split
  · exact h
  · exact h
  · exact h
  · cases child <;> first | rfl | cases h
  · rfl

/-- The role of a node that is visited on its own. -/
def visitRole (k : Kind) : Role := if k.isExpr then .value else .visited

/-- Nothing is special about the children of a node in this role. Object literals have members, and
these may keep their keys. -/
def isUniform : Kind → Role → Bool
  | .object, .value | .property, .member | .computedKey, .member => false
  | _, _ => true

/-- Member accesses keep a computed key in every role. -/
def isKeyed : Kind → Bool
  | .member .computed => true
  | _ => false

theorem isKeyed_eq_false {k : Kind} (f : Kind → Bool) (hf : f (.member .computed) = false)
    (h : f k = true) : k.isKeyed = false := by
  unfold isKeyed
  split
  · rw [hf] at h
    cases h
  · rfl

theorem isUniform_visited (k : Kind) : k.isUniform .visited = true := by
  cases k <;> rfl

/-- In the role `role` a node uses a child in the role `next`. -/
structure Turns (k : Kind) (role : Role) (child : Kind) (next : Role) : Prop where
  /-- An object literal is evaluated, unless it is held where it stands. -/
  object : child = .object → k.isHolder = false → next = .value
  members : k = .object → role = .value → next = .member

namespace Turns

variable {k child : Kind} {role next : Role}

theorem value (h : k.isUniform role = true) : k.Turns role child .value :=
  ⟨fun _ _ => rfl, fun hk hrole => by subst hk hrole; cases h⟩

theorem visit (h : k.isUniform role = true) : k.Turns role child child.visitRole :=
  ⟨fun hchild _ => by rw [hchild]; rfl, fun hk hrole => by subst hk hrole; cases h⟩

theorem key : Kind.computedKey.Turns role child child.visitRole :=
  ⟨fun hchild _ => by rw [hchild]; rfl, by simp⟩

theorem held (hholder : k.isHolder = true) (h : k.isUniform role = true) :
    k.Turns role child next :=
  ⟨fun _ hnot => absurd hnot (by simp [hholder]), fun hk hrole => by subst hk hrole; cases h⟩

end Turns

end Kind

namespace Node

/-- Nothing that needs evaluation is held where it would only be visited. -/
def isPlain (n : Node) : Bool :=
  n.children.all fun c =>
    !(n.kind.isHolder && c.kind.isEvaluated) && !(n.kind == .tagged && c.kind == .spread)

/-- A string or slotless template with a text of its own, in parentheses or not. -/
def isBareText : Node → Bool
  | .mk (.string (some _)) _ [] => true
  | .mk (.template pieces) _ [] => pieces.all fun p => p.cooked.isSome
  | .mk .paren _ [e] => e.isBareText
  | _ => false

/-- A computed key that is a bare text. -/
def isTextKey : Node → Bool
  | .mk .computedKey _ [key] => key.isBareText
  | _ => false

/-- The children of a node without a bare text that is its key: that of a member access, and that of
a property in the role of a member. -/
def walked (role : Role) : Node → List Node
  | .mk (.member .computed) _ [object, key] => if key.isBareText then [object] else [object, key]
  | .mk .property _ [key, value] =>
    if role = .member ∧ key.isTextKey then [value] else [key, value]
  | .mk .computedKey _ [key] => if role = .member ∧ key.isBareText then [] else [key]
  | n => n.children

theorem walked_eq_children {role : Role} {n : Node} (hrole : n.kind.isUniform role = true)
    (hkind : n.kind.isKeyed = false) : n.walked role = n.children := by
  unfold walked
  split
  · cases hkind
  · rw [if_neg]
    · rfl
    · rintro ⟨rfl, -⟩
      cases hrole
  · rw [if_neg]
    · rfl
    · rintro ⟨rfl, -⟩
      cases hrole
  · rfl

/-- From a node in one role into a child in another. -/
structure Leads (n : Node) (role : Role) (c : Node) (next : Role) : Prop where
  walked : c ∈ n.walked role
  enters : n.kind.skipsType c.kind = false
  turns : n.kind.Turns role c.kind next

theorem Leads.of_child {role next : Role} {n c : Node} (hrole : n.kind.isUniform role = true)
    (hkind : n.kind.isKeyed = false) (hc : c ∈ n.children)
    (henters : n.kind.skipsType c.kind = false) (hturns : n.kind.Turns role c.kind next) :
    n.Leads role c next :=
  ⟨walked_eq_children hrole hkind ▸ hc, henters, hturns⟩

/-- An element whose content is never touched. -/
def isRaw : Node → Bool
  | .mk .element _ (opening :: _) => isRawOpening opening
  | _ => false

/-- From a node into its child `name` stays visible, as far as functions and items are checked. -/
structure Shows (name : String) (n c : Node) : Prop where
  function : n.kind.isFunctionScope = true → functionBinds name n.kind n.children = false
  item : n.kind.holdsItems = true → itemBinds name c = false

theorem Shows.of_isOpen {name : String} {n c : Node} (h : n.kind.isOpen = true) :
    n.Shows name c := by
  simp only [Kind.isOpen, Bool.and_eq_true, Bool.not_eq_true'] at h
  exact ⟨fun hf => absurd hf (by simp [h.1]), fun hi => absurd hi (by simp [h.2])⟩

/-- The site takes the place of a text that is the node itself. -/
inductive Carries : Node → SiteId → Prop where
  | string {value : Option String} {span : Span} {cs : List Node} :
      Carries (.mk (.string value) span cs) ⟨span, .literal⟩
  | attribute {value : String} {span : Span} {cs : List Node} :
      Carries (.mk (.attrText value) span cs) ⟨span, .literal⟩
  | template {pieces : List Piece} {span : Span} {cs : List Node} :
      Carries (.mk (.template pieces) span cs) ⟨span, .interpolated⟩
  | chain {span : Span} {cs : List Node} :
      Carries (.mk (.binary .add) span cs) ⟨span, .interpolated⟩
  | text {value : String} {span : Span} {cs : List Node} :
      Carries (.mk (.text value) span cs) ⟨span, .markupText⟩

end Node

end Script

/-- The children of a node, those that are entered apart from those that are kept: calls that load a
module, look a text up or are skipped, enumerations, the content of raw elements, and texts that
something is compared with. -/
def Options.parted (o : Options) : Node → List Node × List Node
  | .mk .call _ (callee :: args) =>
    if o.keepsArguments callee then ([], callee :: args) else (callee :: args, [])
  | .mk .construct _ (callee :: args) =>
    if o.keepsConstruction callee then ([], callee :: args) else (callee :: args, [])
  | .mk (.binary .compare) _ operands => operands.partition fun e => !e.isBareText
  | .mk (.switchCase true) _ (test :: body) =>
    if test.isBareText then (body, [test]) else (test :: body, [])
  | .mk (.enumDecl _) _ members => ([], members)
  | .mk .element _ (opening :: kids) =>
    if isRawOpening opening then ([opening], kids) else (opening :: kids, [])
  | .mk _ _ children => (children, [])

def Options.entered (o : Options) (n : Node) : List Node := (o.parted n).1

def Options.kept (o : Options) (n : Node) : List Node := (o.parted n).2

theorem Options.perm_children (o : Options) (n : Node) :
    (o.entered n ++ o.kept n).Perm n.children := by
  unfold entered kept parted
  split
  · split
    · exact .refl _
    · exact .of_eq (List.append_nil _)
  · split
    · exact .refl _
    · exact .of_eq (List.append_nil _)
  · rw [List.partition_eq_filter_filter]
    exact List.filter_append_perm _ _
  · split
    · exact List.perm_append_singleton _ _
    · exact .of_eq (List.append_nil _)
  · exact .refl _
  · split
    · exact .refl _
    · exact .of_eq (List.append_nil _)
  · exact .of_eq (List.append_nil _)

theorem Options.entered_subset (o : Options) (n : Node) : o.entered n ⊆ n.children := fun _ hc =>
  (o.perm_children n).subset (List.mem_append_left _ hc)

theorem Options.mem_entered (o : Options) {n c : Node} (h : n.kind.entersAll = true)
    (hc : c ∈ n.children) : c ∈ o.entered n := by
  unfold entered parted
  split <;> first | cases h | exact hc

theorem residual_of_isScanned {o : Options} {isData : Bool} {kind : Kind} {span : Span}
    {ns : List Node} (h : kind.isScanned = true) : residual o isData (.mk kind span ns) =
      foundLeaf kind span.lo ++ residualAll o isData ns := by
  unfold residual
  split <;> first | cases h | rfl

theorem residual_string_ne_nil {o : Options} {isData : Bool} {value : String} {span : Span}
    {ns : List Node} (h : Text.hasTarget value = true) :
    residual o isData (.mk (.string (some value)) span ns) ≠ [] := by
  rw [residual_of_isScanned rfl]
  simp [foundLeaf, foundIf, h]

/-- A site is found by going down from a node in some role. Each step leads into a child that is not
kept, in which the lookup function is visible and whose texts would be missed, or into a computed
key. At the end there is a text, or a run of markup children. -/
inductive Setting.Descends (s : Setting) (id : SiteId) : Role → Node → Prop where
  | text {role : Role} {n : Node} : n.Carries id → s.missed n ≠ [] → Descends s id role n
  | run {role : Role} {n : Node} {r : Markup.Run} {span : Span} : Markup.isMarkup n = true →
      n.isRaw = false → r ∈ s.plan.runsFor n.span → r.span (Markup.rendered n) = some span →
      id = ⟨span, .markupText⟩ → (∀ c ∈ Markup.rendered n, s.missed c ⊆ s.missed n) →
      Descends s id role n
  | key {role next : Role} {n c : Node} : n.kind = .computedKey → c ∈ n.children →
      n.Leads role c next → Descends s id next c → Descends s id role n
  | down {role next : Role} {n c : Node} : c ∈ s.options.entered n → n.Leads role c next →
      n.Shows s.options.lookupFunction c → s.missed c ⊆ s.missed n → Descends s id next c →
      Descends s id role n

theorem staticText_of_cooked {pieces : List Piece} (h : ∀ p ∈ pieces, p.cooked.isSome = true) :
    staticText pieces = cookedText pieces := by
  unfold staticText cookedText
  congr 1
  induction pieces with
  | nil => rfl
  | cons p pieces ih =>
    obtain ⟨text, htext⟩ := Option.isSome_iff_exists.mp (h p (List.mem_cons_self ..))
    rw [List.map_cons, List.filterMap_cons_some htext, Piece.text, htext,
      ih fun q hq => h q (List.mem_cons_of_mem _ hq)]
    rfl

theorem residual_of_isBareText {o : Options} {isData : Bool} {n : Node} (h : n.isBareText = true)
    (hnone : literalTarget n = none) : residual o isData n = [] := by
  fun_induction Node.isBareText n with
  | case1 value span =>
    have htarget : Text.hasTarget value = false := by simpa [literalTarget] using hnone
    rw [residual_of_isScanned rfl]
    simp [foundLeaf, foundIf, htarget, residualAll]
  | case2 pieces span =>
    have htarget : Text.hasTarget (cookedText pieces) = false := by
      simpa [literalTarget] using hnone
    have hcooked := staticText_of_cooked (List.all_eq_true.mp h)
    rw [residual_of_isScanned rfl]
    simp [foundLeaf, foundIf, hcooked, htarget, residualAll]
  | case3 span e ih =>
    rw [literalTarget] at hnone
    rw [residual_of_isScanned rfl]
    simp [foundLeaf, residualAll, ih h hnone]
  | case4 => cases h

/-- No site is a bare text without a target, or within one. -/
theorem Setting.Descends.not_isBareText {s : Setting} {role : Role} {n : Node}
    (h : s.Descends id role n)
    (hnone : literalTarget n = none) : n.isBareText = false := by
  rw [Bool.eq_false_iff]
  intro hbare
  induction h with
  | text _ hmissed => exact hmissed (residual_of_isBareText hbare hnone)
  | @run _ n _ _ hmarkup =>
    unfold Node.isBareText at hbare
    split at hbare <;> first | cases hmarkup | cases hbare
  | @key _ _ n _ hkind =>
    unfold Node.isBareText at hbare
    split at hbare <;> first | cases hkind | cases hbare
  | @down _ _ n c hc _ _ _ hd ih =>
    unfold Node.isBareText at hbare
    split at hbare
    · cases hc
    · cases hc
    · rename_i span e
      cases List.mem_singleton.mp hc
      exact ih (by rwa [literalTarget] at hnone) hbare
    · cases hbare

/-- Whichever way the node above uses this child, a site offered there is found by going down from
it. What needs evaluation is only used as an expression. -/
structure Child.Traced (s : Setting) (id : SiteId) (c : Child) : Prop where
  expr : ∀ depth, (c.views.expr depth).Offers id → s.Descends id .value c.node
  inner : c.kind.isEvaluated = false → StepsOffer id (c.views.inner ()) →
    s.Descends id .visited c.node
  slots : ∀ depth, ∀ v ∈ c.views.slots depth, v.Offers id → s.Descends id .value c.node
  member : c.kind.isEvaluated = false → ∀ depth, StepsOffer id (c.views.member depth) →
    s.Descends id .member c.node

namespace Child

variable {s : Setting} {c : Child}

theorem Traced.replaced (h : c.Traced s id) {depth : Nat} (ho : (c.replaced depth).Offers id) :
    s.Descends id .value c.node := by
  unfold Child.replaced at ho
  split at ho
  · exact h.expr depth (Step.offers_replace.mp ho)
  · exact h.expr depth (Step.offers_replace.mp ho)

theorem Traced.visit (h : c.Traced s id) (ho : StepsOffer id c.visit) :
    s.Descends id c.kind.visitRole c.node := by
  unfold Child.visit at ho
  unfold Kind.visitRole
  split at ho
  · rename_i hexpr
    rw [if_pos hexpr]
    exact h.replaced (stepsOffer_singleton.mp ho)
  · rename_i hexpr
    rw [if_neg hexpr]
    exact h.inner (Kind.not_isEvaluated_of_not_isExpr hexpr) ho

/-- What is offered past a kept literal is no literal. -/
theorem of_unlessLiteral {reason : Reason} {otherwise : List Step}
    (ho : StepsOffer id (Setting.unlessLiteral reason c otherwise)) :
    literalTarget c.node = none ∧ StepsOffer id otherwise := by
  unfold Setting.unlessLiteral at ho
  cases hliteral : literalTarget c.node with
  | some found => simp [hliteral] at ho
  | none => exact ⟨rfl, by simpa [hliteral] using ho⟩

end Child

namespace Setting

/-- A node whose children are traced. -/
structure OutlinedAt (s : Setting) (id : SiteId) (kind : Kind) (span : Span) (cs : List Child) :
    Prop where
  plain : (Node.mk kind span (cs.map (·.1))).isPlain = true
  traced : ∀ c ∈ cs, c.Traced s id

variable {s : Setting} {role next : Role} {kind : Kind} {span : Span} {cs : List Child} {c : Child}

namespace OutlinedAt

theorem not_isEvaluated (h : s.OutlinedAt id kind span cs) (hkind : kind.isHolder = true)
    (hc : c ∈ cs) : c.kind.isEvaluated = false := by
  have hplain := h.plain
  simp only [Node.isPlain, Node.children, Node.kind, hkind, List.all_map, List.all_eq_true]
    at hplain
  have hheld := hplain c hc
  simp only [Function.comp, Bool.true_and, Bool.and_eq_true, Bool.not_eq_true'] at hheld
  exact hheld.1

/-- Down into a child of a node that the residual scan enters as a whole. -/
theorem scanned (hkind : kind.isScanned = true) (hc : c ∈ cs)
    (hleads : (Node.mk kind span (cs.map (·.1))).Leads role c.node next)
    (hd : s.Descends id next c.node) : s.Descends id role (.mk kind span (cs.map (·.1))) := by
  have hmem : c.node ∈ cs.map (·.1) := List.mem_map_of_mem hc
  have hentered : c.node ∈ s.options.entered (.mk kind span (cs.map (·.1))) :=
    s.options.mem_entered (Kind.entersAll_of_isScanned hkind) hmem
  refine .down hentered hleads (.of_isOpen (Kind.isOpen_of_isScanned hkind)) ?_ hd
  intro f hf
  rw [missed, residual_of_isScanned hkind]
  exact List.mem_append_right _ (mem_residualAll.mpr ⟨c.node, hmem, hf⟩)

theorem uniform (hkind : kind.isScanned = true) (hrole : kind.isUniform role = true) (hc : c ∈ cs)
    (hturns : kind.Turns role c.kind next) (hd : s.Descends id next c.node) :
    s.Descends id role (.mk kind span (cs.map (·.1))) := by
  have hkeyed := Kind.isKeyed_eq_false Kind.isScanned rfl hkind
  have henters := Kind.skipsType_of_isScanned hkind c.kind
  exact scanned hkind hc (.of_child hrole hkeyed (List.mem_map_of_mem hc) henters hturns) hd

theorem visitAll_scanned (h : s.OutlinedAt id kind span cs) (hkind : kind.isScanned = true)
    (hrole : kind.isUniform role = true) (ho : StepsOffer id (visitAll cs)) :
    s.Descends id role (.mk kind span (cs.map (·.1))) := by
  obtain ⟨c, hc, ho⟩ := stepsOffer_flatMap.mp ho
  exact uniform hkind hrole hc (.visit hrole) ((h.traced c hc).visit ho)

/-- Down into a function that does not hide the lookup function. -/
theorem function_traced (hkind : kind.isFunctionScope = true)
    (hresidual : s.missed (.mk kind span (cs.map (·.1))) =
      if functionBinds s.options.lookupFunction kind (cs.map (·.1)) then []
      else residualAll s.options s.file.isData (cs.map (·.1)))
    (hbinds : functionBinds s.options.lookupFunction kind (cs.map (·.1)) = false)
    (hc : c ∈ cs) (henters : kind.skipsType c.kind = false) (hturns : kind.Turns role c.kind next)
    (hd : s.Descends id next c.node) : s.Descends id role (.mk kind span (cs.map (·.1))) := by
  have hmem : c.node ∈ cs.map (·.1) := List.mem_map_of_mem hc
  have hkeyed := Kind.isKeyed_eq_false Kind.isFunctionScope rfl hkind
  obtain ⟨hall, hitems, hrole⟩ : kind.entersAll = true ∧ kind.holdsItems = false ∧
      kind.isUniform role = true := by
    cases kind <;> first | exact ⟨rfl, rfl, rfl⟩ | cases hkind
  have hentered : c.node ∈ s.options.entered (.mk kind span (cs.map (·.1))) :=
    s.options.mem_entered hall hmem
  refine .down hentered (.of_child hrole hkeyed hmem henters hturns)
    ⟨fun _ => hbinds, fun hi => ?_⟩ ?_ hd
  · rw [Node.kind, hitems] at hi
    cases hi
  · intro f hf
    rw [hresidual, hbinds]
    exact mem_residualAll.mpr ⟨c.node, hmem, hf⟩

theorem items_traced (h : s.OutlinedAt id kind span cs) (hkind : kind.holdsItems = true)
    (hresidual : s.missed (.mk kind span (cs.map (·.1))) =
      residualItems s.options s.file.isData (cs.map (·.1)))
    (ho : StepsOffer id (cs.map (item s))) :
    s.Descends id role (.mk kind span (cs.map (·.1))) := by
  obtain ⟨c, hc, ho⟩ := stepsOffer_map.mp ho
  obtain ⟨hbinds, ho⟩ := Step.offers_scope.mp ho
  have hmem : c.node ∈ cs.map (·.1) := List.mem_map_of_mem hc
  have hkeyed := Kind.isKeyed_eq_false Kind.holdsItems rfl hkind
  obtain ⟨hall, hfunction, hrole⟩ : kind.entersAll = true ∧ kind.isFunctionScope = false ∧
      kind.isUniform role = true := by
    cases kind <;> first | exact ⟨rfl, rfl, rfl⟩ | cases hkind
  have hentered : c.node ∈ s.options.entered (.mk kind span (cs.map (·.1))) :=
    s.options.mem_entered hall hmem
  have henters := Kind.skipsType_of_holdsItems hkind c.kind
  refine .down hentered (.of_child hrole hkeyed hmem henters (.visit hrole))
    ⟨fun hf => ?_, fun _ => hbinds⟩ ?_ ((h.traced c hc).visit ho)
  · rw [Node.kind, hfunction] at hf
    cases hf
  · intro f hf
    rw [hresidual]
    exact mem_residualItems.mpr ⟨c.node, hmem, hbinds, hf⟩

/-! ### Markup -/

/-- The slots of a run are containers among the children. -/
theorem mem_runSlots {r : Markup.Run} {all : List Child} {v : Value} (hv : v ∈ runSlots r all) :
    ∃ c ∈ all, v = c.views.expr 1 := by
  obtain ⟨part, -, hpart⟩ := List.mem_filterMap.mp hv
  cases part with
  | text text => cases hpart
  | expr i =>
    cases hget : all[i]? with
    | none => simp [hget] at hpart
    | some c =>
      simp only [hget] at hpart
      split at hpart
      · rename_i heq
        cases heq
        cases hpart
        exact ⟨_, List.mem_of_getElem? hget, rfl⟩
      · cases hpart

/-- Children are offered by the run they are in, or on their own. -/
theorem childrenFrom_offers {runs : List Markup.Run} {all : List Child} (rest : List Child)
    {index resume : Nat} (ho : StepsOffer id (childrenFrom runs all index resume rest)) :
    (∃ r ∈ runs, StepsOffer id (run r all)) ∨ ∃ c ∈ rest, StepsOffer id (c.views.inner ()) := by
  induction rest generalizing index resume with
  | nil => simp [childrenFrom] at ho
  | cons d rest ih =>
    have hlater : ∀ {index resume}, StepsOffer id (childrenFrom runs all index resume rest) →
        (∃ r ∈ runs, StepsOffer id (run r all)) ∨
          ∃ c ∈ d :: rest, StepsOffer id (c.views.inner ()) := by
      intro index resume ho
      refine (ih ho).imp_right ?_
      rintro ⟨c, hc, ho⟩
      exact ⟨c, List.mem_cons_of_mem _ hc, ho⟩
    simp only [childrenFrom] at ho
    split at ho
    · exact hlater ho
    · split at ho
      · rename_i r hfind
        rcases stepsOffer_append.mp ho with ho | ho
        · exact .inl ⟨r, List.mem_of_find?_eq_some hfind, ho⟩
        · exact hlater ho
      · rcases stepsOffer_append.mp ho with ho | ho
        · exact .inr ⟨d, List.mem_cons_self .., ho⟩
        · exact hlater ho

theorem markup_traced (h : s.OutlinedAt id kind span cs) {kids : List Child}
    (hholder : kind.isHolder = true) (hrole : kind.isUniform role = true)
    (hmarkup : Markup.isMarkup (.mk kind span (cs.map (·.1))) = true)
    (hraw : (Node.mk kind span (cs.map (·.1))).isRaw = false)
    (hkids : Markup.rendered (.mk kind span (cs.map (·.1))) = kids.map (·.1)) (hsub : kids ⊆ cs)
    (hentered : ∀ c ∈ kids, c.node ∈ s.options.entered (.mk kind span (cs.map (·.1))))
    (hdown : ∀ c ∈ kids, s.missed c.node ⊆ s.missed (.mk kind span (cs.map (·.1))))
    (ho : StepsOffer id (markupChildren s span kids)) :
    s.Descends id role (.mk kind span (cs.map (·.1))) := by
  have hkeyed := Kind.isKeyed_eq_false Kind.isHolder rfl hholder
  have hinto : ∀ c ∈ kids, ∀ next, s.Descends id next c.node →
      s.Descends id role (.mk kind span (cs.map (·.1))) := by
    intro c hc next hd
    have hleads : (Node.mk kind span (cs.map (·.1))).Leads role c.node next :=
      .of_child hrole hkeyed (List.mem_map_of_mem (hsub hc)) (Kind.skipsType_of_isHolder hholder _)
        (.held hholder hrole)
    exact .down (hentered c hc) hleads (.of_isOpen (Kind.isOpen_of_isHolder hholder)) (hdown c hc)
      hd
  rcases childrenFrom_offers kids ho with ⟨r, hr, ho⟩ | ⟨c, hc, ho⟩
  · simp only [run] at ho
    split at ho
    · rename_i span' hspan
      rcases Step.offers_braced.mp (stepsOffer_singleton.mp ho) with hid | ⟨v, hv, ho⟩
      · refine .run hmarkup hraw hr (hkids ▸ hspan) hid ?_
        rw [hkids]
        intro n hn
        obtain ⟨c, hc, rfl⟩ := List.mem_map.mp hn
        exact hdown c hc
      · obtain ⟨c, hc, rfl⟩ := mem_runSlots hv
        exact hinto c hc _ ((h.traced c (hsub hc)).expr 1 ho)
    · simp at ho
  · exact hinto c hc _ ((h.traced c (hsub hc)).inner (h.not_isEvaluated hholder (hsub hc)) ho)

theorem element_traced {opening : Child} {kids : List Child}
    (h : s.OutlinedAt id .element span (opening :: kids))
    (ho : StepsOffer id (opening.visit ++
      if isRawOpening opening.node then [] else markupChildren s span kids)) :
    s.Descends id role (.mk .element span ((opening :: kids).map (·.1))) := by
  rcases stepsOffer_append.mp ho with ho | ho
  · have hd := (h.traced opening (List.mem_cons_self ..)).visit ho
    have hentered : opening.node ∈
        s.options.entered (.mk .element span ((opening :: kids).map (·.1))) := by
      simp only [Options.entered, Options.parted, List.map_cons]
      split <;> exact List.mem_cons_self ..
    refine .down hentered (.of_child rfl rfl (List.mem_cons_self ..) rfl (.visit rfl))
      (.of_isOpen rfl) ?_ hd
    intro f hf
    rw [missed, List.map_cons, residual]
    exact List.mem_append_left _ hf
  · by_cases hraw : isRawOpening opening.node
    · simp [hraw] at ho
    · rw [if_neg hraw] at ho
      have hopen : isRawOpening opening.1 = false := Bool.eq_false_iff.mpr hraw
      refine h.markup_traced rfl rfl rfl hopen rfl (List.subset_cons_self _ _) ?_ ?_ ho
      · intro c hc
        simp only [Options.entered, Options.parted, List.map_cons, hopen, Bool.false_eq_true,
          if_false]
        exact List.mem_cons_of_mem _ (List.mem_map_of_mem hc)
      intro c hc f hf
      have hkept : ¬isRawOpening opening.1 = true := hraw
      rw [missed, List.map_cons, residual, if_neg hkept]
      exact List.mem_append_right _ (mem_residualAll.mpr ⟨c.node, List.mem_map_of_mem hc, hf⟩)

theorem fragment_traced (h : s.OutlinedAt id .fragment span cs)
    (ho : StepsOffer id (markupChildren s span cs)) :
    s.Descends id role (.mk .fragment span (cs.map (·.1))) := by
  refine h.markup_traced rfl rfl rfl rfl rfl (List.Subset.refl cs)
    (fun c hc => List.mem_map_of_mem hc) ?_ ho
  intro c hc f hf
  rw [missed, residual_of_isScanned rfl]
  exact List.mem_append_right _ (mem_residualAll.mpr ⟨c.node, List.mem_map_of_mem hc, hf⟩)

/-- Markup text that is offered would be missed. -/
theorem markupText_traced {value : String} (ho : StepsOffer id (markupText s span value)) :
    s.Descends id role (.mk (.text value) span (cs.map (·.1))) := by
  unfold Setting.markupText at ho
  simp only at ho
  split at ho
  · simp at ho
  · rename_i htarget
    split at ho
    · simp at ho
    · rename_i hdata
      rw [Bool.not_eq_true, Bool.not_eq_false', Text.hasTarget_trim] at htarget
      have hid : id = ⟨span, .markupText⟩ := by simpa using ho
      rw [hid]
      refine .text .text ?_
      rw [missed, residual, if_neg hdata]
      simp [foundInText, htarget]

theorem attributeText_traced {value : String} (ho : StepsOffer id (attributeText span value)) :
    s.Descends id role (.mk (.attrText value) span (cs.map (·.1))) := by
  unfold Setting.attributeText at ho
  split at ho
  · rename_i htarget
    have hid : id = ⟨span, .literal⟩ := by simpa using ho
    rw [hid]
    refine .text .attribute ?_
    rw [missed, residual_of_isScanned rfl]
    simp [foundLeaf, foundIf, htarget]
  · simp at ho

/-! ### Nodes visited where they stand -/

theorem keyedMember_traced {object key : Child}
    (h : s.OutlinedAt id (.member .computed) span [object, key])
    (ho : StepsOffer id (object.visit ++ keptKey key)) :
    s.Descends id role (.mk (.member .computed) span [object.1, key.1]) := by
  rcases stepsOffer_append.mp ho with ho | ho
  · have hd := (h.traced object (by simp)).visit ho
    have hwalked : object.1 ∈ (Node.mk (.member .computed) span [object.1, key.1]).walked role := by
      simp only [Node.walked]
      split <;> exact List.mem_cons_self ..
    refine .down (List.mem_cons_self ..) ⟨hwalked, rfl, .visit rfl⟩ (.of_isOpen rfl) ?_ hd
    intro f hf
    rw [missed, residual]
    exact List.mem_append_left _ hf
  · obtain ⟨hnone, ho⟩ := Child.of_unlessLiteral ho
    have hd := (h.traced key (by simp)).visit ho
    have hbare : key.1.isBareText = false := hd.not_isBareText hnone
    have hwalked : key.1 ∈ (Node.mk (.member .computed) span [object.1, key.1]).walked role := by
      simp [Node.walked, hbare]
    refine .down (List.mem_cons_of_mem _ (List.mem_singleton_self _)) ⟨hwalked, rfl, .visit rfl⟩
      (.of_isOpen rfl) ?_ hd
    intro f hf
    rw [missed, residual]
    exact List.mem_append_right _
      (mem_residualUnkept.mpr ⟨key.node, List.mem_singleton_self _, hnone, hf⟩)

theorem switchCase_traced {test : Child} {body : List Child}
    (h : s.OutlinedAt id (.switchCase true) span (test :: body))
    (ho : StepsOffer id (unlessLiteral .comparison test test.visit ++ visitAll body)) :
    s.Descends id role (.mk (.switchCase true) span (test.1 :: body.map (·.1))) := by
  rcases stepsOffer_append.mp ho with ho | ho
  · obtain ⟨hnone, ho⟩ := Child.of_unlessLiteral ho
    have hd := (h.traced test (List.mem_cons_self ..)).visit ho
    have hbare : test.1.isBareText = false := hd.not_isBareText hnone
    have hentered : test.1 ∈
        s.options.entered (.mk (.switchCase true) span (test.1 :: body.map (·.1))) := by
      simp [Options.entered, Options.parted, hbare]
    refine .down hentered (.of_child rfl rfl (List.mem_cons_self ..) rfl (.visit rfl))
      (.of_isOpen rfl) ?_ hd
    intro f hf
    have hkept : literalTarget test.1 = none := hnone
    rw [missed, residual, hkept]
    exact List.mem_append_left _ hf
  · obtain ⟨c, hc, ho⟩ := stepsOffer_flatMap.mp ho
    have hd := (h.traced c (List.mem_cons_of_mem _ hc)).visit ho
    have hmem : c.node ∈ body.map (·.1) := List.mem_map_of_mem hc
    have hentered : c.node ∈
        s.options.entered (.mk (.switchCase true) span (test.1 :: body.map (·.1))) := by
      simp only [Options.entered, Options.parted]
      split
      · exact hmem
      · exact List.mem_cons_of_mem _ hmem
    refine .down hentered (.of_child rfl rfl (List.mem_cons_of_mem _ hmem) rfl (.visit rfl))
      (.of_isOpen rfl) ?_ hd
    intro f hf
    rw [missed, residual]
    exact List.mem_append_right _ (mem_residualAll.mpr ⟨c.node, hmem, hf⟩)

/-- Other children than an object and its key are all entered. -/
theorem computedMember_traced (h : s.OutlinedAt id (.member .computed) span cs)
    (ho : StepsOffer id (inner s (.member .computed) span cs)) :
    s.Descends id role (.mk (.member .computed) span (cs.map (·.1))) := by
  have hall (hresidual : s.missed (.mk (.member .computed) span (cs.map (·.1))) =
        residualAll s.options s.file.isData (cs.map (·.1)))
      (hwalked : (Node.mk (.member .computed) span (cs.map (·.1))).walked role = cs.map (·.1))
      (ho : StepsOffer id (visitAll cs)) :
      s.Descends id role (.mk (.member .computed) span (cs.map (·.1))) := by
    obtain ⟨c, hc, ho⟩ := stepsOffer_flatMap.mp ho
    have hmem : c.node ∈ cs.map (·.1) := List.mem_map_of_mem hc
    refine .down hmem ⟨by rwa [hwalked], rfl, .visit rfl⟩ (.of_isOpen rfl) ?_ ((h.traced c hc).visit ho)
    intro f hf
    rw [hresidual]
    exact mem_residualAll.mpr ⟨c.node, hmem, hf⟩
  match cs, h, ho, hall with
  | [], _, ho, hall => exact hall rfl rfl ho
  | [_], _, ho, hall => exact hall rfl rfl ho
  | [_, _], h, ho, _ => exact h.keyedMember_traced ho
  | _ :: _ :: _ :: _, _, ho, hall => exact hall rfl rfl ho

/-- All children of a computed key are entered, unless it keeps the only one. -/
theorem computedKey_traced (h : s.OutlinedAt id .computedKey span cs)
    (hwalked : (Node.mk .computedKey span (cs.map (·.1))).walked role = cs.map (·.1))
    (ho : StepsOffer id (visitAll cs)) :
    s.Descends id role (.mk .computedKey span (cs.map (·.1))) := by
  obtain ⟨c, hc, ho⟩ := stepsOffer_flatMap.mp ho
  have hmem : c.node ∈ cs.map (·.1) := List.mem_map_of_mem hc
  exact .key rfl hmem ⟨by rwa [hwalked], rfl, .key⟩ ((h.traced c hc).visit ho)

theorem inner_traced (h : s.OutlinedAt id kind span cs) (hkind : kind.isEvaluated = false)
    (hrole : kind.isUniform role = true) (ho : StepsOffer id (inner s kind span cs)) :
    s.Descends id role (.mk kind span (cs.map (·.1))) := by
  cases kind with
  | module | namespaceDecl => exact h.items_traced rfl (by simp only [missed, residual]) ho
  | function | classConstructor | getter | setter =>
    obtain ⟨hbinds, ho⟩ := Step.offers_scope.mp (stepsOffer_singleton.mp ho)
    obtain ⟨c, hc, ho⟩ := stepsOffer_flatMap.mp ho
    exact function_traced rfl (by simp only [missed, residual]) hbinds hc rfl (.visit rfl)
      ((h.traced c hc).visit ho)
  | field isStatic =>
    refine h.visitAll_scanned rfl rfl ?_
    cases isStatic with
    | true =>
      cases cs with
      | nil => simp [inner, staticField] at ho
      | cons key rest => simpa [inner, staticField] using ho
    | false => simpa [inner] using ho
  | member access =>
    cases access with
    | computed => exact h.computedMember_traced ho
    | name | hidden => exact h.visitAll_scanned rfl rfl ho
  | enumDecl => simp [inner] at ho
  | switchCase hasTest =>
    cases hasTest with
    | true =>
      cases cs with
      | nil => simp [inner, visitAll] at ho
      | cons test body => exact h.switchCase_traced ho
    | false => exact h.visitAll_scanned rfl rfl ho
  | element =>
    cases cs with
    | nil => simp [inner, visitAll] at ho
    | cons opening kids => exact h.element_traced ho
  | fragment => exact h.fragment_traced ho
  | text => exact markupText_traced ho
  | attrText => exact attributeText_traced ho
  | attr | bare =>
    obtain ⟨c, hc, ho⟩ := stepsOffer_flatMap.mp ho
    exact uniform rfl rfl hc (.held rfl rfl) ((h.traced c hc).inner (h.not_isEvaluated rfl hc) ho)
  | declarator =>
    refine h.visitAll_scanned rfl rfl ?_
    cases cs with
    | nil => simp [inner, declarator] at ho
    | cons pattern init => simpa [inner, declarator] using ho
  | exportDefault | functionDecl | functionExpr | classDecl | classExpr =>
    exact h.visitAll_scanned rfl rfl (by simpa [inner] using ho)
  | computedKey => exact h.computedKey_traced (Node.walked_eq_children hrole rfl) ho
  | binary op =>
    cases op with
    | compare => cases hkind
    | add | other => exact h.visitAll_scanned rfl rfl ho
  | call | construct | tagged | arrow => cases hkind
  | _ => exact h.visitAll_scanned rfl hrole ho

/-! ### Expressions -/

theorem rebuilt_traced (h : s.OutlinedAt id kind span cs) {parts : List Child} (hsub : parts ⊆ cs)
    {depth : Nat} (ho : (rebuilt span parts depth).Offers id) :
    ∃ c ∈ parts, s.Descends id .value c.node := by
  obtain ⟨c, hc, ho⟩ := stepsOffer_map.mp (Value.offers_rebuild.mp ho)
  exact ⟨c, hc, (h.traced c (hsub hc)).replaced ho⟩

theorem operands_traced (h : s.OutlinedAt id kind span cs) (hkind : kind.isScanned = true)
    (hrole : kind.isUniform role = true) {depth : Nat} (ho : (rebuilt span cs depth).Offers id) :
    s.Descends id role (.mk kind span (cs.map (·.1))) := by
  obtain ⟨c, hc, hd⟩ := h.rebuilt_traced (List.Subset.refl cs) ho
  exact uniform hkind hrole hc (.value hrole) hd

/-- A string that is offered would be missed. -/
theorem literal_traced {value : Option String} {children : List Node}
    (ho : (literal span value).Offers id) :
    s.Descends id role (.mk (.string value) span children) := by
  cases value with
  | none => cases ho
  | some text =>
    unfold literal at ho
    simp only at ho
    split at ho
    · rename_i htarget
      have hid : id = ⟨span, .literal⟩ := by simpa using ho
      rw [hid]
      exact .text .string (residual_string_ne_nil htarget)
    · cases ho

theorem comparison_traced (h : s.OutlinedAt id (.binary .compare) span cs) {depth : Nat}
    (ho : (comparison span cs depth).Offers id) :
    s.Descends id role (.mk (.binary .compare) span (cs.map (·.1))) := by
  obtain ⟨c, hc, ho⟩ := stepsOffer_flatMap.mp (Value.offers_rebuild.mp ho)
  obtain ⟨hnone, ho⟩ := Child.of_unlessLiteral ho
  have hmem : c.node ∈ cs.map (·.1) := List.mem_map_of_mem hc
  have hd := (h.traced c hc).replaced (stepsOffer_singleton.mp ho)
  have hentered : c.node ∈ s.options.entered (.mk (.binary .compare) span (cs.map (·.1))) := by
    simp only [Options.entered, Options.parted, List.partition_eq_filter_filter]
    exact List.mem_filter.mpr ⟨hmem, by rw [hd.not_isBareText hnone]; rfl⟩
  refine .down hentered (.of_child rfl rfl hmem rfl (.value rfl)) (.of_isOpen rfl) ?_ hd
  intro f hf
  rw [missed, residual]
  exact mem_residualUnkept.mpr ⟨c.node, hmem, hnone, hf⟩

theorem valueParts_subset : valueParts cs ⊆ cs := List.filter_subset_self _

theorem not_isType_of_mem_valueParts (hc : c ∈ valueParts cs) : c.kind.isType = false := by
  have hvalue := (List.mem_filter.mp hc).2
  cases hkind : c.kind <;> first | rfl | simp [hkind, Kind.isExpr] at hvalue

theorem tagged_traced (h : s.OutlinedAt id .tagged span cs) {depth : Nat}
    (ho : (rebuilt span (valueParts cs) depth).Offers id) :
    s.Descends id role (.mk .tagged span (cs.map (·.1))) := by
  obtain ⟨c, hc, hd⟩ := h.rebuilt_traced valueParts_subset ho
  have henters := Kind.skipsType_of_not_isType (k := .tagged) (not_isType_of_mem_valueParts hc)
  obtain ⟨hc, hvalue⟩ := List.mem_filter.mp hc
  have hmem : c.node ∈ cs.map (·.1) := List.mem_map_of_mem hc
  have hspread : c.kind ≠ .spread := by
    intro heq
    have hplain := List.all_eq_true.mp h.plain c.node hmem
    rw [show c.node.kind = .spread from heq] at hplain
    simp [Node.kind] at hplain
  have hexpr : c.kind.isExpr = true := by simpa [hspread] using hvalue
  refine .down hmem (.of_child rfl rfl hmem henters (.value rfl)) (.of_isOpen rfl) ?_ hd
  intro f hf
  rw [missed, residual]
  exact mem_residualExprs.mpr ⟨c.node, hmem, hexpr, hf⟩

/-- Down into a call that keeps nothing. -/
theorem called_traced {callee : Child} {args : List Child}
    (h : s.OutlinedAt id kind span (callee :: args)) (hkind : kind.isOpen = true)
    (hrole : kind.isUniform role = true) (hkeyed : kind.isKeyed = false)
    (hentered : s.options.entered (.mk kind span (callee.1 :: args.map (·.1))) =
      callee.1 :: args.map (·.1))
    (hresidual : s.missed (.mk kind span (callee.1 :: args.map (·.1))) =
      s.missed callee.1 ++ residualAll s.options s.file.isData (args.map (·.1))) {depth : Nat}
    (ho : (rebuilt span (valueParts (callee :: args)) depth).Offers id) :
    s.Descends id role (.mk kind span (callee.1 :: args.map (·.1))) := by
  obtain ⟨c, hc, hd⟩ := h.rebuilt_traced valueParts_subset ho
  have henters := Kind.skipsType_of_not_isType (k := kind) (not_isType_of_mem_valueParts hc)
  have hc := valueParts_subset hc
  have hmem : c.node ∈ (callee :: args).map (·.1) := List.mem_map_of_mem hc
  refine .down (by rwa [hentered]) (.of_child hrole hkeyed hmem henters (.value hrole))
    (.of_isOpen hkind) ?_ hd
  intro f hf
  rw [hresidual, List.mem_append]
  rcases List.mem_cons.mp hc with rfl | hc
  · exact .inl hf
  · exact .inr (mem_residualAll.mpr ⟨c.node, List.mem_map_of_mem hc, hf⟩)

theorem call_traced (h : s.OutlinedAt id .call span cs) {depth : Nat}
    (ho : (call s span cs depth).Offers id) :
    s.Descends id role (.mk .call span (cs.map (·.1))) := by
  cases cs with
  | nil => cases ho
  | cons callee args =>
    have hparts (hkeeps : s.options.keepsArguments callee.1 = false)
        (ho : (rebuilt span (valueParts (callee :: args)) depth).Offers id) :
        s.Descends id role (.mk .call span (callee.1 :: args.map (·.1))) := by
      refine h.called_traced rfl rfl rfl (by simp [Options.entered, Options.parted, hkeeps]) ?_ ho
      rw [missed, residual, hkeeps]
      rfl
    simp only [call] at ho
    split at ho
    · simp at ho
    · rename_i hload
      split at ho
      · rename_i name hname
        split at ho
        · cases ho
        · rename_i hlookup
          split at ho
          · simp at ho
          · rename_i hskipped
            refine hparts ?_ ho
            simp_all [Options.keepsArguments, Child.node]
      · rename_i hname
        refine hparts ?_ ho
        simp_all [Options.keepsArguments, Child.node]

theorem construct_traced (h : s.OutlinedAt id .construct span cs) {depth : Nat}
    (ho : (construct s span cs depth).Offers id) :
    s.Descends id role (.mk .construct span (cs.map (·.1))) := by
  cases cs with
  | nil => cases ho
  | cons callee args =>
    have hparts (hkeeps : s.options.keepsConstruction callee.1 = false)
        (ho : (rebuilt span (valueParts (callee :: args)) depth).Offers id) :
        s.Descends id role (.mk .construct span (callee.1 :: args.map (·.1))) := by
      refine h.called_traced rfl rfl rfl (by simp [Options.entered, Options.parted, hkeeps]) ?_ ho
      rw [missed, residual, hkeeps]
      rfl
    simp only [construct] at ho
    split at ho
    · rename_i name hname
      split at ho
      · simp at ho
      · rename_i hskipped
        refine hparts ?_ ho
        simp_all [Options.keepsConstruction, Child.node]
    · rename_i hname
      refine hparts ?_ ho
      simp_all [Options.keepsConstruction, Child.node]

theorem object_traced (h : s.OutlinedAt id .object span cs) {depth : Nat}
    (ho : StepsOffer id (cs.flatMap (·.views.member depth))) :
    s.Descends id .value (.mk .object span (cs.map (·.1))) := by
  obtain ⟨c, hc, ho⟩ := stepsOffer_flatMap.mp ho
  have hleads : (Node.mk .object span (cs.map (·.1))).Leads .value c.node .member :=
    ⟨List.mem_map_of_mem hc, rfl, by simp [Node.kind, Kind.isHolder], fun _ _ => rfl⟩
  exact scanned rfl hc hleads ((h.traced c hc).member (h.not_isEvaluated rfl hc) depth ho)

theorem arrow_traced (h : s.OutlinedAt id .arrow span cs) {depth : Nat}
    (ho : (Value.scope (functionScope s .arrow (cs.map (·.1)))
      (.rebuild span (cs.flatMap (arrowPart depth)))).Offers id) :
    s.Descends id role (.mk .arrow span (cs.map (·.1))) := by
  obtain ⟨hbinds, ho⟩ := Value.offers_scope.mp ho
  obtain ⟨c, hc, ho⟩ := stepsOffer_flatMap.mp (Value.offers_rebuild.mp ho)
  have hinto (henters : Kind.arrow.skipsType c.kind = false) : ∀ next,
      Kind.arrow.Turns role c.kind next → s.Descends id next c.node →
      s.Descends id role (.mk .arrow span (cs.map (·.1))) := by
    intro next hturns hd
    exact function_traced rfl (by simp only [missed, residual]) hbinds hc henters hturns hd
  unfold arrowPart at ho
  split at ho
  · simp at ho
  · simp at ho
  · rename_i hparams hascription
    have hinto := hinto (by simp_all [Kind.skipsType])
    split at ho
    · exact hinto _ (.value rfl) ((h.traced c hc).replaced (stepsOffer_singleton.mp ho))
    · exact hinto _ (.visit rfl) ((h.traced c hc).visit ho)

theorem constAssertion_traced (h : s.OutlinedAt id .constAssertion span cs) {depth : Nat}
    (ho : (constAssertion span cs depth).Offers id) :
    s.Descends id role (.mk .constAssertion span (cs.map (·.1))) := by
  unfold constAssertion at ho
  split at ho
  · exact uniform rfl rfl (List.mem_singleton_self _) (.value rfl) (literal_traced ho)
  · exact h.operands_traced rfl rfl ho

/-- The slots of a template or chain belong to its parts. -/
theorem slotsOf_traced (h : s.OutlinedAt id kind span cs) {depth : Nat} {v : Value}
    (hv : v ∈ slotsOf kind cs depth) (ho : v.Offers id) :
    s.Descends id role (.mk kind span (cs.map (·.1))) := by
  unfold slotsOf at hv
  split at hv
  · obtain ⟨c, hc, rfl⟩ := List.mem_map.mp hv
    have hc := List.mem_of_mem_take hc
    exact uniform rfl rfl hc (.value rfl) ((h.traced c hc).expr depth ho)
  · obtain ⟨c, hc, hv⟩ := List.mem_flatMap.mp hv
    exact uniform rfl rfl hc (.value rfl) ((h.traced c hc).slots depth v hv ho)
  · cases hv

/-- A template or chain that is a message would be missed. -/
theorem message_traced {children : List Node} {parts : List Part}
    (hmessage : messageOf kind span children = some parts) (hid : id = ⟨span, .interpolated⟩) :
    s.Descends id role (.mk kind span children) := by
  rw [hid]
  unfold messageOf at hmessage
  split at hmessage
  · rename_i pieces
    obtain ⟨hparts, htarget⟩ := Option.filter_eq_some_iff.mp hmessage
    cases hparts
    rw [hasTarget_ofTemplate] at htarget
    refine .text .template ?_
    rw [missed, residual_of_isScanned rfl]
    simp [foundLeaf, foundIf, htarget]
  · obtain ⟨hparts, htarget⟩ := Option.filter_eq_some_iff.mp hmessage
    exact .text .chain (residual_ne_nil_of_chain hparts htarget)
  · cases hmessage

theorem exprWithin_traced (h : s.OutlinedAt id kind span cs) {depth : Nat}
    (ho : (exprWithin s kind span cs depth).Offers id) :
    s.Descends id .value (.mk kind span (cs.map (·.1))) := by
  unfold exprWithin at ho
  simp only at ho
  split at ho
  · rename_i hmessage
    rcases Value.offers_message.mp ho with hid | ⟨v, hv, ho⟩
    · exact message_traced hmessage hid
    · exact h.slotsOf_traced hv ho
  · cases kind with
    | string value => exact literal_traced ho
    | template | conditional | paren | array => exact h.operands_traced rfl rfl ho
    | binary op =>
      cases op with
      | compare => exact h.comparison_traced ho
      | add | other => exact h.operands_traced rfl rfl ho
    | tagged => exact h.tagged_traced ho
    | call => exact h.call_traced ho
    | construct => exact h.construct_traced ho
    | object => exact h.object_traced (Value.offers_rebuild.mp ho)
    | arrow => exact h.arrow_traced ho
    | constAssertion => exact h.constAssertion_traced ho
    | _ => exact h.inner_traced rfl rfl (Value.offers_rebuild.mp ho)

/-! ### All roles of a node -/

/-- A key that keeps its bare text leads to no site. -/
theorem not_isTextKey {n : Node} (h : s.Descends id .member n) : n.isTextKey = false := by
  rw [Bool.eq_false_iff]
  intro hbare
  unfold Node.isTextKey at hbare
  split at hbare
  · cases h with
    | text hcarries => cases hcarries
    | run hmarkup => cases hmarkup
    | key _ _ hleads => simpa [Node.walked, hbare] using hleads.walked
    | down _ hleads => simpa [Node.walked, hbare] using hleads.walked
  · cases hbare

theorem property_traced (h : s.OutlinedAt id .property span cs) {depth : Nat}
    (ho : StepsOffer id (property cs depth)) :
    s.Descends id .member (.mk .property span (cs.map (·.1))) := by
  unfold property at ho
  split at ho
  · rename_i key value
    have hkey := h.traced key (by simp)
    have hvalue := h.traced value (by simp)
    have hleads : (Node.mk .property span [key.1, value.1]).Leads .member value.1 .value := by
      refine ⟨?_, rfl, fun _ _ => rfl, by simp⟩
      simp only [Node.walked]
      split <;> simp
    split at ho
    · rename_i hcomputed
      have hkind := beq_iff_eq.mp hcomputed
      rcases stepsOffer_append.mp ho with ho | ho
      · have hd := hkey.member (by rw [hkind]; rfl) depth ho
        have hbare : key.1.isTextKey = false := not_isTextKey hd
        have hleads : (Node.mk .property span [key.1, value.1]).Leads .member key.1 .member := by
          refine ⟨by simp [Node.walked, hbare], rfl, fun hobject => ?_, by simp⟩
          exact absurd (hkind.symm.trans hobject) (by simp)
        exact scanned rfl (by simp) hleads hd
      · exact scanned rfl (by simp) hleads (hvalue.replaced (stepsOffer_singleton.mp ho))
    · split at ho
      · exact scanned rfl (by simp) hleads (hvalue.replaced (stepsOffer_singleton.mp ho))
      · exact scanned rfl (by simp) hleads (hvalue.expr (depth + 1) (by simpa using ho))
  · simp at ho

theorem operandSlots_traced (h : s.OutlinedAt id kind span cs) {expr : Nat → Value} {depth : Nat}
    (hexpr : (expr depth).Offers id → s.Descends id role (.mk kind span (cs.map (·.1))))
    {v : Value} (hv : v ∈ operandSlots kind cs expr depth) (ho : v.Offers id) :
    s.Descends id role (.mk kind span (cs.map (·.1))) := by
  unfold operandSlots at hv
  split at hv
  · cases hv
  · cases hv
  · exact h.slotsOf_traced hv ho
  · exact h.slotsOf_traced hv ho
  · rw [List.mem_singleton.mp hv] at ho
    exact hexpr ho

theorem views_traced (h : s.OutlinedAt id kind span cs) :
    Child.Traced s id (.mk kind span (cs.map (·.1)), views s kind span cs) := by
  unfold views
  split
  case h_1 e =>
    have he := h.traced e (List.mem_singleton_self e)
    have hinto : ∀ {role next}, Kind.spread.Turns role e.kind next → s.Descends id next e.node →
        s.Descends id role (.mk .spread span [e.1]) :=
      uniform rfl rfl (List.mem_singleton_self e)
    have hvalue : ∀ depth, (e.views.expr depth).Offers id →
        s.Descends id .value (.mk .spread span [e.1]) :=
      fun depth ho => hinto (.value rfl) (he.expr depth ho)
    exact ⟨hvalue, fun _ ho => hinto (.visit rfl) (he.visit ho),
      fun depth v hv ho => hvalue depth (List.mem_singleton.mp hv ▸ ho),
      fun _ depth ho => hinto (.value rfl) (he.replaced (stepsOffer_singleton.mp ho))⟩
  case h_2 e =>
    have he := h.traced e (List.mem_singleton_self e)
    have hinto : ∀ {role next}, Kind.container.Turns role e.kind next → s.Descends id next e.node →
        s.Descends id role (.mk .container span [e.1]) :=
      uniform rfl rfl (List.mem_singleton_self e)
    have hvalue : ∀ depth, (e.views.expr depth).Offers id →
        s.Descends id .value (.mk .container span [e.1]) :=
      fun depth ho => hinto (.value rfl) (he.expr depth ho)
    exact ⟨hvalue, fun _ ho => hinto (.visit rfl) (he.visit ho),
      fun depth v hv ho => hvalue depth (List.mem_singleton.mp hv ▸ ho),
      fun _ _ ho => hinto (.visit rfl) (he.visit ho)⟩
  case h_3 key =>
    have hkey := h.traced key (List.mem_singleton_self key)
    have hinto : ∀ role, key.1 ∈ (Node.mk .computedKey span [key.1]).walked role →
        StepsOffer id key.visit → s.Descends id role (.mk .computedKey span [key.1]) := by
      intro role hwalked ho
      exact .key rfl (List.mem_singleton_self _) ⟨hwalked, rfl, .key⟩ (hkey.visit ho)
    refine ⟨fun _ ho => (nomatch ho), fun _ ho => ?_, fun _ _ hv ho => ?_, fun _ _ ho => ?_⟩
    · exact hinto .visited (List.mem_singleton_self _) ho
    · rw [List.mem_singleton.mp hv] at ho
      simp [Value.nothing] at ho
    · obtain ⟨hnone, ho⟩ := Child.of_unlessLiteral ho
      have hbare : key.1.isBareText = false := (hkey.visit ho).not_isBareText hnone
      exact hinto .member (by simp [Node.walked, hbare]) ho
  case h_4 =>
    refine ⟨fun _ ho => (nomatch ho), fun _ => h.visitAll_scanned rfl rfl, fun _ _ hv ho => ?_,
      fun _ _ => h.property_traced⟩
    rw [List.mem_singleton.mp hv] at ho
    simp [Value.nothing] at ho
  case h_5 hproperty _ _ hkey =>
    generalize hview : (fun depth => if s.options.maxDepth < depth then Value.abort span.lo
      else exprWithin s kind span cs depth) = expr
    have hexpr : ∀ depth, (expr depth).Offers id →
        s.Descends id .value (.mk kind span (cs.map (·.1))) := by
      intro depth ho
      rw [← hview] at ho
      simp only at ho
      split at ho
      · simp at ho
      · exact h.exprWithin_traced ho
    refine ⟨hexpr, fun hkind => h.inner_traced hkind kind.isUniform_visited,
      fun depth _ => h.operandSlots_traced (hexpr depth), fun hkind _ ho => ?_⟩
    by_cases hcomputed : kind = .computedKey
    · subst hcomputed
      refine h.computedKey_traced ?_ ho
      match cs, hkey with
      | [], _ => rfl
      | [key], hkey => exact (hkey key rfl rfl).elim
      | _ :: _ :: _, _ => rfl
    · have hrole : kind.isUniform .member = true := by
        cases kind <;> first | rfl | contradiction
      exact h.inner_traced hkind hrole ho

end OutlinedAt

/-! ### The whole tree -/

theorem viewsOf_traced {n : Node} (hplain : ∀ m ∈ n.subnodes, m.isPlain = true) :
    Child.Traced s id (n, s.viewsOf n) := by
  induction n using Node.inductOn with
  | mk kind span children ih =>
    have hchildren : (s.viewsOfAll children).map (·.1) = children := by
      simp [viewsOfAll_eq, Function.comp_def]
    have hat : s.OutlinedAt id kind span (s.viewsOfAll children) := by
      refine ⟨?_, ?_⟩
      · rw [hchildren]
        exact hplain _ (Node.mem_subnodes_self _)
      · intro c hc
        rw [viewsOfAll_eq] at hc
        obtain ⟨n, hn, rfl⟩ := List.mem_map.mp hc
        exact ih n hn fun m hm => hplain m (Node.subnodes_subset_of_mem hn hm)
    have hviews := hat.views_traced
    rwa [hchildren] at hviews

/-- Every site that is offered is found by going down from the root. -/
theorem descends_of_mem_outlineSites {site : Site}
    (hplain : ∀ n ∈ s.source.tree.subnodes, n.isPlain = true)
    (hroot : s.source.tree.kind = .module) (h : site ∈ s.outlineSites) :
    s.Descends site.id .visited s.source.tree := by
  have htraced : Child.Traced s site.id (s.source.tree, s.viewsOf s.source.tree) :=
    viewsOf_traced hplain
  have hkind : s.source.tree.kind.isEvaluated = false := by rw [hroot]; rfl
  exact htraced.inner hkind (offers_of_mem_steps s s.outline h).2

end Setting

end Phrasebook
