import Phrasebook.Extract
import Phrasebook.Proofs.Runs

/-!
The outline covers what the residual scan would report: every text found there lies in a site. Both
follow the tree, so the argument does too. A node is reached in each role that the node above it may
give it, provided that its children are.
-/
namespace Phrasebook

open Script Outline

variable {pos : Nat}

/-- Texts stand in literals, between tags and in attributes. -/
theorem foundLeaf_eq_nil {kind : Kind} (hliteral : kind.isLiteral = false)
    (htext : ∀ value, kind ≠ .text value) (hattr : ∀ value, kind ≠ .attrText value) (pos : Nat) :
    foundLeaf kind pos = [] := by
  cases kind with
  | string | template => cases hliteral
  | text value => exact absurd rfl (htext value)
  | attrText value => exact absurd rfl (hattr value)
  | _ => rfl

/-! ### Children in their roles -/

/-- The position is reached whichever way the node above uses this child. A part of an object is
never used as an expression, and a literal in no other way. -/
structure Child.Reached (pos : Nat) (c : Child) : Prop where
  expr : c.kind.isObjectPart = false → ∀ depth, (c.views.expr depth).Reaches pos
  inner : c.kind.isLiteral = false → StepsReach pos (c.views.inner ())
  member : c.kind.isLiteral = false → ∀ depth, StepsReach pos (c.views.member depth)

namespace Child

variable {c : Child} {cs : List Child}

theorem Reached.replaced (h : c.Reached pos) (hkind : c.kind.isObjectPart = false) (depth : Nat) :
    (c.replaced depth).Reaches pos := by
  unfold Child.replaced
  split <;> exact .replace (h.expr hkind depth)

/-- A visit gives every child a role that suits it. -/
theorem Reached.visit (h : c.Reached pos) : StepsReach pos c.visit := by
  unfold Child.visit
  split
  · rename_i hexpr
    exact .single (h.replaced (Kind.not_isObjectPart_of_isExpr hexpr) 0)
  · rename_i hexpr
    exact h.inner (Kind.not_isLiteral_of_not_isExpr hexpr)

theorem Reached.visitAll (h : c.Reached pos) (hc : c ∈ cs) : StepsReach pos (visitAll cs) :=
  .flatMap hc h.visit

/-- Only a literal is kept. -/
theorem unlessLiteral_reach {reason : Reason} {otherwise : List Step}
    (hnone : literalTarget c.node = none) (h : StepsReach pos otherwise) :
    StepsReach pos (Setting.unlessLiteral reason c otherwise) := by
  simpa only [Setting.unlessLiteral, hnone] using h

end Child

/-! ### A text found at a node -/

namespace Setting

/-- What the residual scan finds at a node. -/
abbrev missed (s : Setting) (n : Node) : List Found := residual s.options s.file.isData n

/-- A node suits the search for a text: it is proper, it is no type around the text, and the runs
planned under its span are its own. -/
structure Suits (s : Setting) (f : Found) (n : Node) : Prop where
  proper : n.Proper
  outside : n.kind.isType = true → ¬n.span.Holds f.pos
  runs : Markup.isMarkup n = true → ∀ r ∈ s.plan.runsFor n.span,
    r.Within (Markup.rendered n).length

/-- A text found at a node whose children are reached wherever it is found at them. -/
structure FoundAt (s : Setting) (f : Found) (kind : Kind) (span : Span) (cs : List Child) :
    Prop where
  found : f ∈ s.missed (.mk kind span (cs.map (·.1)))
  suits : s.Suits f (.mk kind span (cs.map (·.1)))
  parts : ∀ c ∈ cs, s.Suits f c.node
  reached : ∀ c ∈ cs, f ∈ s.missed c.node → c.Reached f.pos

variable {s : Setting} {f : Found} {kind : Kind} {span : Span} {cs : List Child} {c : Child}

theorem Suits.holds {n : Node} (h : s.Suits f n) (hf : f ∈ s.missed n)
    (hkind : n.kind.coversTexts = true) : n.span.Holds f.pos :=
  h.proper.covering hkind f (residual_subset n hf)

theorem Suits.not_isType {n : Node} (h : s.Suits f n) (hf : f ∈ s.missed n) :
    n.kind.isType = false := by
  cases htype : n.kind.isType with
  | false => rfl
  | true =>
    exact absurd (h.holds hf (Kind.coversTexts_of_isType htype)) (h.outside htype)

theorem Suits.mayHold {n : Node} (h : s.Suits f n) {child : Node} (hc : child ∈ n.children) :
    n.kind.mayHold child.kind = true := by
  have hg := h.proper.grammatical
  simp only [Node.isGrammatical, Bool.and_eq_true, List.all_eq_true] at hg
  exact hg.1.1 child hc

/-- A node that may hold nothing has no text but its own. -/
theorem Suits.leaf {n : Node} (h : s.Suits f n) (hkind : ∀ k, n.kind.mayHold k = false)
    (hf : f ∈ s.missed n) : f ∈ foundLeaf n.kind n.span.lo := by
  cases n with
  | mk kind span children =>
    rcases residual_cases hf with hleaf | ⟨child, hc, -⟩
    · exact hleaf
    · have := h.mayHold hc
      rw [hkind] at this
      cases this

theorem Suits.not_isKeywordCallee {n : Node} (h : s.Suits f n) (hf : f ∈ s.missed n) :
    n.kind.isKeywordCallee = false := by
  cases n with
  | mk kind span children =>
    cases kind with
    | superCallee | importCallee => nomatch h.leaf (fun _ => rfl) hf
    | _ => rfl

namespace FoundAt

theorem holds (h : s.FoundAt f kind span cs) (hkind : kind.coversTexts = true) :
    span.Holds f.pos := h.suits.holds h.found hkind

theorem mayHold (h : s.FoundAt f kind span cs) (hc : c ∈ cs) : kind.mayHold c.kind = true :=
  h.suits.mayHold (List.mem_map_of_mem hc)

theorem cases (h : s.FoundAt f kind span cs) :
    f ∈ foundLeaf kind span.lo ∨ ∃ c ∈ cs, f ∈ s.missed c.node := by
  refine (residual_cases h.found).imp_right ?_
  rintro ⟨n, hn, hf⟩
  obtain ⟨c, hc, rfl⟩ := List.mem_map.mp hn
  exact ⟨c, hc, hf⟩

/-- Below a node without a text of its own there is a child to follow. -/
theorem child (h : s.FoundAt f kind span cs) (hleaf : foundLeaf kind span.lo = []) :
    ∃ c ∈ cs, f ∈ s.missed c.node ∧ c.Reached f.pos := by
  rcases h.cases with hf | ⟨c, hc, hf⟩
  · simp [hleaf] at hf
  · exact ⟨c, hc, hf, h.reached c hc hf⟩

theorem visited (h : s.FoundAt f kind span cs) (hleaf : foundLeaf kind span.lo = []) :
    StepsReach f.pos (visitAll cs) := by
  obtain ⟨c, hc, -, hr⟩ := h.child hleaf
  exact hr.visitAll hc

/-- A function around the text does not hide the lookup function. -/
theorem not_shadowed (h : s.FoundAt f kind span cs)
    (hresidual : s.missed (.mk kind span (cs.map (·.1))) =
      if functionBinds s.options.lookupFunction kind (cs.map (·.1)) then []
      else residualAll s.options s.file.isData (cs.map (·.1))) :
    (functionScope s kind (cs.map (·.1))).shadows = false := by
  have hf := h.found
  rw [hresidual] at hf
  split at hf
  · cases hf
  · rename_i hbinds
    exact Bool.eq_false_iff.mpr hbinds

/-- An item around the text does not hide the lookup function. -/
theorem items_reach (h : s.FoundAt f kind span cs)
    (hresidual : s.missed (.mk kind span (cs.map (·.1))) =
      residualItems s.options s.file.isData (cs.map (·.1))) :
    StepsReach f.pos (cs.map (item s)) := by
  have hf := h.found
  rw [hresidual] at hf
  obtain ⟨n, hn, hbinds, hf⟩ := mem_residualItems.mp hf
  obtain ⟨c, hc, rfl⟩ := List.mem_map.mp hn
  obtain ⟨x, hx, hr⟩ := (h.reached c hc hf).visit
  exact .map hc (.scope hbinds hx hr)

theorem markup_reach (h : s.FoundAt f kind span cs) {kids : List Child}
    (hmarkup : Markup.isMarkup (.mk kind span (cs.map (·.1))) = true)
    (hkids : Markup.rendered (.mk kind span (cs.map (·.1))) = kids.map (·.1)) (hsub : kids ⊆ cs)
    (hc : c ∈ kids) (hf : f ∈ s.missed c.node) :
    StepsReach f.pos (markupChildren s span kids) := by
  have hchild : c.kind.isMarkupChild = true := by
    have hg := h.suits.proper.grammatical
    simp only [Node.isGrammatical, hkids, Bool.and_eq_true, List.all_eq_true] at hg
    exact hg.1.2 c.node (List.mem_map_of_mem hc)
  have hspan := (h.parts c (hsub hc)).holds hf (Kind.coversTexts_of_isMarkupChild hchild)
  have hinner := (h.reached c (hsub hc) hf).inner (Kind.not_isLiteral_of_isMarkupChild hchild)
  have hruns := h.suits.runs hmarkup
  have hordered := h.suits.proper.ordered
  rw [hkids] at hruns hordered
  rw [List.length_map] at hruns
  obtain ⟨i, hi⟩ := List.mem_iff_getElem?.mp hc
  exact childrenFrom_reach hruns hordered hi hspan hinner kids rfl (Nat.zero_le i) (Nat.zero_le i)

/-- What is found in markup text is there without the white space around it. -/
theorem text_reach {value : String} (h : s.FoundAt f (.text value) span cs) :
    StepsReach f.pos (markupText s span value) := by
  have hf := h.found
  simp only [residual, foundInText] at hf
  split at hf
  · cases hf
  · rename_i hdata
    split at hf
    · rename_i htarget
      simp only [markupText, Text.hasTarget_trim, htarget, hdata, Bool.not_true,
        Bool.false_eq_true, if_false]
      exact .single (.braced (h.holds rfl))
    · cases hf

theorem attributeText_reach {value : String} (h : s.FoundAt f (.attrText value) span cs) :
    StepsReach f.pos (attributeText span value) := by
  have hf : f ∈ foundIf value .markupAttribute span.lo := h.suits.leaf (fun _ => rfl) h.found
  unfold foundIf at hf
  split at hf
  · rename_i htarget
    rw [attributeText, if_pos htarget]
    exact .single (.braced (h.holds rfl))
  · cases hf

theorem staticField_reach {isStatic : Bool} (h : s.FoundAt f (.field isStatic) span cs) :
    StepsReach f.pos (staticField s span.lo cs) := by
  obtain ⟨x, hx, hr⟩ := h.visited rfl
  cases cs with
  | nil => cases hx
  | cons key rest => exact .single (.staticField hx hr)

theorem declarator_reach (h : s.FoundAt f .declarator span cs) :
    StepsReach f.pos (declarator s span.lo cs) := by
  obtain ⟨x, hx, hr⟩ := h.visited rfl
  cases cs with
  | nil => cases hx
  | cons pattern init =>
    exact .bound _ _ (.inScope rfl ⟨x, hx, hr⟩)

theorem keyedMember_reach {object key : Child}
    (h : s.FoundAt f (.member .computed) span [object, key]) :
    StepsReach f.pos (object.visit ++ keptKey key) := by
  have hf := h.found
  simp only [List.map_cons, List.map_nil, residual, List.mem_append, mem_residualUnkept] at hf
  rcases hf with hf | ⟨n, hn, hnone, hf⟩
  · exact .left (h.reached object (by simp) hf).visit
  · cases List.mem_singleton.mp hn
    exact .right (Child.unlessLiteral_reach hnone (h.reached key (by simp) hf).visit)

theorem switchCase_reach {test : Child} {body : List Child}
    (h : s.FoundAt f (.switchCase true) span (test :: body)) :
    StepsReach f.pos (unlessLiteral .comparison test test.visit ++ visitAll body) := by
  have hf := h.found
  simp only [List.map_cons, residual, List.mem_append, mem_residualAll] at hf
  rcases hf with hf | ⟨n, hn, hf⟩
  · split at hf
    · cases hf
    · rename_i hnone
      exact .left (Child.unlessLiteral_reach (Option.not_isSome_iff_eq_none.mp hnone)
        (h.reached test (by simp) hf).visit)
  · obtain ⟨c, hc, rfl⟩ := List.mem_map.mp hn
    exact .right ((h.reached c (List.mem_cons_of_mem _ hc) hf).visitAll hc)

theorem element_reach {opening : Child} {kids : List Child}
    (h : s.FoundAt f .element span (opening :: kids)) :
    StepsReach f.pos (opening.visit ++
      if isRawOpening opening.node then [] else markupChildren s span kids) := by
  have hf := h.found
  simp only [List.map_cons, residual, List.mem_append] at hf
  rcases hf with hf | hf
  · exact .left (h.reached opening (by simp) hf).visit
  · split at hf
    · cases hf
    · rename_i hraw
      change ¬isRawOpening opening.node = true at hraw
      obtain ⟨n, hn, hf⟩ := mem_residualAll.mp hf
      obtain ⟨c, hc, rfl⟩ := List.mem_map.mp hn
      have hkids := h.markup_reach rfl rfl (List.subset_cons_self _ _) hc hf
      exact .right (by rwa [if_neg hraw])

/-- A node visited where it stands, which no literal is. -/
theorem inner_reach (h : s.FoundAt f kind span cs) (hkind : kind.isLiteral = false) :
    StepsReach f.pos (inner s kind span cs) := by
  unfold inner
  split
  -- Modules and namespaces, then everything with a function scope of its own.
  case h_1 | h_2 => exact h.items_reach (by simp only [residual])
  case h_3 | h_4 | h_5 | h_6 =>
    exact .inScope (h.not_shadowed (by simp only [residual])) (h.visited rfl)
  case h_7 => exact h.staticField_reach
  case h_8 => exact .inScope rfl (h.visited rfl)
  case h_9 => exact h.keyedMember_reach
  case h_10 =>
    -- Nothing is found in an enumeration.
    have hf := h.found
    simp [residual] at hf
  case h_11 => exact h.switchCase_reach
  case h_12 => exact h.element_reach
  case h_13 =>
    obtain ⟨c, hc, hf, -⟩ := h.child rfl
    exact h.markup_reach rfl rfl (List.Subset.refl cs) hc hf
  case h_14 => exact h.text_reach
  case h_15 => exact h.attributeText_reach
  case h_16 | h_17 =>
    -- What an attribute or a bare node holds is visited where it stands.
    obtain ⟨c, hc, -, hr⟩ := h.child rfl
    have hheld := h.mayHold hc
    simp only [Kind.mayHold, Bool.not_eq_true'] at hheld
    exact .flatMap hc (hr.inner hheld)
  case h_18 => exact h.declarator_reach
  case h_19 => exact .bound _ _ (h.visited rfl)
  -- Functions and classes with a name hide nothing themselves.
  case h_20 | h_21 | h_22 | h_23 => exact .inScope rfl (h.visited rfl)
  case h_24 =>
    exact h.visited (foundLeaf_eq_nil hkind (by assumption) (by assumption) span.lo)

/-! ### Expressions -/

theorem rebuilt_reach {parts : List Child} (hc : c ∈ parts) (hr : c.Reached pos)
    (hkind : c.kind.isObjectPart = false) (depth : Nat) :
    (rebuilt span parts depth).Reaches pos :=
  .rebuild (List.mem_map_of_mem hc) (hr.replaced hkind _)

/-- Operands are no parts of objects. -/
theorem operand_reach (h : s.FoundAt f kind span cs) (hleaf : foundLeaf kind span.lo = [])
    (hholds : ∀ k, kind.mayHold k = !k.isObjectPart) (depth : Nat) :
    (rebuilt span cs depth).Reaches f.pos := by
  obtain ⟨c, hc, -, hr⟩ := h.child hleaf
  have hheld := h.mayHold hc
  rw [hholds, Bool.not_eq_true'] at hheld
  exact rebuilt_reach hc hr hheld depth

theorem comparison_reach (h : s.FoundAt f (.binary .compare) span cs) (depth : Nat) :
    (comparison span cs depth).Reaches f.pos := by
  have hf := h.found
  simp only [residual] at hf
  obtain ⟨n, hn, hnone, hf⟩ := mem_residualUnkept.mp hf
  obtain ⟨c, hc, rfl⟩ := List.mem_map.mp hn
  have hheld := h.mayHold hc
  simp only [Kind.mayHold, Bool.not_eq_true'] at hheld
  have hoperand := (h.reached c hc hf).replaced hheld (depth + 1)
  exact StepsReach.rebuilt span (.flatMap hc (Child.unlessLiteral_reach hnone (.single hoperand)))

theorem tagged_reach (h : s.FoundAt f .tagged span cs) (depth : Nat) :
    (rebuilt span (valueParts cs) depth).Reaches f.pos := by
  have hf := h.found
  simp only [residual] at hf
  obtain ⟨n, hn, hexpr, hf⟩ := mem_residualExprs.mp hf
  obtain ⟨c, hc, rfl⟩ := List.mem_map.mp hn
  have hpart : c ∈ valueParts cs := by
    refine List.mem_filter.mpr ⟨hc, ?_⟩
    simp [Child.kind, Child.node, hexpr]
  exact rebuilt_reach hpart (h.reached c hc hf) (Kind.not_isObjectPart_of_isExpr hexpr) depth

/-- Callee and arguments are followed; the rest of a call is types or the keyword that is called. -/
theorem valueParts_reach (h : s.FoundAt f kind span cs) (hleaf : foundLeaf kind span.lo = [])
    (hholds : ∀ k, kind.mayHold k =
      (k.isExpr || k == .spread || k.isType || k.isKeywordCallee)) (depth : Nat) :
    (rebuilt span (valueParts cs) depth).Reaches f.pos := by
  obtain ⟨c, hc, hf, hr⟩ := h.child hleaf
  have hsuits := h.parts c hc
  have htype : c.kind.isType = false := hsuits.not_isType hf
  have hkeyword : c.kind.isKeywordCallee = false := hsuits.not_isKeywordCallee hf
  have hvalue : (c.kind.isExpr || c.kind == .spread) = true := by
    have hheld := h.mayHold hc
    simpa [hholds, htype, hkeyword] using hheld
  have hobject : c.kind.isObjectPart = false := by
    rcases Bool.or_eq_true_iff.mp hvalue with hexpr | hspread
    · exact Kind.not_isObjectPart_of_isExpr hexpr
    · rw [beq_iff_eq.mp hspread]
      rfl
  exact rebuilt_reach (List.mem_filter.mpr ⟨hc, hvalue⟩) hr hobject depth

theorem call_reach (h : s.FoundAt f .call span cs) (depth : Nat) :
    (call s span cs depth).Reaches f.pos := by
  have hparts := h.valueParts_reach rfl (fun _ => rfl) depth
  cases cs with
  | nil => nomatch h.child rfl
  | cons callee args =>
    have hf := h.found
    simp only [List.map_cons, residual] at hf
    split at hf
    · cases hf
    · rename_i hkeeps
      change ¬s.options.keepsArguments callee.node = true at hkeeps
      simp only [Options.keepsArguments, Bool.or_eq_true, not_or] at hkeeps
      obtain ⟨hload, hkeeps⟩ := hkeeps
      simp only [call, if_neg hload]
      cases hname : calleeName callee.node with
      | none => exact hparts
      | some name =>
        simp only [hname, Option.any_some, Bool.or_eq_true, not_or] at hkeeps
        simpa only [if_neg hkeeps.1, if_neg hkeeps.2] using hparts

theorem construct_reach (h : s.FoundAt f .construct span cs) (depth : Nat) :
    (construct s span cs depth).Reaches f.pos := by
  have hparts := h.valueParts_reach rfl (fun _ => rfl) depth
  cases cs with
  | nil => nomatch h.child rfl
  | cons callee args =>
    have hf := h.found
    simp only [List.map_cons, residual] at hf
    split at hf
    · cases hf
    · rename_i hkeeps
      change ¬s.options.keepsConstruction callee.node = true at hkeeps
      simp only [construct]
      cases hname : calleeName callee.node with
      | none => exact hparts
      | some name =>
        simp only [Options.keepsConstruction, hname, Option.any_some] at hkeeps
        simpa only [if_neg hkeeps] using hparts

theorem object_reach (h : s.FoundAt f .object span cs) (depth : Nat) :
    (Value.rebuild span (cs.flatMap (·.views.member depth))).Reaches f.pos := by
  obtain ⟨c, hc, -, hr⟩ := h.child rfl
  have hheld := h.mayHold hc
  simp only [Kind.mayHold, Bool.not_eq_true'] at hheld
  exact StepsReach.rebuilt span (.flatMap hc (hr.member hheld depth))

theorem arrow_reach (h : s.FoundAt f .arrow span cs) (depth : Nat) :
    (Value.scope (functionScope s .arrow (cs.map (·.1)))
      (.rebuild span (cs.flatMap (arrowPart depth)))).Reaches f.pos := by
  obtain ⟨c, hc, hf, hr⟩ := h.child rfl
  have htype : c.kind.isType = false := (h.parts c hc).not_isType hf
  have hpart : StepsReach f.pos (arrowPart depth c) := by
    unfold arrowPart
    split
    · simp_all [Kind.isType]
    · simp_all [Kind.isType]
    · split
      · rename_i hexpr
        exact .single (hr.replaced (Kind.not_isObjectPart_of_isExpr hexpr) _)
      · exact hr.visit
  have hbody := StepsReach.rebuilt span (.flatMap hc hpart)
  exact .scope (h.not_shadowed (by simp only [residual])) hbody

end FoundAt

/-- A string is found only if it is a message. -/
theorem Suits.literal {value : Option String} {children : List Node}
    (h : s.Suits f (.mk (.string value) span children))
    (hf : f ∈ s.missed (.mk (.string value) span children)) :
    (literal span value).Reaches f.pos := by
  have hleaf := h.leaf (fun _ => rfl) hf
  have hholds := h.holds hf rfl
  cases value with
  | none => cases hleaf
  | some text =>
    change f ∈ foundIf text .stringLiteral span.lo at hleaf
    unfold foundIf at hleaf
    split at hleaf
    · rename_i htarget
      simp only [Setting.literal, htarget, if_true]
      exact .message hholds
    · cases hleaf

namespace FoundAt

theorem constAssertion_reach (h : s.FoundAt f .constAssertion span cs) (depth : Nat) :
    (constAssertion span cs depth).Reaches f.pos := by
  unfold constAssertion
  split
  · obtain ⟨c, hc, hf, -⟩ := h.child rfl
    cases List.mem_singleton.mp hc
    exact (h.parts _ hc).literal hf
  · exact h.operand_reach rfl (fun _ => rfl) depth

theorem template_reach {pieces : List Piece} (h : s.FoundAt f (.template pieces) span cs)
    (hmessage : messageOf (.template pieces) span (cs.map (·.1)) = none) (depth : Nat) :
    (rebuilt span cs depth).Reaches f.pos := by
  refine h.operand_reach ?_ (fun _ => rfl) depth
  have hstatic : Text.hasTarget (staticText pieces) = false := by
    rw [← hasTarget_ofTemplate pieces (cs.map (·.1))]
    simpa [messageOf] using hmessage
  simp [foundLeaf, foundIf, hstatic]

/-- Only templates and chains are messages with slots, and these lie over all that is in them. -/
theorem covers_of_messageOf {nodes : List Node} {parts : List Part}
    (h : messageOf kind span nodes = some parts) : kind.coversTexts = true := by
  unfold messageOf at h
  split at h
  · rfl
  · rfl
  · cases h

theorem exprWithin_reach (h : s.FoundAt f kind span cs) (depth : Nat) :
    (exprWithin s kind span cs depth).Reaches f.pos := by
  unfold exprWithin
  simp only
  split
  · rename_i hmessage
    exact .message (h.holds (covers_of_messageOf hmessage))
  · rename_i hmessage
    split
    case h_1 => exact h.suits.literal h.found
    case h_2 => exact h.template_reach hmessage depth
    case h_3 | h_4 | h_5 | h_6 | h_7 => exact h.operand_reach rfl (fun _ => rfl) depth
    case h_8 => exact h.comparison_reach depth
    case h_9 => exact h.tagged_reach depth
    case h_10 => exact h.call_reach depth
    case h_11 => exact h.construct_reach depth
    case h_12 => exact h.object_reach depth
    case h_13 => exact h.arrow_reach depth
    case h_14 => exact h.constAssertion_reach depth
    case h_15 =>
      have hkind := Kind.not_isLiteral (k := kind) (by assumption) (by assumption)
      exact (h.inner_reach hkind).rebuilt span

/-! ### All roles of a node -/

theorem only (h : s.FoundAt f kind span [c]) (hleaf : foundLeaf kind span.lo = []) :
    f ∈ s.missed c.node ∧ c.Reached f.pos := by
  obtain ⟨d, hd, hfound⟩ := h.child hleaf
  cases List.mem_singleton.mp hd
  exact hfound

/-- A text is found in the value of a property or in a computed key, never in a plain one. -/
theorem property_reach (h : s.FoundAt f .property span cs) (depth : Nat) :
    StepsReach f.pos (property cs depth) := by
  have hparts : Node.arePropertyParts (cs.map (·.1)) = true := by
    have hg := h.suits.proper.grammatical
    simp only [Node.isGrammatical, Bool.and_eq_true] at hg
    exact hg.2
  obtain ⟨c, hc, hf, hr⟩ := h.child rfl
  match cs, h, hparts, hc with
  | [key, value], h, hparts, hc =>
    simp only [List.map_cons, List.map_nil, Node.arePropertyParts, Bool.and_eq_true,
      Bool.or_eq_true, beq_iff_eq, Bool.not_eq_true'] at hparts
    obtain ⟨hkey, hvalue⟩ := hparts
    unfold property
    rcases List.mem_pair.mp hc with rfl | rfl
    · have hcomputed : c.kind = .computedKey := by
        refine hkey.resolve_left fun hplain => ?_
        have hleaf := (h.parts c (by simp)).leaf (by simp [Child.node, hplain, Kind.mayHold]) hf
        simp [Child.node, hplain, foundLeaf] at hleaf
      simp only [hcomputed, beq_self_eq_true, if_true]
      exact .left (hr.member (by rw [hcomputed]; rfl) depth)
    · simp only
      split
      · exact .right (.single (hr.replaced hvalue _))
      · split
        · exact .single (hr.replaced hvalue _)
        · exact .single (.property (hr.expr hvalue _))

theorem computedKey_reach (h : s.FoundAt f .computedKey span [c]) :
    StepsReach f.pos (keptKey c) := by
  have hf := h.found
  simp only [List.map_cons, List.map_nil, residual] at hf
  obtain ⟨n, hn, hnone, hf⟩ := mem_residualUnkept.mp hf
  cases List.mem_singleton.mp hn
  exact Child.unlessLiteral_reach hnone (h.reached c (by simp) hf).visit

theorem views_reached (h : s.FoundAt f kind span cs) :
    Child.Reached f.pos (.mk kind span (cs.map (·.1)), views s kind span cs) := by
  unfold views
  split
  case h_1 e =>
    obtain ⟨-, hr⟩ := h.only rfl
    have hexpr : e.kind.isExpr = true := h.mayHold (List.mem_singleton_self e)
    have hvalue := Kind.not_isObjectPart_of_isExpr hexpr
    exact ⟨fun _ => hr.expr hvalue, fun _ => hr.visit,
      fun _ depth => .single (hr.replaced hvalue (depth + 1))⟩
  case h_2 e =>
    obtain ⟨-, hr⟩ := h.only rfl
    have hexpr : e.kind.isExpr = true := h.mayHold (List.mem_singleton_self e)
    exact ⟨fun _ => hr.expr (Kind.not_isObjectPart_of_isExpr hexpr), fun _ => hr.visit,
      fun _ _ => hr.visit⟩
  case h_3 =>
    obtain ⟨-, hr⟩ := h.only rfl
    exact ⟨fun hkind => (nomatch hkind), fun _ => hr.visit, fun _ _ => h.computedKey_reach⟩
  case h_4 =>
    exact ⟨fun hkind => (nomatch hkind), fun _ => h.visited rfl, fun _ => h.property_reach⟩
  case h_5 =>
    refine ⟨fun _ depth => ?_, h.inner_reach, fun hkind _ => h.inner_reach hkind⟩
    simp only [Child.views]
    split
    · exact .abort _
    · exact h.exprWithin_reach depth

end FoundAt

/-! ### The whole tree -/

theorem viewsOfAll_eq (s : Setting) (ns : List Node) :
    s.viewsOfAll ns = ns.map fun n => (n, s.viewsOf n) := by
  induction ns with
  | nil => rfl
  | cons n ns ih => rw [viewsOfAll, ih, List.map_cons]

/-- Where a text is found, its position is reached in every role of the node. -/
theorem viewsOf_reached {n : Node} (hsuits : ∀ m ∈ n.subnodes, s.Suits f m)
    (hf : f ∈ s.missed n) : Child.Reached f.pos (n, s.viewsOf n) := by
  induction n using Node.inductOn with
  | mk kind span children ih =>
    have hchildren : (s.viewsOfAll children).map (·.1) = children := by
      simp [viewsOfAll_eq, Function.comp_def]
    have hat : s.FoundAt f kind span (s.viewsOfAll children) := by
      refine ⟨by rwa [hchildren], ?_, ?_, ?_⟩
      · rw [hchildren]
        exact hsuits _ (Node.mem_subnodes_self _)
      · intro c hc
        rw [viewsOfAll_eq] at hc
        obtain ⟨n, hn, rfl⟩ := List.mem_map.mp hc
        exact hsuits n (Node.subnodes_subset_of_mem hn (Node.mem_subnodes_self n))
      · intro c hc hf
        rw [viewsOfAll_eq] at hc
        obtain ⟨n, hn, rfl⟩ := List.mem_map.mp hc
        exact ih n hn (fun m hm => hsuits m (Node.subnodes_subset_of_mem hn hm)) hf
    have hviews := hat.views_reached
    rwa [hchildren] at hviews

/-- In a well-formed tree every node suits the search for a text outside types. -/
theorem suits_of_wellFormed {source : Source} (file : FileInfo) (options : Options)
    (htree : source.tree.WellFormed)
    (houtside : ∀ t ∈ source.tree.subnodes, t.kind.isType = true → ¬t.span.Holds f.pos) :
    ∀ n ∈ source.tree.subnodes, (Setting.of source file options).Suits f n := by
  intro n hn
  exact ⟨htree.proper n hn, houtside n hn,
    fun hmarkup _ hr => Markup.runsFor_within htree.distinct hn hmarkup hr⟩

end Setting

/-- Nothing that the residual scan would report about a module, other than in its types, is left out
when its sites are collected, provided that no subtree is too deep. -/
theorem residual_within_sites (source : Source) (file : FileInfo) (options : Options)
    (htree : source.tree.WellFormed)
    (hdepth :
      ((Setting.of source file options).walk Collector.handler {}).report.depthAborts = []) :
    residualScan source file.path file.isData options =
        (residual options file.isData source.tree).map (fun found =>
          (Setting.of source file options).sample
            ⟨found.text, found.form, .unextracted, found.pos⟩) ∧
      ∀ found ∈ residual options file.isData source.tree,
        (∀ t ∈ source.tree.subnodes, t.kind.isType = true → ¬t.span.Holds found.pos) →
        ∃ site ∈ (Setting.of source file options).sites, site.id.span.Holds found.pos := by
  refine ⟨rfl, ?_⟩
  intro found hfound houtside
  have hsuits := Setting.suits_of_wellFormed file options htree houtside
  have hreached := Setting.viewsOf_reached hsuits hfound
  have hkind : source.tree.kind.isLiteral = false := by rw [htree.root]; rfl
  exact Setting.site_of_reach _ hdepth (hreached.inner hkind)

/-- A run of markup with a text in its slot, beside a template around a property that is a chain. -/
theorem residual_within_sites_nested :
    let code :=
      "let n: T = <p title=\"标\">共\x7bf(\"条\")\x7d</p> || \x60第$\x7bh(\x7bk: y + \"值\"\x7d)\x7d\x60"
    let file : FileInfo := ⟨"src/list.tsx", .component⟩
    ∃ source, Source.read true code = .ok source ∧ source.tree.WellFormed ∧
      ((Setting.of source file {}).walk Collector.handler {}).report.depthAborts = [] ∧
      (residual {} file.isData source.tree).map (·.text) = ["标", "共", "条", "第", "值"] ∧
      ∀ found ∈ residual {} file.isData source.tree,
        ∃ site ∈ (Setting.of source file {}).sites, site.id.span.Holds found.pos := by
  intro code file
  have hchecked : (Source.read true code).toOption.any (fun source =>
      decide (source.tree.WellFormed ∧
        ((Setting.of source file {}).walk Collector.handler {}).report.depthAborts = [] ∧
        (residual {} file.isData source.tree).map (·.text) = ["标", "共", "条", "第", "值"] ∧
        ∀ found ∈ residual {} file.isData source.tree, ∀ t ∈ source.tree.subnodes,
          t.kind.isType = true → ¬t.span.Holds found.pos)) = true := by
    decide +kernel
  obtain ⟨source, hread, htree, hdepth, htexts, houtside⟩ := Source.exists_read hchecked
  refine ⟨source, hread, htree, hdepth, htexts, ?_⟩
  intro found hfound
  exact (residual_within_sites source file {} htree hdepth).2 found hfound (houtside found hfound)

end Phrasebook
