import Phrasebook.Proofs.LoadEvents
import Phrasebook.Proofs.Origin

/-!
Which code runs while a module is loaded. From the root of the tree a site or binding is met at once
only on a way down that leads into no function and no instance field, and from a property of an
object literal into its value only if that is an object literal itself or the key is computed.
-/
namespace Phrasebook

open Script Outline

variable {s : Setting} {e : LoadEvent}

/-! ### Ways down a tree -/

namespace Script

/-- What a node of this kind holds in this role runs later than the node itself. -/
def Kind.runsLater : Kind → Role → Bool
  | .function, _ | .classConstructor, _ | .getter, _ | .setter, _ | .field false, _
  | .arrow, .value => true
  | _, _ => false

theorem Kind.not_member_of_isUniform {k : Kind} {role : Role} (h : k.isUniform role = true) :
    k = .property → role ≠ .member := by
  rintro rfl rfl
  cases h

/-- A function expression holds functions only. -/
def Node.holdsFunctions (n : Node) : Bool :=
  match n.kind with
  | .functionExpr _ => n.children.all (·.kind == .function)
  | _ => true

end Script

/-- The name of a binding of the module: a declared variable, the default export or a static field of
the innermost class. An accessor is no field, even if it is written like one. -/
def Setting.bindingName (s : Setting) (classes : List String) : Node → Option String
  | .mk .declarator _ (pattern :: _) => some (s.declaredName pattern)
  | .mk .exportDefault _ _ => some "default"
  | .mk (.field true) _ (key :: _) =>
    some (classes.headD "class" ++ "." ++ s.source.snippet key.span)
  | _ => none

/-- The event is found by going down from a node in some role, never into what runs later. A member
of an object literal leads into its value only if the key is computed or the value is left where it
stands. -/
inductive Setting.Meets (s : Setting) (e : LoadEvent) : Role → Node → Prop where
  | text {role : Role} {n : Node} {id : SiteId} : n.Carries id → e = .site id → Meets s e role n
  | run {role : Role} {n : Node} {r : Markup.Run} {span : Span} : Markup.isMarkup n = true →
      n.isRaw = false → r ∈ s.plan.runsFor n.span → r.span (Markup.rendered n) = some span →
      e = .site ⟨span, .markupText⟩ → Meets s e role n
  | binding {role : Role} {n : Node} {classes : List String} {name : String} :
      s.bindingName classes n = some name → e = .binding name n.span.lo → Meets s e role n
  | down {role next : Role} {n c : Node} : n.kind.runsLater role = false →
      (n.kind = .property → role ≠ .member) → c ∈ n.children → n.kind.Turns role c.kind next →
      Meets s e next c → Meets s e role n
  | key {span : Span} {key value : Node} : key.kind = .computedKey → Meets s e .member key →
      Meets s e .member (.mk .property span [key, value])
  | value {span : Span} {key value : Node} :
      key.kind = .computedKey ∨ Setting.isDeferredValue value = true → Meets s e .value value →
      Meets s e .member (.mk .property span [key, value])

/-- Whichever way the node above uses this child, what happens there at once is found by going down
from it. -/
structure Child.Met (s : Setting) (e : LoadEvent) (c : Child) : Prop where
  expr : ∀ depth, (c.views.expr depth).Loads s e → s.Meets e .value c.node
  inner : StepsLoad s e (c.views.inner ()) → s.Meets e .visited c.node
  slots : ∀ depth, ∀ v ∈ c.views.slots depth, v.Loads s e → s.Meets e .value c.node
  member : ∀ depth, StepsLoad s e (c.views.member depth) → s.Meets e .member c.node

namespace Child

variable {c : Child}

theorem Met.replaced (h : c.Met s e) {depth : Nat} (hl : (c.replaced depth).Loads s e) :
    s.Meets e .value c.node := by
  unfold Child.replaced at hl
  split at hl
  · exact h.expr depth hl.of_replace
  · exact h.expr depth hl.of_replace

theorem Met.visit (h : c.Met s e) (hl : StepsLoad s e c.visit) :
    s.Meets e c.kind.visitRole c.node := by
  unfold Child.visit at hl
  unfold Kind.visitRole
  split at hl
  · rename_i hexpr
    rw [if_pos hexpr]
    exact h.replaced (stepsLoad_singleton.mp hl)
  · rename_i hexpr
    rw [if_neg hexpr]
    exact h.inner hl

theorem stepsLoad_of_unlessLiteral {reason : Reason} {otherwise : List Step}
    (hl : StepsLoad s e (Setting.unlessLiteral reason c otherwise)) : StepsLoad s e otherwise := by
  unfold Setting.unlessLiteral at hl
  split at hl
  · exact absurd (stepsLoad_singleton.mp hl) Step.not_loads_notes
  · exact hl

end Child

namespace Setting

variable {role next : Role} {kind : Kind} {span : Span} {cs : List Child} {c : Child}

namespace Meets

theorem of_mem (hlater : kind.runsLater role = false) (hrole : kind.isUniform role = true)
    (hc : c ∈ cs) (hturns : kind.Turns role c.kind next) (h : s.Meets e next c.node) :
    s.Meets e role (.mk kind span (cs.map (·.1))) :=
  .down hlater (Kind.not_member_of_isUniform hrole) (List.mem_map_of_mem hc) hturns h

theorem of_visitAll (hcs : ∀ c ∈ cs, c.Met s e) (hlater : kind.runsLater role = false)
    (hrole : kind.isUniform role = true) (hl : StepsLoad s e (visitAll cs)) :
    s.Meets e role (.mk kind span (cs.map (·.1))) := by
  obtain ⟨c, hc, hl⟩ := stepsLoad_flatMap.mp hl
  exact of_mem hlater hrole hc (.visit hrole) ((hcs c hc).visit hl)

theorem of_items (hcs : ∀ c ∈ cs, c.Met s e) (hlater : kind.runsLater role = false)
    (hrole : kind.isUniform role = true) (hl : StepsLoad s e (cs.map (item s))) :
    s.Meets e role (.mk kind span (cs.map (·.1))) := by
  obtain ⟨c, hc, hl⟩ := stepsLoad_map.mp hl
  exact of_mem hlater hrole hc (.visit hrole) ((hcs c hc).visit hl.of_scope.2)

/-! ### Markup -/

theorem mem_childrenFrom {runs : List Markup.Run} {all rest : List Child} {index resume : Nat}
    {x : Step} (hx : x ∈ childrenFrom runs all index resume rest) :
    (∃ r ∈ runs, x ∈ Setting.run r all) ∨ ∃ c ∈ rest, x ∈ c.views.inner () := by
  fun_induction childrenFrom runs all index resume rest with
  | case1 => cases hx
  | case2 index resume d rest _ ih =>
    exact (ih hx).imp_right fun ⟨c, hc, hx⟩ => ⟨c, List.mem_cons_of_mem _ hc, hx⟩
  | case3 index resume d rest _ r hfind ih =>
    rcases List.mem_append.mp hx with hx | hx
    · exact .inl ⟨r, List.mem_of_find?_eq_some hfind, hx⟩
    · exact (ih hx).imp_right fun ⟨c, hc, hx⟩ => ⟨c, List.mem_cons_of_mem _ hc, hx⟩
  | case4 index resume d rest _ _ ih =>
    rcases List.mem_append.mp hx with hx | hx
    · exact .inr ⟨d, List.mem_cons_self .., hx⟩
    · exact (ih hx).imp_right fun ⟨c, hc, hx⟩ => ⟨c, List.mem_cons_of_mem _ hc, hx⟩

theorem of_markup (hcs : ∀ c ∈ cs, c.Met s e) {kids : List Child}
    (hlater : kind.runsLater role = false) (hholder : kind.isHolder = true)
    (hrole : kind.isUniform role = true)
    (hmarkup : Markup.isMarkup (.mk kind span (cs.map (·.1))) = true)
    (hraw : (Node.mk kind span (cs.map (·.1))).isRaw = false)
    (hkids : Markup.rendered (.mk kind span (cs.map (·.1))) = kids.map (·.1)) (hsub : kids ⊆ cs)
    (hl : StepsLoad s e (markupChildren s span kids)) :
    s.Meets e role (.mk kind span (cs.map (·.1))) := by
  have hinto : ∀ c ∈ kids, ∀ next, s.Meets e next c.node →
      s.Meets e role (.mk kind span (cs.map (·.1))) := fun c hc next h =>
    of_mem hlater hrole (hsub hc) (.held hholder hrole) h
  obtain ⟨x, hx, hl⟩ := hl
  rcases mem_childrenFrom hx with ⟨r, hr, hx⟩ | ⟨c, hc, hx⟩
  · simp only [Setting.run] at hx
    split at hx
    · rename_i span' hspan
      rw [List.mem_singleton.mp hx] at hl
      rcases hl.of_braced with he | ⟨v, hv, hl⟩
      · exact .run hmarkup hraw hr (hkids ▸ hspan) he
      · obtain ⟨c, hc, rfl⟩ := OutlinedAt.mem_runSlots hv
        exact hinto c hc _ ((hcs c (hsub hc)).expr 1 hl)
    · cases hx
  · exact hinto c hc _ ((hcs c (hsub hc)).inner ⟨x, hx, hl⟩)

theorem of_element {opening : Child} {kids : List Child}
    (hcs : ∀ c ∈ opening :: kids, c.Met s e)
    (hl : StepsLoad s e (opening.visit ++
      if isRawOpening opening.node then [] else markupChildren s span kids)) :
    s.Meets e role (.mk .element span ((opening :: kids).map (·.1))) := by
  rcases stepsLoad_append.mp hl with hl | hl
  · have hopening := (hcs opening (List.mem_cons_self ..)).visit hl
    exact of_mem rfl rfl (List.mem_cons_self ..) (.visit rfl) hopening
  · split at hl
    · exact absurd hl not_stepsLoad_nil
    · rename_i hraw
      exact of_markup hcs rfl rfl rfl rfl (Bool.eq_false_iff.mpr hraw) rfl
        (List.subset_cons_self _ _) hl

theorem of_markupText {value : String} (hl : StepsLoad s e (markupText s span value)) :
    s.Meets e role (.mk (.text value) span (cs.map (·.1))) := by
  unfold Setting.markupText at hl
  simp only at hl
  split at hl
  · exact absurd hl not_stepsLoad_nil
  · split at hl
    · exact absurd (stepsLoad_singleton.mp hl) Step.not_loads_notes
    · rcases (stepsLoad_singleton.mp hl).of_braced with he | ⟨v, hv, -⟩
      · exact .text .text he
      · cases hv

theorem of_attributeText {value : String} (hl : StepsLoad s e (attributeText span value)) :
    s.Meets e role (.mk (.attrText value) span (cs.map (·.1))) := by
  unfold Setting.attributeText at hl
  split at hl
  · rcases (stepsLoad_singleton.mp hl).of_braced with he | ⟨v, hv, -⟩
    · exact .text .attribute he
    · cases hv
  · exact absurd hl not_stepsLoad_nil

/-! ### Nodes visited where they stand -/

theorem of_declarator (hcs : ∀ c ∈ cs, c.Met s e)
    (hl : StepsLoad s e (declarator s span.lo cs)) :
    s.Meets e role (.mk .declarator span (cs.map (·.1))) := by
  cases cs with
  | nil => exact absurd hl not_stepsLoad_nil
  | cons pattern init =>
    have hname : s.bindingName [] (.mk .declarator span (pattern.1 :: init.map (·.1))) =
        some (s.declaredName pattern.node) := rfl
    rcases (stepsLoad_singleton.mp hl).of_binding with he | hl
    · exact .binding hname he
    · exact of_visitAll hcs rfl rfl (stepsLoad_singleton.mp hl).of_scope.2

theorem of_staticField (hcs : ∀ c ∈ cs, c.Met s e)
    (hl : StepsLoad s e (staticField s span.lo cs)) :
    s.Meets e role (.mk (.field true) span (cs.map (·.1))) := by
  cases cs with
  | nil => exact absurd hl not_stepsLoad_nil
  | cons key init =>
    rcases (stepsLoad_singleton.mp hl).of_staticField with ⟨classes, he⟩ | hl
    · have hname : s.bindingName classes (.mk (.field true) span (key.1 :: init.map (·.1))) =
          some (classes.headD "class" ++ "." ++ s.source.snippet key.node.span) := rfl
      exact .binding hname he
    · exact of_visitAll hcs rfl rfl hl

theorem of_computedMember (hcs : ∀ c ∈ cs, c.Met s e)
    (hl : StepsLoad s e (inner s (.member .computed) span cs)) :
    s.Meets e role (.mk (.member .computed) span (cs.map (·.1))) := by
  match cs, hcs, hl with
  | [], hcs, hl => exact of_visitAll hcs rfl rfl hl
  | [_], hcs, hl => exact of_visitAll hcs rfl rfl hl
  | [object, accessed], hcs, hl =>
    have hinto : ∀ c ∈ [object, accessed], StepsLoad s e c.visit →
        s.Meets e role (.mk (.member .computed) span [object.1, accessed.1]) := fun c hc hl =>
      of_mem rfl rfl hc (.visit rfl) ((hcs c hc).visit hl)
    rcases stepsLoad_append.mp hl with hl | hl
    · exact hinto object (by simp) hl
    · exact hinto accessed (by simp) (Child.stepsLoad_of_unlessLiteral hl)
  | _ :: _ :: _ :: _, hcs, hl => exact of_visitAll hcs rfl rfl hl

theorem of_switchCase {test : Child} {body : List Child} (hcs : ∀ c ∈ test :: body, c.Met s e)
    (hl : StepsLoad s e (unlessLiteral .comparison test test.visit ++ visitAll body)) :
    s.Meets e role (.mk (.switchCase true) span ((test :: body).map (·.1))) := by
  rcases stepsLoad_append.mp hl with hl | hl
  · have htest := (hcs test (List.mem_cons_self ..)).visit (Child.stepsLoad_of_unlessLiteral hl)
    exact of_mem rfl rfl (List.mem_cons_self ..) (.visit rfl) htest
  · obtain ⟨c, hc, hl⟩ := stepsLoad_flatMap.mp hl
    have hmem := List.mem_cons_of_mem test hc
    exact of_mem rfl rfl hmem (.visit rfl) ((hcs c hmem).visit hl)

theorem of_inner (hcs : ∀ c ∈ cs, c.Met s e) (hrole : kind.isUniform role = true)
    (harrow : kind = .arrow → role ≠ .value) (hl : StepsLoad s e (inner s kind span cs)) :
    s.Meets e role (.mk kind span (cs.map (·.1))) := by
  cases kind with
  | module | namespaceDecl => exact of_items hcs rfl rfl hl
  | function | classConstructor | getter | setter =>
    exact nomatch (stepsLoad_singleton.mp hl).of_scope.1
  | field isStatic =>
    cases isStatic with
    | true => exact of_staticField hcs hl
    | false => exact nomatch (stepsLoad_singleton.mp hl).of_scope.1
  | member access =>
    cases access with
    | computed => exact of_computedMember hcs hl
    | name | hidden => exact of_visitAll hcs rfl rfl hl
  | enumDecl => exact absurd (stepsLoad_singleton.mp hl) Step.not_loads_notes
  | switchCase hasTest =>
    cases hasTest with
    | true =>
      cases cs with
      | nil => exact absurd hl not_stepsLoad_nil
      | cons test body => exact of_switchCase hcs hl
    | false => exact of_visitAll hcs rfl rfl hl
  | element =>
    cases cs with
    | nil => exact absurd hl not_stepsLoad_nil
    | cons opening kids => exact of_element hcs hl
  | fragment => exact of_markup hcs rfl rfl rfl rfl rfl rfl (List.Subset.refl cs) hl
  | text => exact of_markupText hl
  | attrText => exact of_attributeText hl
  | attr | bare =>
    obtain ⟨c, hc, hl⟩ := stepsLoad_flatMap.mp hl
    exact of_mem rfl rfl hc (.held rfl rfl) ((hcs c hc).inner hl)
  | declarator => exact of_declarator hcs hl
  | exportDefault =>
    rcases (stepsLoad_singleton.mp hl).of_binding with he | hl
    · have hname : s.bindingName [] (.mk .exportDefault span (cs.map (·.1))) = some "default" := rfl
      exact .binding hname he
    · exact of_visitAll hcs rfl rfl hl
  | functionDecl | functionExpr | classDecl | classExpr =>
    exact of_visitAll hcs rfl rfl (stepsLoad_singleton.mp hl).of_scope.2
  | arrow =>
    refine of_visitAll hcs ?_ rfl hl
    cases role with
    | value => exact absurd rfl (harrow rfl)
    | visited | member => rfl
  | _ => exact of_visitAll hcs rfl hrole hl

/-! ### Expressions -/

theorem of_rebuilt (hcs : ∀ c ∈ cs, c.Met s e) (hlater : kind.runsLater role = false)
    (hrole : kind.isUniform role = true) {parts : List Child} (hsub : parts ⊆ cs) {depth : Nat}
    (hl : (rebuilt span parts depth).Loads s e) :
    s.Meets e role (.mk kind span (cs.map (·.1))) := by
  obtain ⟨c, hc, hl⟩ := stepsLoad_map.mp hl.of_rebuild
  exact of_mem hlater hrole (hsub hc) (.value hrole) ((hcs c (hsub hc)).replaced hl)

theorem of_literal {value : Option String} {children : List Node}
    (hl : (literal span value).Loads s e) :
    s.Meets e role (.mk (.string value) span children) := by
  cases value with
  | none => exact absurd hl Value.not_loads_notes
  | some text =>
    unfold literal at hl
    simp only at hl
    split at hl
    · rcases hl.of_message with he | ⟨v, hv, -⟩
      · exact .text .string he
      · cases hv
    · exact absurd hl Value.not_loads_notes

theorem of_comparison (hcs : ∀ c ∈ cs, c.Met s e) {depth : Nat}
    (hl : (comparison span cs depth).Loads s e) :
    s.Meets e role (.mk (.binary .compare) span (cs.map (·.1))) := by
  obtain ⟨c, hc, hl⟩ := stepsLoad_flatMap.mp hl.of_rebuild
  have hoperand := stepsLoad_singleton.mp (Child.stepsLoad_of_unlessLiteral hl)
  exact of_mem rfl rfl hc (.value rfl) ((hcs c hc).replaced hoperand)

theorem of_call (hcs : ∀ c ∈ cs, c.Met s e) {depth : Nat} (hl : (call s span cs depth).Loads s e) :
    s.Meets e role (.mk .call span (cs.map (·.1))) := by
  unfold call at hl
  split at hl
  · exact absurd hl Value.not_loads_notes
  · split at hl
    · exact absurd hl Value.not_loads_notes
    · split at hl
      · split at hl
        · exact absurd hl Value.not_loads_notes
        · split at hl
          · exact absurd hl Value.not_loads_notes
          · exact of_rebuilt hcs rfl rfl OutlinedAt.valueParts_subset hl
      · exact of_rebuilt hcs rfl rfl OutlinedAt.valueParts_subset hl

theorem of_construct (hcs : ∀ c ∈ cs, c.Met s e) {depth : Nat}
    (hl : (construct s span cs depth).Loads s e) :
    s.Meets e role (.mk .construct span (cs.map (·.1))) := by
  unfold construct at hl
  split at hl
  · exact absurd hl Value.not_loads_notes
  · split at hl
    · split at hl
      · exact absurd hl Value.not_loads_notes
      · exact of_rebuilt hcs rfl rfl OutlinedAt.valueParts_subset hl
    · exact of_rebuilt hcs rfl rfl OutlinedAt.valueParts_subset hl

theorem of_object (hcs : ∀ c ∈ cs, c.Met s e) {depth : Nat}
    (hl : StepsLoad s e (cs.flatMap (·.views.member depth))) :
    s.Meets e .value (.mk .object span (cs.map (·.1))) := by
  obtain ⟨c, hc, hl⟩ := stepsLoad_flatMap.mp hl
  have hturns : Kind.object.Turns .value c.kind .member :=
    ⟨fun _ hheld => absurd hheld (by simp [Kind.isHolder]), fun _ _ => rfl⟩
  exact .down rfl (by simp [Node.kind]) (List.mem_map_of_mem hc) hturns ((hcs c hc).member depth hl)

theorem of_constAssertion (hcs : ∀ c ∈ cs, c.Met s e) {depth : Nat}
    (hl : (constAssertion span cs depth).Loads s e) :
    s.Meets e role (.mk .constAssertion span (cs.map (·.1))) := by
  unfold constAssertion at hl
  split at hl
  · exact of_mem rfl rfl (List.mem_singleton_self _) (.value rfl) (of_literal hl)
  · exact of_rebuilt hcs rfl rfl (List.Subset.refl cs) hl

theorem of_slotsOf (hcs : ∀ c ∈ cs, c.Met s e) {depth : Nat} {v : Value}
    (hv : v ∈ slotsOf kind cs depth) (hl : v.Loads s e) :
    s.Meets e role (.mk kind span (cs.map (·.1))) := by
  unfold slotsOf at hv
  split at hv
  · obtain ⟨c, hc, rfl⟩ := List.mem_map.mp hv
    have hc := List.mem_of_mem_take hc
    exact of_mem rfl rfl hc (.value rfl) ((hcs c hc).expr depth hl)
  · obtain ⟨c, hc, hv⟩ := List.mem_flatMap.mp hv
    exact of_mem rfl rfl hc (.value rfl) ((hcs c hc).slots depth v hv hl)
  · cases hv

theorem of_message {children : List Node} {parts : List Part}
    (hmessage : messageOf kind span children = some parts) (he : e = .site ⟨span, .interpolated⟩) :
    s.Meets e role (.mk kind span children) := by
  unfold messageOf at hmessage
  split at hmessage
  · exact .text .template he
  · exact .text .chain he
  · cases hmessage

theorem of_exprWithin (hcs : ∀ c ∈ cs, c.Met s e) {depth : Nat}
    (hl : (exprWithin s kind span cs depth).Loads s e) :
    s.Meets e .value (.mk kind span (cs.map (·.1))) := by
  unfold exprWithin at hl
  simp only at hl
  split at hl
  · rename_i hmessage
    rcases hl.of_message with he | ⟨v, hv, hl⟩
    · exact of_message hmessage he
    · exact of_slotsOf hcs hv hl
  · cases kind with
    | string value => exact of_literal hl
    | template | conditional | paren | array =>
      exact of_rebuilt hcs rfl rfl (List.Subset.refl cs) hl
    | binary op =>
      cases op with
      | compare => exact of_comparison hcs hl
      | add | other => exact of_rebuilt hcs rfl rfl (List.Subset.refl cs) hl
    | tagged => exact of_rebuilt hcs rfl rfl OutlinedAt.valueParts_subset hl
    | call => exact of_call hcs hl
    | construct => exact of_construct hcs hl
    | object => exact of_object hcs hl.of_rebuild
    | arrow => exact nomatch hl.of_scope.1
    | constAssertion => exact of_constAssertion hcs hl
    | _ => exact of_inner hcs rfl (by simp) hl.of_rebuild

/-! ### All roles of a node -/

theorem of_property (hcs : ∀ c ∈ cs, c.Met s e) {depth : Nat}
    (hl : StepsLoad s e (property cs depth)) :
    s.Meets e .member (.mk .property span (cs.map (·.1))) := by
  unfold property at hl
  split at hl
  · rename_i key value
    have hkey := hcs key (by simp)
    have hvalue := hcs value (by simp)
    split at hl
    · rename_i hcomputed
      have hkind : key.1.kind = .computedKey := beq_iff_eq.mp hcomputed
      rcases stepsLoad_append.mp hl with hl | hl
      · exact .key hkind (hkey.member depth hl)
      · exact .value (.inl hkind) (hvalue.replaced (stepsLoad_singleton.mp hl))
    · split at hl
      · rename_i hdeferred
        exact .value (.inr hdeferred) (hvalue.replaced (stepsLoad_singleton.mp hl))
      · exact absurd (stepsLoad_singleton.mp hl) Step.not_loads_property
  · exact absurd hl not_stepsLoad_nil

theorem of_operandSlots (hcs : ∀ c ∈ cs, c.Met s e) {expr : Nat → Value} {depth : Nat}
    (hexpr : (expr depth).Loads s e → s.Meets e role (.mk kind span (cs.map (·.1))))
    {v : Value} (hv : v ∈ operandSlots kind cs expr depth) (hl : v.Loads s e) :
    s.Meets e role (.mk kind span (cs.map (·.1))) := by
  unfold operandSlots at hv
  split at hv
  · cases hv
  · cases hv
  · exact of_slotsOf hcs hv hl
  · exact of_slotsOf hcs hv hl
  · rw [List.mem_singleton.mp hv] at hl
    exact hexpr hl

/-- A key that is computed keeps a literal in an object literal and nowhere else. -/
theorem of_computedKey (hcs : ∀ c ∈ cs, c.Met s e) (hl : StepsLoad s e (visitAll cs)) :
    s.Meets e role (.mk .computedKey span (cs.map (·.1))) := by
  obtain ⟨c, hc, hl⟩ := stepsLoad_flatMap.mp hl
  exact .down rfl (by simp [Node.kind]) (List.mem_map_of_mem hc) .key ((hcs c hc).visit hl)

/-- A node that stands for the expression that it holds. -/
theorem of_held {held : Child} (hheld : held.Met s e) (hlater : ∀ role, kind.runsLater role = false)
    (hrole : ∀ role, kind.isUniform role = true) {member : Nat → List Step}
    (hmember : ∀ depth, StepsLoad s e (member depth) →
      s.Meets e .member (.mk kind span [held.1])) :
    Child.Met s e (.mk kind span [held.1],
      ⟨held.views.expr, fun _ => held.visit, fun depth => [held.views.expr depth], member⟩) := by
  have hinto : ∀ {role next}, kind.Turns role held.kind next → s.Meets e next held.node →
      s.Meets e role (.mk kind span [held.1]) :=
    of_mem (hlater _) (hrole _) (List.mem_singleton_self held)
  have hvalue : ∀ depth, (held.views.expr depth).Loads s e →
      s.Meets e .value (.mk kind span [held.1]) :=
    fun depth hl => hinto (.value (hrole _)) (hheld.expr depth hl)
  refine ⟨hvalue, fun hl => hinto (.visit (hrole _)) (hheld.visit hl), ?_, hmember⟩
  intro depth v hv hl
  rw [List.mem_singleton.mp hv] at hl
  exact hvalue depth hl

theorem of_views (hcs : ∀ c ∈ cs, c.Met s e) :
    Child.Met s e (.mk kind span (cs.map (·.1)), views s kind span cs) := by
  unfold views
  split
  case h_1 held =>
    have hheld := hcs held (List.mem_singleton_self held)
    refine of_held hheld (fun _ => rfl) (fun _ => rfl) fun depth hl => ?_
    have hvalue := hheld.replaced (stepsLoad_singleton.mp hl)
    exact of_mem rfl rfl (List.mem_singleton_self held) (.value rfl) hvalue
  case h_2 held =>
    have hheld := hcs held (List.mem_singleton_self held)
    refine of_held hheld (fun _ => rfl) (fun _ => rfl) fun _ hl => ?_
    exact of_mem rfl rfl (List.mem_singleton_self held) (.visit rfl) (hheld.visit hl)
  case h_3 key =>
    have hvisit : ∀ role, StepsLoad s e key.visit →
        s.Meets e role (.mk .computedKey span [key.1]) := fun role hl =>
      of_computedKey hcs (by simpa [visitAll] using hl)
    refine ⟨fun _ hl => absurd hl Value.not_loads_notes, hvisit _, fun _ v hv hl => ?_,
      fun _ hl => hvisit _ (Child.stepsLoad_of_unlessLiteral hl)⟩
    rw [List.mem_singleton.mp hv] at hl
    exact absurd hl Value.not_loads_notes
  case h_4 =>
    refine ⟨fun _ hl => absurd hl Value.not_loads_notes, of_visitAll hcs rfl rfl,
      fun _ v hv hl => ?_, fun _ => of_property hcs⟩
    rw [List.mem_singleton.mp hv] at hl
    exact absurd hl Value.not_loads_notes
  case h_5 hproperty _ _ hkey =>
    generalize hview : (fun depth => if s.options.maxDepth < depth then Value.abort span.lo
      else exprWithin s kind span cs depth) = expr
    have hexpr : ∀ depth, (expr depth).Loads s e →
        s.Meets e .value (.mk kind span (cs.map (·.1))) := by
      intro depth hl
      rw [← hview] at hl
      simp only at hl
      split at hl
      · exact absurd hl Value.not_loads_abort
      · exact of_exprWithin hcs hl
    refine ⟨hexpr, of_inner hcs kind.isUniform_visited (by simp),
      fun depth _ => of_operandSlots hcs (hexpr depth), fun _ hl => ?_⟩
    by_cases hcomputed : kind = .computedKey
    · subst hcomputed
      exact of_computedKey hcs hl
    · have hrole : kind.isUniform .member = true := by
        cases kind <;> first | rfl | contradiction
      exact of_inner hcs hrole (by simp) hl

end Meets

theorem viewsOf_met (s : Setting) (e : LoadEvent) (n : Node) : Child.Met s e (n, s.viewsOf n) := by
  induction n using Node.inductOn with
  | mk kind span children ih =>
    have hcs : ∀ c ∈ s.viewsOfAll children, c.Met s e := by
      intro c hc
      rw [viewsOfAll_eq] at hc
      obtain ⟨n, hn, rfl⟩ := List.mem_map.mp hc
      exact ih n hn
    have hchildren : (s.viewsOfAll children).map (·.1) = children := by
      simp [viewsOfAll_eq, Function.comp_def]
    have hviews : Child.Met s e (.mk kind span ((s.viewsOfAll children).map (·.1)),
        s.viewsOf (.mk kind span children)) := Meets.of_views hcs
    rwa [hchildren] at hviews

/-- What happens while the module is loaded is found by going down from the root. -/
theorem meets_of_trace_has (h : s.trace.Has e) : s.Meets e .visited s.source.tree :=
  (s.viewsOf_met e s.source.tree).inner (.of_trace h)

/-! ### What is never met at once -/

namespace Meets

variable {n c m value key : Node}

theorem not_of_runsLater (hlater : n.kind.runsLater role = true) : ¬s.Meets e role n := by
  intro h
  cases h with
  | text hcarries => cases hcarries <;> cases hlater
  | run hmarkup =>
    rcases Bool.or_eq_true_iff.mp hmarkup with hkind | hkind <;>
      rw [beq_iff_eq.mp hkind] at hlater <;> cases hlater
  | binding hname =>
    unfold bindingName at hname
    split at hname <;> first | cases hlater | cases hname
  | down hnow =>
    rw [hnow] at hlater
    cases hlater
  | key => cases hlater
  | value => cases hlater

/-- Functions that are left where they stand run later as a whole. -/
theorem not_of_isDeferredValue (hdeferred : isDeferredValue n = true) (hobject : n.kind ≠ .object)
    (hshape : n.holdsFunctions = true) : ¬s.Meets e .value n := by
  intro h
  unfold isDeferredValue at hdeferred
  split at hdeferred
  · rename_i hkind
    exact h.not_of_runsLater (by rw [hkind]; rfl)
  · rename_i name hkind
    simp only [Node.holdsFunctions, hkind, List.all_eq_true, beq_iff_eq] at hshape
    cases h with
    | text hcarries => cases hcarries <;> cases hkind
    | run hmarkup => simp [Markup.isMarkup, hkind] at hmarkup
    | binding hname =>
      unfold bindingName at hname
      split at hname <;> first | cases hkind | cases hname
    | down _ _ hc _ h => exact h.not_of_runsLater (by rw [hshape _ hc]; rfl)
  · rename_i hkind
    exact absurd hkind hobject
  · cases hdeferred

/-- A property whose key is not computed leads to its value only if that is an object literal. -/
theorem not_of_property (hkey : key.kind ≠ .computedKey) (hobject : value.kind ≠ .object)
    (hshape : value.holdsFunctions = true) :
    ¬s.Meets e .member (.mk .property span [key, value]) := by
  intro h
  cases h with
  | text hcarries => cases hcarries
  | run hmarkup => cases hmarkup
  | binding hname => cases hname
  | down _ hrole => exact hrole rfl rfl
  | key hcomputed => exact hkey hcomputed
  | value hleft h =>
    exact h.not_of_isDeferredValue (hleft.resolve_left hkey) hobject hshape

/-- A binding that is met belongs to a node below. -/
theorem exists_binding {name : String} {pos : Nat} (h : s.Meets (.binding name pos) role n) :
    ∃ m ∈ n.subnodes, ∃ classes, s.bindingName classes m = some name ∧ pos = m.span.lo := by
  have hup : ∀ {n c : Node}, c ∈ n.children →
      (∃ m ∈ c.subnodes, ∃ classes, s.bindingName classes m = some name ∧ pos = m.span.lo) →
      ∃ m ∈ n.subnodes, ∃ classes, s.bindingName classes m = some name ∧ pos = m.span.lo := by
    rintro n c hc ⟨m, hm, hname⟩
    exact ⟨m, Node.subnodes_subset_of_mem_children hc hm, hname⟩
  induction h with
  | text _ he => cases he
  | run _ _ _ _ he => cases he
  | binding hname he =>
    cases he
    exact ⟨_, Node.mem_subnodes_self _, _, hname, rfl⟩
  | down _ _ hc _ _ ih => exact hup hc ih
  | key _ _ ih => exact hup (List.mem_cons_self ..) ih
  | value _ _ ih => exact hup (List.mem_cons_of_mem _ (List.mem_singleton_self _)) ih

end Meets

end Setting

end Phrasebook
