import Phrasebook.Proofs.Cursors

/-!
Statements of a module's head, read back: the import of a default name, an import that a default
name is added to, another name for one that is there, and a string alone.
-/
namespace Phrasebook.Script

namespace Grammar

open Parse

/-! #### Readers of names -/

section

variable {c : Cursor}

theorem passes_renamed (first : String) : Passes 0 (renamed first) c :=
  (Passes.acceptWord "as").bind fun _ _ => .ite (fun _ => Passes.bindingName.any)
    fun _ => .ite (fun _ => .fail) fun _ => .pure first

theorem passes_typeAsImport : Passes 0 typeAsImport c := by
  refine .get (fun d h => by rw [h.word?]) ?_
  refine .ite (fun _ => .pure "as") fun _ => ?_
  refine Passes.bindingName.any.bind fun bound e => ?_
  refine .get (fun d h => by rw [h.word?]) ?_
  exact .ite (fun _ => Passes.bindingName.any) fun _ => .pure bound

theorem passes_importedName : Passes 0 importedName c := by
  refine .test (fun d h => h.isString) ?_
  refine .ite (fun hstring => ?_) fun _ => ?_
  · exact (Passes.advance (c.isPlain_of_isString hstring)).any.bind fun _ _ =>
      (Passes.expectWord "as").any.bind fun _ _ => Passes.bindingName.any
  · refine Passes.anyName.any.bind fun first e => ?_
    refine .get (fun d h => by rw [h.word?]) ?_
    refine .ite (fun _ => ?_) fun _ => passes_renamed first
    exact Passes.anyName.any.bind fun second _ =>
      .ite (fun _ => passes_typeAsImport) fun _ => passes_renamed second

theorem passes_importedNames (phase : Phase) : Passes 0 (importedNames phase) c := by
  refine .get (fun d h => by rw [h.isPunct, h.isPunct]) ?_
  refine .ite (fun hstar => ?_) fun _ => .ite (fun hbrace => ?_) fun _ => .pure []
  · have hplain := c.isPlain_of_isPunct (Bool.and_eq_true_iff.mp hstar).2 rfl
    exact (Passes.advance hplain).any.bind fun _ _ => (Passes.expectWord "as").any.bind fun _ _ =>
      Passes.bindingName.any.bind fun _ _ => .pure _
  · have hplain := c.isPlain_of_isPunct (Bool.and_eq_true_iff.mp hbrace).2 rfl
    exact (Passes.advance hplain).any.bind fun _ _ =>
      (Passes.commaList (fun _ => passes_importedName) rfl).any.bind fun _ _ => .pure _

end

/-! #### The import of a default name -/

variable {rec : Rec} {lo : Nat} {c : Cursor} {name : String} {source : Option String}

theorem importDecl_of_import (hword : c.isWord "import" = true) {typeOnly : Bool}
    {names : List ImportName} {d : Cursor}
    (hhead : importHead c.next = .ok (.names typeOnly names) d) :
    importDecl rec lo c = importSource rec lo typeOnly names d := by
  rw [importDecl, Parse.bind_of_ok (Parse.expectWord_of hword)]
  exact Parse.bind_of_ok hhead

/-- An import whose first word is its default name. -/
theorem importHead_of_name (hname : c.OnName name)
    (hafter : c.next.token = .word "from" (some "from") ∨ c.next.token = .punct ",")
    (hfrom : c.next.next.isWord "from" = false) (hequals : c.next.next.isPunct "=" = false) :
    importHead c = importAfterDefault false .evaluation name c.next := by
  have hpunct : c.next.anyPunct ["*", "\x7b"] = false := by
    rcases hafter with hafter | hafter <;> simp [Cursor.anyPunct, hafter]
  have hassign : c.next.isPunct "=" = false := by
    rcases hafter with hafter | hafter <;> simp [Cursor.isPunct, hafter]
  have hother : (c.next.isName && !c.next.isWord "from") = false := by
    rcases hafter with hafter | hafter <;> simp [Cursor.isName, Cursor.isWord, hafter]
  have hword : importAfterWord false name c.next =
      importAfterDefault false .evaluation name c.next := by
    rw [importAfterWord, Parse.get_bind, hpunct, hassign, hother, hfrom]
    simp
  rw [← hword, importHead, Parse.get_bind, hname.isString, hname.isName]
  simp only [Bool.false_eq_true, if_false, Bool.not_true]
  rw [Parse.bind_of_ok hname.bindingName, Parse.get_bind, hpunct, hfrom, hequals]
  rcases hafter with hafter | hafter <;> simp [Cursor.isName, Cursor.isWord, hafter]

/-- Nothing stands between the default name and `from`. -/
theorem importAfterDefault_of_from {phase : Phase}
    (hfrom : c.token = .word "from" (some "from")) :
    importAfterDefault false phase name c = .ok (.names false [⟨.default, name⟩]) c.next := by
  have hisFrom : c.isWord "from" = true := by simp [Cursor.isWord, hfrom]
  have hnames : importedNames phase c = .ok [] c := by
    rw [importedNames, Parse.get_bind]
    simp [Cursor.isPunct, hfrom]
  rw [importAfterDefault, Parse.isWord_bind, hisFrom]
  exact (Parse.bind_of_ok hnames).trans (Parse.bind_of_ok (Parse.expectWord_of hisFrom))

theorem importAfterDefault_of_comma {phase : Phase} (hcomma : c.token = .punct ",") :
    importAfterDefault false phase name c = importRest false phase [⟨.default, name⟩] c.next := by
  have hisFrom : c.isWord "from" = false := by simp [Cursor.isWord, hcomma]
  rw [importAfterDefault, Parse.isWord_bind, hisFrom]
  exact Parse.bind_of_ok (Parse.expect_of (by simp [Cursor.isPunct, hcomma]))

theorem importSource_of_end {typeOnly : Bool} {names : List ImportName}
    (hsource : c.token = .string source)
    (hattributes : (c.next.anyWord ["with", "assert"] && !c.next.newline) = false)
    (hend : c.next.endsStatement = true) :
    importSource rec lo typeOnly names c =
      .ok (.mk (.importDecl typeOnly source names) ⟨lo, c.next.pastSemicolon.last⟩ [])
        c.next.pastSemicolon := by
  have hmodule : moduleSource c = .ok source c.next := by
    rw [moduleSource, Parse.get_bind, hsource]
    rfl
  have hnone : importAttributes rec c.next = .ok [] c.next := by
    rw [importAttributes, Parse.get_bind, hattributes]
    rfl
  rw [importSource, Parse.bind_of_ok hmodule, Parse.bind_of_ok hnone,
    Parse.bind_of_ok (Parse.semicolon_eq_ok (u := ()) |>.mpr ⟨hend, rfl⟩)]
  rfl

/-- An import without attributes ends with the name of its module, and a semicolon where one
stands. -/
theorem importSource_inv {typeOnly : Bool} {names : List ImportName} {item : Node} {e : Cursor}
    (h : importSource rec lo typeOnly names c = .ok item e) (hplain : item.children = []) :
    ∃ source, c.token = .string source ∧
      (c.next.anyWord ["with", "assert"] && !c.next.newline) = false ∧
      c.next.endsStatement = true ∧ e = c.next.pastSemicolon ∧
      item = .mk (.importDecl typeOnly source names) ⟨lo, e.last⟩ [] := by
  obtain ⟨source, c1, hsource, h⟩ := Parse.bind_eq_ok.mp h
  obtain ⟨attributes, c2, hattributes, h⟩ := Parse.bind_eq_ok.mp h
  obtain ⟨_, c3, hend, h⟩ := Parse.bind_eq_ok.mp h
  cases h
  obtain rfl : attributes = [] := hplain
  obtain ⟨htoken, rfl⟩ : c.token = .string source ∧ c1 = c.next := by
    rw [moduleSource, Parse.get_bind] at hsource
    cases htoken : c.token with
    | string value =>
      rw [htoken] at hsource
      cases hsource
      exact ⟨rfl, rfl⟩
    | _ =>
      rw [htoken] at hsource
      cases hsource
  rw [importAttributes, Parse.get_bind] at hattributes
  split at hattributes
  · obtain ⟨_, _, -, hattributes⟩ := Parse.bind_eq_ok.mp hattributes
    obtain ⟨_, _, -, hattributes⟩ := Parse.bind_eq_ok.mp hattributes
    cases hattributes
  · rename_i hnone
    cases hattributes
    obtain ⟨hends, rfl⟩ := Parse.semicolon_eq_ok.mp hend
    exact ⟨source, htoken, Bool.eq_false_iff.mpr hnone, hends, rfl, rfl⟩

theorem decorators_of_none (h : c.isPunct "@" = false) (hfuel : 0 < c.fuel) :
    decorators rec c = .ok [] c := by
  obtain ⟨fuel, hfuel⟩ : ∃ n, c.fuel = n + 1 := ⟨c.fuel - 1, by omega⟩
  rw [decorators, Parse.many, Parse.get_bind, hfuel, Parse.manyWith, Parse.test_bind, h]
  rfl

/-- An item that starts with `import` and loads nothing while it runs is an import. -/
theorem item_of_import (hword : c.isWord "import" = true)
    (hnext : c.next.anyPunct ["(", "."] = false) (hfuel : 0 < c.fuel) :
    item rec c = importDecl rec c.start.pos c := by
  obtain ⟨text, htoken⟩ := Cursor.exists_word hword
  have hat : c.isPunct "@" = false := by simp [Cursor.isPunct, htoken]
  have hexport : c.isWord "export" = false := by simp [Cursor.isWord, htoken]
  rw [item, Parse.here_bind, Parse.bind_of_ok (decorators_of_none hat hfuel), Parse.get_bind,
    hexport, hword, hnext]
  rfl

/-! #### A name or a string alone as an expression -/

/-- An expression has ended before this token: words among them are no operators. -/
def endsValue : Token → Bool
  | .eof | .string _ => true
  | .punct text => text == ";"
  | .word _ role => role.all fun op => (precedence op).isNone && !assignmentOperators.contains op
  | _ => false

section

variable {d : Cursor} {e : Node} (hend : endsValue d.token = true)

include hend

theorem isPunct_of_endsValue (text : String) (htext : text ≠ ";") : d.isPunct text = false := by
  cases htoken : d.token with
  | punct mark =>
    rw [htoken] at hend
    obtain rfl : mark = ";" := by simpa [endsValue] using hend
    simp [Cursor.isPunct, htoken, Ne.symm htext]
  | _ => simp [Cursor.isPunct, htoken]

theorem anyPunct_of_endsValue (texts : List String) (htexts : ";" ∉ texts) :
    d.anyPunct texts = false := by
  cases htoken : d.token with
  | punct mark =>
    rw [htoken] at hend
    obtain rfl : mark = ";" := by simpa [endsValue] using hend
    simpa [Cursor.anyPunct, htoken] using htexts
  | _ => rw [Cursor.anyPunct, htoken]

theorem operatorAt_of_endsValue {op : String} {after : Cursor}
    (h : operatorAt d = some (op, after)) :
    precedence op = none ∧ assignmentOperators.contains op = false := by
  unfold operatorAt at h
  cases htoken : d.token with
  | punct mark =>
    rw [htoken] at hend h
    obtain rfl : mark = ";" := by simpa [endsValue] using hend
    cases h
    exact ⟨rfl, rfl⟩
  | word text role =>
    rw [htoken] at hend h
    cases role with
    | none => cases h
    | some role =>
      cases h
      simpa [endsValue] using hend
  | _ =>
    rw [htoken] at h
    cases h

theorem link_of_end (calls computed inChain : Bool) (he : isBareCallee e = false) :
    link rec calls computed lo inChain e d = .ok (.last e) d := by
  have hpunct := isPunct_of_endsValue hend
  have hplain : plainLink rec calls computed lo inChain e [] d = .ok (.last e) d := by
    rw [plainLink, Parse.get_bind]
    simp only [Cursor.isOptionalLink, hpunct "?" (by decide), hpunct "[" (by decide),
      hpunct "(" (by decide), Bool.false_and, Bool.and_false, Bool.false_eq_true, if_false]
    rw [Parse.bind_of_ok (Parse.accept_of_not (hpunct "." (by decide)))]
    simp only [he, Bool.false_eq_true, if_false, List.isEmpty_nil, if_true]
    rw [Parse.bind_of_ok (Parse.pure_apply e), Parse.isPunct_bind, hpunct "\x60" (by decide)]
    rfl
  rw [link, Parse.get_bind, hpunct "!" (by decide), hpunct "<" (by decide)]
  exact hplain

theorem links_of_end (calls : Bool) (he : isBareCallee e = false) (hfuel : 0 < d.fuel) :
    links rec calls lo e d = .ok e d := by
  obtain ⟨fuel, hfuel⟩ : ∃ n, d.fuel = n + 1 := ⟨d.fuel - 1, by omega⟩
  rw [links, Parse.get_bind, hfuel, linksFrom, Parse.bind_of_ok (link_of_end hend _ _ _ he)]
  rfl

theorem binaryOperator_of_end (least : Nat) : binaryOperator least d = none := by
  cases hoperator : operatorAt d with
  | none => simp [binaryOperator, hoperator]
  | some found => simp [binaryOperator, hoperator, (operatorAt_of_endsValue hend hoperator).1]

theorem binaryFrom_of_end (hfuel : 0 < d.fuel) : binaryFrom rec lo d.fuel 0 e d = .ok e d := by
  obtain ⟨fuel, hfuel⟩ : ∃ n, d.fuel = n + 1 := ⟨d.fuel - 1, by omega⟩
  rw [hfuel, binaryFrom, Parse.get_bind, binaryOperator_of_end hend]
  rfl

theorem assigned_of_end : assigned rec lo e d = .ok e d := by
  rw [assigned, Parse.get_bind]
  cases hoperator : operatorAt d with
  | none => rfl
  | some found =>
    dsimp only
    rw [(operatorAt_of_endsValue hend hoperator).2]
    rfl

end

/-- A name or a string that is all of an expression. A name may also open an arrow function, so a
semicolon has to follow it. -/
inductive StandsAlone (c : Cursor) : Kind → Prop
  | name {name : String} (hname : c.OnName name) (hend : c.next.token = .punct ";") :
    StandsAlone c (.ident name)
  | string {value : Option String} (htoken : c.token = .string value)
    (hend : endsValue c.next.token = true) : StandsAlone c (.string value)

section

variable (hname : c.OnName name) (hend : c.next.token = .punct ";")

include hname hend

theorem nameOrArrow_of_name (arrows : Bool) :
    nameOrArrow rec lo arrows c = .ok (.mk (.ident name) ⟨lo, c.next.last⟩ []) c.next := by
  have hany : Parse.anyName c = .ok name c.next := by
    rw [Parse.anyName, Parse.get_bind, hname.word?]
    rfl
  rw [nameOrArrow, Parse.bind_of_ok hany, Parse.node_bind, Parse.get_bind]
  simp [Cursor.isName, Cursor.isPunct, hend]

theorem wordExpression_of_name (arrows : Bool) :
    wordExpression rec lo arrows (if knownWords.contains name then some name else none) c =
      .ok (.mk (.ident name) ⟨lo, c.next.last⟩ []) c.next := by
  have hreserved : ∀ word ∈ reservedWords, name ≠ word := by
    rintro word hword rfl
    exact hname.free hword
  have harrow : nameOrArrow rec lo arrows c = _ := nameOrArrow_of_name hname hend arrows
  by_cases hknown : knownWords.contains name = true
  · have hword : wordExpression rec lo arrows (some name) =
        if name = "async" then asyncExpression rec lo arrows else nameOrArrow rec lo arrows := by
      unfold wordExpression
      split
      case h_7 heq =>
        cases heq
        rfl
      case h_9 heq =>
        cases heq
        rename_i hasync _
        rw [if_neg (by simpa using hname.free), if_neg hasync]
      case h_10 heq => cases heq
      all_goals
        rename_i heq
        exact absurd (Option.some.inj heq) (hreserved _ (by decide))
    rw [if_pos hknown, hword]
    split
    · rw [asyncExpression, Parse.get_bind]
      simpa [Cursor.isWord, Cursor.isPunct, hend] using harrow
    · exact harrow
  · rw [if_neg hknown]
    exact harrow

end

/-- The token at the cursor as an expression. -/
def leaf (kind : Kind) (c : Cursor) : Node := .mk kind ⟨c.start.pos, c.next.last⟩ []

theorem leaf_withArrow (kind : Kind) (arrowStart : Option Nat) :
    leaf kind (c.withArrow arrowStart) = leaf kind c := by
  rw [leaf, Cursor.next_withArrow]
  rfl

section

variable {kind : Kind} (h : StandsAlone c kind)

include h

theorem StandsAlone.ends : endsValue c.next.token = true := by
  cases h with
  | name _ hend =>
    rw [hend]
    rfl
  | string _ hend => exact hend

theorem StandsAlone.kind_ne : (kind == .arrow) = false ∧
    isBareCallee (leaf kind c) = false ∧ isComputed (leaf kind c) = false := by
  cases h <;> exact ⟨rfl, rfl, rfl⟩

theorem StandsAlone.isPunct (text : String) : c.isPunct text = false := by
  cases h with
  | name hname => exact hname.isPunct text
  | string htoken =>
    rw [Cursor.isPunct, htoken]
    rfl

theorem StandsAlone.anyPunct (texts : List String) : c.anyPunct texts = false := by
  cases h with
  | name hname => exact hname.anyPunct texts
  | string htoken => rw [Cursor.anyPunct, htoken]

theorem StandsAlone.isWord {word : String} (hword : word ∈ reservedWords) :
    c.isWord word = false := by
  cases h with
  | name hname => exact hname.isWord_eq_false hword
  | string htoken => rw [Cursor.isWord, htoken]

theorem StandsAlone.anyWord {words : List String} (hwords : ∀ word ∈ words, word ∈ reservedWords) :
    c.anyWord words = false := by
  cases h with
  | name hname => exact hname.anyWord_eq_false hwords
  | string htoken => rw [Cursor.anyWord, htoken]

theorem StandsAlone.withArrow (arrowStart : Option Nat) :
    StandsAlone (c.withArrow arrowStart) kind := by
  cases h with
  | name hname hend =>
    refine .name ⟨hname.token, hname.free⟩ ?_
    rw [Cursor.next_withArrow]
    exact hend
  | string htoken hend =>
    refine .string htoken ?_
    rw [Cursor.next_withArrow]
    exact hend

theorem primary_of_alone : primary rec c = .ok (leaf kind c) c.next := by
  rw [primary, Parse.here_bind, Parse.get_bind]
  cases h with
  | name hname hend =>
    rw [hname.token]
    exact wordExpression_of_name hname hend _
  | string htoken =>
    rw [htoken]
    rfl

theorem leftHandSide_of_alone (hfuel : 0 < c.fuel) :
    leftHandSide rec c = .ok (leaf kind c) c.next := by
  have hangle := isPunct_of_endsValue h.ends "<" (by decide)
  rw [leftHandSide, chainExpression, Parse.here_bind, Parse.get_bind,
    h.isWord (by decide), h.isWord (by decide), h.isWord (by decide)]
  simp only [Bool.false_eq_true, if_false]
  rw [Parse.bind_of_ok (primary_of_alone h), leaf, Node.kind, h.kind_ne.1]
  simp only [Bool.false_eq_true, if_false]
  rw [Parse.isPunct_bind, hangle]
  exact links_of_end h.ends true h.kind_ne.2.1 (by simpa using hfuel)

theorem unary_of_alone (hfuel : 0 < c.fuel) : unary rec c = .ok (leaf kind c) c.next := by
  have hmark := anyPunct_of_endsValue h.ends ["++", "--"] (by decide)
  rw [unary, Parse.here_bind, Parse.get_bind, h.anyPunct, h.anyPunct, h.anyWord (by decide),
    h.isWord (by decide), h.isPunct]
  simp only [Bool.or_self, Bool.false_eq_true, if_false]
  rw [postfixed, Parse.bind_of_ok (leftHandSide_of_alone h hfuel), Parse.get_bind, hmark]
  simp

variable {depth : Nat}

theorem operation_of_alone (hfuel : 0 < c.fuel) :
    operation (produceWithin (depth + 1)) c = .ok (leaf kind c) c.next := by
  have hunary : produceWithin (depth + 1) .unary c = .ok (leaf kind c) c.next :=
    unary_of_alone h hfuel
  have hleft : leftOperand (produceWithin (depth + 1)) c = .ok (leaf kind c) c.next := by
    rw [leftOperand, hunary]
  rw [operation, Parse.here_bind, Parse.bind_of_ok hleft, leaf, Node.kind, h.kind_ne.1]
  simp only [Bool.false_eq_true, if_false]
  rw [Parse.get_bind]
  exact binaryFrom_of_end h.ends (by simpa using hfuel)

theorem conditional_of_alone (hfuel : 0 < c.fuel) :
    conditional (produceWithin (depth + 1)) c = .ok (leaf kind c) c.next := by
  have hquestion := isPunct_of_endsValue h.ends "?" (by decide)
  have harrow : ((leaf kind c).kind != .arrow) = true := by
    rw [bne, leaf, Node.kind, h.kind_ne.1]
    rfl
  rw [conditional, Parse.here_bind, Parse.bind_of_ok (operation_of_alone h hfuel), harrow,
    Parse.bind_of_ok (Parse.accept_of_not hquestion)]
  rfl

theorem assignment_of_alone (hcontext : c.context.inGenerator = false) (hfuel : 0 < c.fuel)
    (depth : Nat) : ∃ arrowStart, assignment (produceWithin (depth + 1)) c =
      .ok (leaf kind c) (c.next.withArrow arrowStart) := by
  let arrowStart := if startsArrow c then some c.start.pos else none
  have hconditional : conditional (produceWithin (depth + 1)) (c.withArrow arrowStart) = _ :=
    conditional_of_alone (h.withArrow arrowStart) hfuel
  rw [leaf_withArrow, Cursor.next_withArrow] at hconditional
  refine ⟨arrowStart, ?_⟩
  rw [assignment, Parse.get_bind, h.isPunct]
  simp only [Bool.not_false, if_true]
  rw [plainAssignment, Parse.here_bind, Parse.get_bind, hcontext]
  simp only [Bool.false_and, Bool.false_eq_true, if_false]
  rw [Parse.set_bind]
  refine (Parse.bind_of_ok hconditional).trans ?_
  have hplain : ((leaf kind c).kind == .arrow || isComputed (leaf kind c)) = false := by
    rw [h.kind_ne.2.2, leaf, Node.kind, h.kind_ne.1]
    rfl
  rw [hplain]
  exact assigned_of_end h.ends

end

/-- A string alone, and the semicolon behind it where one stands. -/
theorem item_of_string {value : Option String} (htoken : c.token = .string value)
    (hend : endsValue c.next.token = true) (hstatement : c.next.endsStatement = true)
    (hcontext : c.context.inGenerator = false) (hfuel : 0 < c.fuel) (depth : Nat) :
    ∃ arrowStart, item (produceWithin (depth + 3)) c =
      .ok (.mk .expressionStatement ⟨c.start.pos, c.next.pastSemicolon.last⟩
        [leaf (.string value) c]) (c.next.pastSemicolon.withArrow arrowStart) := by
  have halone : StandsAlone c (.string value) := .string htoken hend
  obtain ⟨arrowStart, hassignment⟩ := assignment_of_alone halone hcontext hfuel depth
  have hassigned : produceWithin (depth + 2) .assignment c = _ := hassignment
  have hcomma : (c.next.withArrow arrowStart).isPunct "," = false :=
    isPunct_of_endsValue hend "," (by decide)
  have hexpression : produceWithin (depth + 3) .expression c =
      .ok (leaf (.string value) c) (c.next.withArrow arrowStart) := by
    show expression (produceWithin (depth + 2)) c = _
    rw [expression, Parse.here_bind, Parse.bind_of_ok hassigned, Parse.isPunct_bind, hcomma]
    rfl
  have hpast : (c.next.withArrow arrowStart).pastSemicolon =
      c.next.pastSemicolon.withArrow arrowStart := by
    unfold Cursor.pastSemicolon
    rw [Cursor.next_withArrow]
    exact (apply_ite (Cursor.withArrow · arrowStart) _ _ _).symm
  have hends : (c.next.withArrow arrowStart).endsStatement = true := hstatement
  refine ⟨arrowStart, ?_⟩
  rw [item, Parse.here_bind, Parse.bind_of_ok (decorators_of_none (halone.isPunct "@") hfuel),
    Parse.get_bind, halone.isWord (by decide), halone.isWord (by decide)]
  simp only [Bool.false_eq_true, if_false]
  rw [statementAfter, Parse.here_bind, Parse.get_bind, htoken]
  refine (Parse.bind_of_ok hexpression).trans ?_
  show expressionEnd (produceWithin (depth + 3)) c.start.pos (leaf (.string value) c)
    (c.next.withArrow arrowStart) = _
  rw [expressionEnd, Parse.bind_of_ok Parse.acceptSemicolon_eq, hends, hpast]
  rfl

/-! #### Another name for a variable -/

theorem pattern_of_name (hname : c.OnName name) :
    pattern rec c = .ok (.mk (.binding name) ⟨c.start.pos, c.next.last⟩ []) c.next := by
  rw [pattern, Parse.here_bind, Parse.get_bind, hname.token]
  exact Parse.bind_of_ok hname.bindingName

section

variable {bound : String} (depth : Nat)

theorem declarator_of_alias (hname : c.OnName name) (hequals : c.next.token = .punct "=")
    (hbound : c.next.next.OnName bound) (hend : c.next.next.next.token = .punct ";")
    (hcontext : c.context.inGenerator = false) (hfuel : 0 < c.fuel) (keyword : String) :
    ∃ value arrowStart, declarator (produceWithin (depth + 2)) keyword false c =
      .ok (.mk .declarator ⟨c.start.pos, c.next.next.next.last⟩
        [.mk (.binding name) ⟨c.start.pos, c.next.last⟩ [], value])
        (c.next.next.next.withArrow arrowStart) := by
  have hpunct : ∀ text, text ≠ "=" → c.next.isPunct text = false := by
    intro text htext
    simp [Cursor.isPunct, hequals, Ne.symm htext]
  obtain ⟨arrowStart, hvalue⟩ := assignment_of_alone (.name hbound hend) (by simpa using hcontext)
    (by simpa using hfuel) depth
  have hpattern : produceWithin (depth + 2) .pattern c = _ := pattern_of_name hname
  have hascription : optionalAscription (produceWithin (depth + 2)) c.next = .ok [] c.next := by
    rw [optionalAscription, Parse.isPunct_bind, hpunct ":" (by decide)]
    rfl
  have hassign : Parse.accept "=" c.next = .ok true c.next.next :=
    Parse.accept_of (by simp [Cursor.isPunct, hequals])
  have hassignment : produceWithin (depth + 2) .assignment c.next.next = _ := hvalue
  refine ⟨leaf (.ident bound) c.next.next, arrowStart, ?_⟩
  rw [declarator, Parse.here_bind, Parse.isWord_bind, hname.isWord_eq_false (by decide)]
  simp only [Bool.and_false, Bool.false_eq_true, if_false]
  refine (Parse.bind_of_ok hpattern).trans ?_
  refine (Parse.bind_of_ok (Parse.accept_of_not (hpunct "!" (by decide)))).trans ?_
  refine (Parse.bind_of_ok hascription).trans ?_
  refine (Parse.bind_of_ok hassign).trans ?_
  exact Parse.bind_of_ok hassignment

theorem nested_declarator_of_alias (hname : c.OnName name) (hequals : c.next.token = .punct "=")
    (hbound : c.next.next.OnName bound) (hend : c.next.next.next.token = .punct ";")
    (hcontext : c.context.inGenerator = false) (hfuel : 0 < c.fuel) (keyword : String) :
    ∃ span place value d, Parse.nested (declarator (produceWithin (depth + 2)) keyword false) c =
        .ok (.mk .declarator span [.mk (.binding name) place [], value]) d ∧
      d.token = .punct ";" ∧ d.stop = c.next.next.next.stop ∧ d.fuel = c.fuel := by
  let context := Parse.nestedContext c.context
  have hname' : (c.inContext context).OnName name := ⟨hname.token, hname.free⟩
  have hbound' : (c.inContext context).next.next.OnName bound := by
    rw [Cursor.next_inContext, Cursor.next_inContext]
    exact ⟨hbound.token, hbound.free⟩
  obtain ⟨value, arrowStart, h⟩ := declarator_of_alias depth hname'
    (by rw [Cursor.next_inContext]; exact hequals) hbound'
    (by rw [Cursor.next_inContext, Cursor.next_inContext, Cursor.next_inContext]; exact hend)
    hcontext hfuel keyword
  rw [Cursor.next_inContext, Cursor.next_inContext, Cursor.next_inContext] at h
  refine ⟨_, _, _, _, Parse.nested_of h, hend, rfl, ?_⟩
  show c.next.next.next.fuel = c.fuel
  rw [Cursor.fuel_next, Cursor.fuel_next, Cursor.fuel_next]

/-- The declaration of one variable with a value. -/
def Declares (name : String) (n : Node) : Prop :=
  ∃ whole span place value,
    n = .mk (.variables false) whole [.mk .declarator span [.mk (.binding name) place [], value]]

/-- The declaration of a variable that is another name for `bound`, up to the semicolon. -/
theorem variablesDecl_of_alias (hword : c.token = .word "const" (some "const"))
    (hname : c.next.OnName name) (hequals : c.next.next.token = .punct "=")
    (hbound : c.next.next.next.OnName bound) (hend : c.next.next.next.next.token = .punct ";")
    (hcontext : c.context.inGenerator = false) (hfuel : 0 < c.fuel) :
    ∃ n d, variablesDecl (produceWithin (depth + 2)) lo c = .ok n (Cursor.next d) ∧
      Declares name n ∧ d.stop = c.next.next.next.next.stop ∧ d.fuel = c.fuel := by
  have hany : Parse.anyName c = .ok "const" c.next := by
    rw [Parse.anyName, Parse.get_bind, Cursor.word?, hword]
    rfl
  obtain ⟨span, place, value, d, hdeclarator, hd, hstop, hdfuel⟩ := nested_declarator_of_alias depth
    hname hequals hbound hend (by simpa using hcontext) (by simpa using hfuel) "const"
  have hdecls : declarators (Parse.nested (declarator (produceWithin (depth + 2)) "const" false))
      c.next = .ok [.mk .declarator span [.mk (.binding name) place [], value]] d := by
    obtain ⟨fuel, hfuel⟩ : ∃ n, c.next.fuel = n + 1 := ⟨c.next.fuel - 1, by simp; omega⟩
    have hopen : (c.next.isPunct ";" || c.next.token == .eof) = false := by
      rw [hname.isPunct, hname.token]
      rfl
    rw [declarators, Parse.get_bind, hfuel, declaratorsFrom, Parse.test_bind, hopen]
    refine (Parse.bind_of_ok hdeclarator).trans ?_
    refine (Parse.bind_of_ok (Parse.accept_of_not ?_)).trans rfl
    simp [Cursor.isPunct, hd]
  have hsemicolon : d.isPunct ";" = true := by simp [Cursor.isPunct, hd]
  have hvariables : variablesDecl (produceWithin (depth + 2)) lo c = .ok
      (.mk (.variables false) ⟨lo, d.next.last⟩
        [.mk .declarator span [.mk (.binding name) place [], value]]) d.next := by
    rw [variablesDecl, Parse.bind_of_ok hany, Parse.bind_of_ok hdecls,
      Parse.bind_of_ok Parse.acceptSemicolon_eq, Cursor.pastSemicolon_of_semicolon hsemicolon,
      Cursor.endsStatement_of_semicolon hsemicolon]
    rfl
  exact ⟨_, d, hvariables, ⟨_, _, _, _, rfl⟩, hstop, by simpa using hdfuel⟩

/-- An item that starts with `const` and a name declares variables. -/
theorem item_of_const (hword : c.token = .word "const" (some "const")) (hname : c.next.OnName name)
    (hfuel : 0 < c.fuel) : item rec c = variablesDecl rec c.start.pos c := by
  have hat : c.isPunct "@" = false := by simp [Cursor.isPunct, hword]
  have hexport : c.isWord "export" = false := by simp [Cursor.isWord, hword]
  have himport : c.isWord "import" = false := by simp [Cursor.isWord, hword]
  have hconst : startsVariables c = true := by simp [startsVariables, Cursor.anyWord, hword]
  rw [item, Parse.here_bind, Parse.bind_of_ok (decorators_of_none hat hfuel), Parse.get_bind,
    hexport, himport]
  simp only [Bool.false_eq_true, if_false]
  rw [statementAfter, Parse.here_bind, Parse.get_bind, hword]
  have hstatement : wordStatement rec c.start.pos c.start.pos true [] c =
      variablesDecl rec c.start.pos c := by
    rw [wordStatement, Parse.get_bind, hname.isWord_eq_false (by decide), hconst]
    simp only [Bool.and_false, Bool.false_eq_true, if_false, Bool.and_self, if_true]
  have hkeyword : keywordStatement rec c.start.pos c.start.pos [] "const" = none := rfl
  simp only [hkeyword]
  exact hstatement

end

/-! #### An import with a name added -/

section

variable {rec' : Rec} {lo' : Nat} {d e : Cursor} {item : Node}

/-- An import without attributes ends alike whatever its names are. -/
theorem importSource_of_twin {typeOnly : Bool} {names : List ImportName} (h : c.Twin d)
    (hread : importSource rec lo typeOnly names c = .ok item e) (hplain : item.children = [])
    (names' : List ImportName) :
    ∃ source item' e', item.kind = .importDecl typeOnly source names ∧
      importSource rec' lo' typeOnly names' d = .ok item' e' ∧
      item'.kind = .importDecl typeOnly source names' ∧ e.Twin e' := by
  obtain ⟨source, htoken, hattributes, hends, rfl, rfl⟩ := importSource_inv hread hplain
  have hnext := h.next.like
  have hattributes' : (d.next.anyWord ["with", "assert"] && !d.next.newline) = false := by
    rw [hnext.anyWord, hnext.newline]
    exact hattributes
  exact ⟨source, _, _, rfl, importSource_of_end (h.token.trans htoken) hattributes'
    (hnext.endsStatement.trans hends), rfl, h.next.pastSemicolon⟩

/-- Names are read alike after others. -/
theorem importRest_of_twin {typeOnly : Bool} {phase : Phase} {head : ImportHead} (h : c.Twin d)
    (hread : importRest typeOnly phase [] c = .ok head e) (first : List ImportName) :
    ∃ names e', head = .names typeOnly names ∧ e.Twin e' ∧
      importRest typeOnly phase first d = .ok (.names typeOnly (first ++ names)) e' := by
  obtain ⟨names, c1, hnames, hread⟩ := Parse.bind_eq_ok.mp hread
  obtain ⟨_, c2, hfrom, hread⟩ := Parse.bind_eq_ok.mp hread
  cases hread
  obtain ⟨d1, hnames', h1⟩ := (passes_importedNames _).twin h hnames
  obtain ⟨d2, hfrom', h2⟩ := (Passes.expectWord _).twin h1 hfrom
  refine ⟨names, d2, rfl, h2, ?_⟩
  rw [importRest, Parse.bind_of_ok hnames', Parse.bind_of_ok hfrom']
  rfl

end

end Grammar

/-- The item at the start of a text, whose last token stands before `rest`. -/
def ReadsItem (markup : Bool) (text : List Char) (item : Node) (rest : List Char) : Prop :=
  ∃ c : Cursor, readItem markup text = .ok item c.next ∧ c.stop.rest = rest ∧ rest.length < c.fuel

theorem endsName_cons {c : Char} (hc : isNamePart c = false ∧ c ≠ '\\') (rest : List Char) :
    EndsName (c :: rest) := by
  intro first hfirst
  cases hfirst
  exact hc

theorem Cursor.reads_import (markup : Bool) {rest : List Char} (hrest : EndsName rest) :
    (opening markup ("import".toList ++ rest)).Reads (.word "import" (some "import")) rest :=
  reads_opening markup (.word (by decide) hrest)

theorem Cursor.Reads.isWord {c : Cursor} {text role : String} {rest : List Char}
    (h : c.Reads (.word text (some role)) rest) : c.isWord role = true := by
  rw [Cursor.isWord, h.token]
  exact beq_self_eq_true role

section

variable {markup : Bool} {text : List Char}

theorem readItem_of_import (hword : (Cursor.opening markup text).isWord "import" = true)
    (hnext : (Cursor.opening markup text).next.anyPunct ["(", "."] = false) :
    readItem markup text = Grammar.importDecl (Grammar.produceWithin (16 * text.length + 63)) 0
      (Cursor.opening markup text) :=
  Grammar.item_of_import hword hnext (Nat.succ_pos _)

theorem readItem_of_const {name : String}
    (hword : (Cursor.opening markup text).token = .word "const" (some "const"))
    (hname : (Cursor.opening markup text).next.OnName name) :
    readItem markup text = Grammar.variablesDecl (Grammar.produceWithin (16 * text.length + 63)) 0
      (Cursor.opening markup text) :=
  Grammar.item_of_const hword hname (Nat.succ_pos _)

end

section

variable (markup : Bool) {name : List Char} (hname : IsName name)
  (hfree : String.ofList name ∉ reservedWords)

include hname hfree

/-- The import of a default name is read as one, whatever follows it. -/
theorem readsItem_importDefault (source : String) (rest : List Char) :
    ∃ item, item.kind = .importDecl false (some source) [⟨.default, String.ofList name⟩] ∧
      ReadsItem markup ("import".toList ++ (' ' :: (name ++ (' ' :: ("from".toList ++
        (' ' :: ((Text.quote source).toList ++ ([';'] ++ rest)))))))) item rest := by
  have h0 := Cursor.reads_import markup (endsName_cons (c := ' ') (by decide)
    (name ++ (' ' :: ("from".toList ++ (' ' :: ((Text.quote source).toList ++ ([';'] ++ rest)))))))
  have h1 := h0.next_blank (.word hname (endsName_cons (by decide) _))
  have h2 := h1.next_blank (.word (by decide) (endsName_cons (by decide) _))
  have h3 := h2.next_blank (.quoted source _)
  have h4 := h3.next (.semicolon rest)
  have hword : Cursor.OnName _ (String.ofList name) := ⟨h1.token, hfree⟩
  have hsemicolon : Cursor.isPunct _ ";" = true := beq_iff_eq.mpr h4.token
  have hitem := readItem_of_import h0.isWord (hword.anyPunct _)
  have hhead := Grammar.importHead_of_name hword (.inl h2.token)
    (by simp only [Cursor.isWord, h3.token]) (by simp only [Cursor.isPunct, h3.token]; rfl)
  rw [Grammar.importDecl_of_import h0.isWord
    (hhead.trans (Grammar.importAfterDefault_of_from h2.token)),
    Grammar.importSource_of_end h3.token (by simp only [Cursor.anyWord, h4.token, Bool.false_and])
      (Cursor.endsStatement_of_semicolon hsemicolon),
    Cursor.pastSemicolon_of_semicolon hsemicolon] at hitem
  exact ⟨_, rfl, _, hitem, h4.behind, h4.enough⟩

/-- The declaration of another name for `bound` is read as one, whatever follows it. -/
theorem readsItem_alias {bound : List Char} (hbound : IsName bound)
    (hboundFree : String.ofList bound ∉ reservedWords) (rest : List Char) :
    ∃ item, Grammar.Declares (String.ofList name) item ∧
      ReadsItem markup ("const".toList ++ (' ' :: (name ++ (' ' :: (['='] ++
        (' ' :: (bound ++ ([';'] ++ rest)))))))) item rest := by
  have h0 : (Cursor.opening markup ("const".toList ++ (' ' :: (name ++ (' ' :: (['='] ++
      (' ' :: (bound ++ ([';'] ++ rest))))))))).Reads (.word "const" (some "const")) _ :=
    Cursor.reads_opening markup (.word (by decide) (endsName_cons (by decide) _))
  have h1 := h0.next_blank (.word hname (endsName_cons (by decide) _))
  have h2 := h1.next_blank (.equals _)
  have h3 := h2.next_blank (.word hbound (endsName_cons (by decide) _))
  have h4 := h3.next (.semicolon rest)
  have hword : Cursor.OnName _ (String.ofList name) := ⟨h1.token, hfree⟩
  have hvalue : Cursor.OnName _ (String.ofList bound) := ⟨h3.token, hboundFree⟩
  obtain ⟨item, d, hdecl, hdeclares, hstop, hfuel⟩ := Grammar.variablesDecl_of_alias _ h0.token
    hword h2.token hvalue h4.token rfl (Nat.succ_pos _)
  have hitem := (readItem_of_const h0.token hword).trans hdecl
  refine ⟨item, hdeclares, d, hitem, ?_, ?_⟩
  · rw [hstop, h4.behind]
  · have henough := h4.enough
    rw [hfuel]
    simpa using henough

end

/-! ### Imports that a default name is added to -/

namespace Cursor

variable {c d : Cursor} {found found' : Token} {rest : List Char}

theorem Reads.follows (hc : c.Reads found rest) (hd : d.Reads found' rest)
    (hcontext : d.context = c.context) (hfuel : c.fuel ≤ d.fuel) : c.Follows d :=
  ⟨by rw [hd.behind, hc.behind], hcontext, by rw [hc.behind]; exact hc.enough, hfuel⟩

theorem fuel_opening_le {markup : Bool} {text more : List Char} (h : text.length ≤ more.length) :
    (opening markup text).fuel ≤ (opening markup more).fuel := by
  show text.length + 2 ≤ more.length + 2
  omega

end Cursor

section

variable {markup : Bool} {name rest : List Char} {item : Node} {e : Cursor}
  (hname : IsName name) (hfree : String.ofList name ∉ reservedWords) (hrest : EndsName rest)
  (hread : readItem markup ("import".toList ++ rest) = .ok item e) (hplain : item.children = [])

include hname hfree hrest hread hplain

/-- An import for its effects takes a default name. -/
theorem readItem_named
    (hstring : (Cursor.opening markup ("import".toList ++ rest)).next.isString = true) :
    ∃ source item' e', item.kind = .importDecl false source [] ∧
      readItem markup ("import".toList ++ (' ' :: (name ++ (' ' :: ("from".toList ++ rest))))) =
        .ok item' e' ∧
      item'.kind = .importDecl false source [⟨.default, String.ofList name⟩] ∧
      e'.start.rest = e.start.rest := by
  have hold := Cursor.reads_import markup hrest
  obtain ⟨value, hvalue⟩ := Cursor.exists_string hstring
  have hempty : Grammar.importHead (Cursor.opening markup ("import".toList ++ rest)).next =
      .ok (.names false []) (Cursor.opening markup ("import".toList ++ rest)).next := by
    rw [Grammar.importHead, Parse.get_bind, hstring]
    rfl
  rw [readItem_of_import hold.isWord (by simp only [Cursor.anyPunct, hvalue]),
    Grammar.importDecl_of_import hold.isWord hempty] at hread
  have h0 := Cursor.reads_import markup
    (endsName_cons (c := ' ') (by decide) (name ++ (' ' :: ("from".toList ++ rest))))
  have h1 := h0.next_blank (.word hname (endsName_cons (by decide) _))
  have h2 := h1.next_blank (.word (by decide) hrest)
  have h3 := (hold.follows h2 (by simp only [Cursor.context_next]; rfl)
    (by simp only [Cursor.fuel_next]; exact Cursor.fuel_opening_le (by simp; omega))).next
  have hword : Cursor.OnName _ (String.ofList name) := ⟨h1.token, hfree⟩
  obtain ⟨source, item', e', hkind, hread', hkind', he⟩ :=
    Grammar.importSource_of_twin h3 hread hplain [⟨.default, String.ofList name⟩]
  refine ⟨source, item', e', hkind, ?_, hkind', he.start⟩
  have hnext := h3.token.trans hvalue
  have hhead := Grammar.importHead_of_name hword (.inl h2.token)
    (by simp only [Cursor.isWord, hnext]) (by simp only [Cursor.isPunct, hnext]; rfl)
  rw [readItem_of_import h0.isWord (hword.anyPunct _), Grammar.importDecl_of_import h0.isWord
    (hhead.trans (Grammar.importAfterDefault_of_from h2.token))]
  exact hread'

/-- An import of all names or of a list takes a default name before them. -/
theorem readItem_extended
    (hopen : (Cursor.opening markup ("import".toList ++ rest)).next.anyPunct ["*", "\x7b"] = true) :
    ∃ source names item' e', item.kind = .importDecl false source names ∧
      readItem markup ("import".toList ++ (' ' :: (name ++ ([','] ++ rest)))) = .ok item' e' ∧
      item'.kind = .importDecl false source (⟨.default, String.ofList name⟩ :: names) ∧
      e'.start.rest = e.start.rest := by
  have hold := Cursor.reads_import markup hrest
  obtain ⟨mark, hmark, hvalue⟩ : ∃ mark ∈ ["*", "\x7b"],
      (Cursor.opening markup ("import".toList ++ rest)).next.token = .punct mark := by
    unfold Cursor.anyPunct at hopen
    split at hopen
    · exact ⟨_, List.contains_iff_mem.mp hopen, ‹_›⟩
    · cases hopen
  have hplainMark : ∀ mark ∈ ["*", "\x7b"],
      ["(", "."].contains mark = false ∧ (Token.punct mark == .punct "=") = false := by decide
  obtain ⟨hload, hequals⟩ := hplainMark mark hmark
  have hlist : Grammar.importHead (Cursor.opening markup ("import".toList ++ rest)).next =
      Grammar.importRest false .evaluation []
        (Cursor.opening markup ("import".toList ++ rest)).next := by
    rw [Grammar.importHead, Parse.get_bind]
    simp only [Cursor.isString, Cursor.isName, hvalue]
    rfl
  rw [readItem_of_import hold.isWord (by simp only [Cursor.anyPunct, hvalue, hload]),
    Grammar.importDecl,
    Parse.bind_of_ok (Parse.expectWord_of hold.isWord)] at hread
  obtain ⟨head, mid, hhead, hread⟩ := Parse.bind_eq_ok.mp hread
  rw [hlist] at hhead
  have h0 := Cursor.reads_import markup
    (endsName_cons (c := ' ') (by decide) (name ++ ([','] ++ rest)))
  have h1 := h0.next_blank (.word hname (endsName_cons (by decide) _))
  have h2 := h1.next (.comma rest)
  have h3 := (hold.follows h2 (by simp only [Cursor.context_next]; rfl)
    (by simp only [Cursor.fuel_next]; exact Cursor.fuel_opening_le (by simp; omega))).next
  have hword : Cursor.OnName _ (String.ofList name) := ⟨h1.token, hfree⟩
  obtain ⟨names, mid', rfl, hmid, hnames⟩ :=
    Grammar.importRest_of_twin h3 hhead [⟨.default, String.ofList name⟩]
  obtain ⟨source, item', e', hkind, hread', hkind', he⟩ :=
    Grammar.importSource_of_twin hmid hread hplain (⟨.default, String.ofList name⟩ :: names)
  refine ⟨source, names, item', e', hkind, ?_, hkind', he.start⟩
  have hnext := h3.token.trans hvalue
  have hdefault := Grammar.importHead_of_name hword (.inr h2.token)
    (by simp only [Cursor.isWord, hnext]) (by simp only [Cursor.isPunct, hnext, hequals])
  rw [readItem_of_import h0.isWord (hword.anyPunct _), Grammar.importDecl_of_import h0.isWord
    (hdefault.trans ((Grammar.importAfterDefault_of_comma h2.token).trans hnames))]
  exact hread'

end

end Phrasebook.Script
