import Phrasebook.Proofs.Headings
import Phrasebook.Proofs.Idempotence
import Phrasebook.Proofs.Letters
import Phrasebook.Settings

/-!
The import of the lookup function, read back. The statement that the edits put into a module binds
the name whatever follows it, and the items around it are read as before, so the new module binds
the name once. This rests on what the edits look at: they know the names of imports, variables,
functions and classes only, and take their places from the spans of items.
-/
namespace Phrasebook

open Script

/-! ### Names of a module -/

/-- Names of the variables that a declaration declares. -/
def declaratorNames (declarators : List Node) : List String :=
  declarators.flatMap fun d => (d.children.head?.map patternNames).getD []

mutual

/-- Names of the variables declared with `var` in the statements of a node. They belong to the
function or module around it, so functions, classes and namespaces are not entered. -/
def hoistedNames : Node → List String
  | .mk kind _ children =>
    match kind with
    | .variables true => declaratorNames children
    | .function | .arrow | .classBody | .classConstructor | .getter | .setter
    | .namespaceDecl _ => []
    | _ => hoistedNamesAll children

def hoistedNamesAll : List Node → List String
  | [] => []
  | n :: ns => hoistedNames n ++ hoistedNamesAll ns

end

/-- Names that a declaration or another statement binds around it, also those that the edits take no
notice of. -/
def ownNames (statement : Node) : List String :=
  match statement.kind with
  | .variables _ | .resources => declaratorNames statement.children
  | .functionDecl name | .classDecl name | .enumDecl name | .namespaceDecl (some name)
  | .importAlias name | .functionExpr (some name) | .classExpr (some name) => [name]
  | _ => hoistedNames statement

/-- The name of a function or class exported as the default. -/
def defaultNames (declared : Node) : List String :=
  if declared.kind = .bare then declared.children.flatMap ownNames else []

/-- Names that an item binds at module level. -/
def boundNames (item : Node) : List String :=
  match item.kind with
  | .importDecl _ _ names => names.map (·.name)
  | .exportDecl => item.children.flatMap ownNames
  | .exportDefaultDecl => item.children.flatMap defaultNames
  | _ => ownNames item

def Script.Source.boundNames (s : Source) : List String := s.items.flatMap Phrasebook.boundNames

section

variable {n m : Node} {ns ms : List Node}

theorem Script.Node.kind_alike (h : n.alike m = true) : n.kind = m.kind := by
  cases n
  cases m
  simp only [Node.alike, Bool.and_eq_true, beq_iff_eq] at h
  exact h.1

theorem Script.Node.children_alike (h : n.alike m = true) :
    alikeAll n.children m.children = true := by
  cases n
  cases m
  simp only [Node.alike, Bool.and_eq_true] at h
  exact h.2

/-- What is the same for alike trees is the same all along alike lists. -/
theorem flatMap_alike {f : Node → List String} (hf : ∀ n m, n.alike m = true → f n = f m)
    (h : alikeAll ns ms = true) : ns.flatMap f = ms.flatMap f := by
  induction ns generalizing ms with
  | nil =>
    cases ms with
    | nil => rfl
    | cons m ms => cases h
  | cons n ns ih =>
    cases ms with
    | nil => cases h
    | cons m ms =>
      simp only [alikeAll, Bool.and_eq_true] at h
      rw [List.flatMap_cons, List.flatMap_cons, hf n m h.1, ih h.2]

mutual

theorem patternNames_alike : ∀ {n m : Node}, n.alike m = true → patternNames n = patternNames m
  | .mk kind span cs, .mk kind' span' cs', h => by
    simp only [Node.alike, Bool.and_eq_true, beq_iff_eq] at h
    obtain ⟨rfl, hall⟩ := h
    simp only [patternNames, patternsNames_alike hall]

theorem patternsNames_alike : ∀ {ns ms : List Node}, alikeAll ns ms = true →
    patternsNames ns = patternsNames ms
  | [], [], _ => rfl
  | n :: ns, m :: ms, h => by
    simp only [alikeAll, Bool.and_eq_true] at h
    simp only [patternsNames, patternNames_alike h.1, patternsNames_alike h.2]

end

theorem head?_patternNames_alike (h : alikeAll ns ms = true) :
    ns.head?.map patternNames = ms.head?.map patternNames := by
  cases ns with
  | nil =>
    cases ms with
    | nil => rfl
    | cons m ms => cases h
  | cons n ns =>
    cases ms with
    | nil => cases h
    | cons m ms =>
      simp only [alikeAll, Bool.and_eq_true] at h
      simp only [List.head?_cons, Option.map_some, patternNames_alike h.1]

theorem declaratorNames_alike (h : alikeAll ns ms = true) :
    declaratorNames ns = declaratorNames ms :=
  flatMap_alike (fun _ _ h => congrArg (·.getD [])
    (head?_patternNames_alike (Node.children_alike h))) h

mutual

theorem hoistedNames_alike : ∀ {n m : Node}, n.alike m = true → hoistedNames n = hoistedNames m
  | .mk kind span cs, .mk kind' span' cs', h => by
    simp only [Node.alike, Bool.and_eq_true, beq_iff_eq] at h
    obtain ⟨rfl, hall⟩ := h
    simp only [hoistedNames, hoistedNamesAll_alike hall, declaratorNames_alike hall]

theorem hoistedNamesAll_alike : ∀ {ns ms : List Node}, alikeAll ns ms = true →
    hoistedNamesAll ns = hoistedNamesAll ms
  | [], [], _ => rfl
  | n :: ns, m :: ms, h => by
    simp only [alikeAll, Bool.and_eq_true] at h
    simp only [hoistedNamesAll, hoistedNames_alike h.1, hoistedNamesAll_alike h.2]

end

theorem ownNames_alike (h : n.alike m = true) : ownNames n = ownNames m := by
  unfold ownNames
  rw [Node.kind_alike h, declaratorNames_alike (Node.children_alike h), hoistedNames_alike h]

theorem defaultNames_alike (h : n.alike m = true) : defaultNames n = defaultNames m := by
  rw [defaultNames, defaultNames, Node.kind_alike h,
    flatMap_alike (fun _ _ => ownNames_alike) (Node.children_alike h)]

theorem boundNames_alike (h : n.alike m = true) : boundNames n = boundNames m := by
  have hdeclared := flatMap_alike (fun _ _ => ownNames_alike) (Node.children_alike h)
  have hdefault := flatMap_alike (fun _ _ => defaultNames_alike) (Node.children_alike h)
  unfold boundNames
  rw [Node.kind_alike h, hdeclared, hdefault, ownNames_alike h]

end

/-! ### Statements that bind the lookup function -/

/-- The text is a statement that binds `name` and nothing else, whatever follows it. -/
structure Introduces (markup : Bool) (name : String) (statement : List Char) : Prop where
  begins : ∀ rest, BeginsItem (statement ++ rest)
  reads : ∀ rest, ∃ item, boundNames item = [name] ∧
    ReadsItem markup (statement ++ rest) item rest

def aliasStatement (name bound : String) : String := "const " ++ name ++ " = " ++ bound ++ ";"

theorem toNat_of_isIdentifierPart {c : Char} (h : Text.isIdentifierPart c = true) :
    c.toNat < 0x80 := by
  simp only [Text.isIdentifierPart, Bool.or_eq_true, beq_iff_eq] at h
  rcases h with (h | rfl) | rfl
  · have hrange := Text.isAlphanum_iff.mp h
    omega
  · decide
  · decide

theorem isNamePart_of_isIdentifierPart {c : Char} (h : Text.isIdentifierPart c = true) :
    isNamePart c = true := by
  rw [isNamePart, if_pos (toNat_of_isIdentifierPart h)]
  exact h

theorem isNameStart_of_isIdentifierStart {c : Char} (h : Text.isIdentifierStart c = true) :
    isNameStart c = true := by
  have hpart : Text.isIdentifierPart c = true := by
    simp only [Text.isIdentifierStart, Text.isIdentifierPart, Bool.or_eq_true] at h ⊢
    exact h.imp_left (Or.imp_left fun halpha => by simp [Char.isAlphanum, halpha])
  rw [isNameStart, if_pos (toNat_of_isIdentifierPart hpart)]
  exact h

theorem isName_of_isIdentifier {name : String} (h : Text.isIdentifier name = true) :
    IsName name.toList := by
  unfold Text.isIdentifier at h
  unfold IsName
  split at h
  · cases h
  · rename_i c cs hname
    simp only [Bool.and_eq_true, List.all_eq_true] at h
    have hstart := isNameStart_of_isIdentifierStart h.1
    rw [hname]
    refine ⟨hstart, ?_⟩
    rintro d (_ | ⟨_, hd⟩)
    · exact isNamePart_of_isNameStart hstart
    · exact isNamePart_of_isIdentifierPart (h.2 d hd)

section

variable (o : Options) (rest : List Char)

theorem importStatement_cons : ∃ tail, (importStatement o).toList ++ rest = 'i' :: tail :=
  ⟨_, by simp only [importStatement, String.toList_append, List.append_assoc]; rfl⟩

theorem startsGap_importStatement :
    startsGap true ((importStatement o).toList ++ rest) = false := by
  obtain ⟨tail, htail⟩ := importStatement_cons o rest
  rw [htail]
  rfl

theorem head?_importStatement : ((importStatement o).toList ++ rest).head? ≠ some '#' := by
  obtain ⟨tail, htail⟩ := importStatement_cons o rest
  rw [htail]
  exact fun h => absurd (Option.some.inj h) (by decide)

end

section

variable (markup : Bool) {o : Options} (hname : IsName o.lookupFunction.toList)
  (hfree : o.lookupFunction ∉ reservedWords)

include hname hfree

theorem introduces_importStatement :
    Introduces markup o.lookupFunction (importStatement o).toList := by
  have htext : (importStatement o).toList = "import".toList ++ (' ' :: (o.lookupFunction.toList ++
      (' ' :: ("from".toList ++ (' ' :: ((Text.quote o.importSource).toList ++ [';'])))))) := by
    simp [importStatement]
  refine ⟨fun rest => ?_, fun rest => ?_⟩
  · rw [htext, List.append_assoc]
    exact beginsItem_of_spells (.word (by decide) (endsName_cons (by decide) _)) rfl
  obtain ⟨item, hkind, hreads⟩ := readsItem_importDefault markup hname (by simpa using hfree)
    o.importSource rest
  refine ⟨item, by simp [boundNames, hkind], ?_⟩
  rw [htext]
  simpa using hreads

theorem introduces_aliasStatement {bound : String} (hbound : IsName bound.toList)
    (hboundFree : bound ∉ reservedWords) :
    Introduces markup o.lookupFunction (aliasStatement o.lookupFunction bound).toList := by
  have htext : (aliasStatement o.lookupFunction bound).toList =
      "const".toList ++ (' ' :: (o.lookupFunction.toList ++
        (' ' :: (['='] ++ (' ' :: (bound.toList ++ [';'])))))) := by
    simp [aliasStatement]
  refine ⟨fun rest => ?_, fun rest => ?_⟩
  · rw [htext, List.append_assoc]
    exact beginsItem_of_spells (.word (by decide) (endsName_cons (by decide) _)) rfl
  obtain ⟨item, ⟨whole, span, place, value, rfl⟩, hreads⟩ := readsItem_alias markup hname
    (by simpa using hfree) hbound (by simpa using hboundFree) rest
  have hnames : boundNames (.mk (.variables false) whole [.mk .declarator span
      [.mk (.binding (String.ofList o.lookupFunction.toList)) place [], value]]) =
        [o.lookupFunction] := by
    simp [boundNames, ownNames, declaratorNames, Node.kind, Node.children, patternNames]
  refine ⟨_, hnames, ?_⟩
  rw [htext]
  simpa using hreads

end

/-! ### Texts with a statement more -/

/-- An insertion leaves the text before and after its place as it is. -/
theorem splice_insertAt {source before after : List Char} {offset : Nat}
    (hsource : source = before ++ after) (hoffset : offset = Text.byteLength before)
    (text : String) :
    splice source 0 (Text.byteLength source) [.insertAt offset text] =
      String.ofList (before ++ (text.toList ++ after)) := by
  subst hsource hoffset
  have hbefore := Text.slice_middle [] before after
  have hafter := Text.slice_middle before after []
  have hsort : Edit.sort [.insertAt (Text.byteLength before) text] =
      [.insertAt (Text.byteLength before) text] := rfl
  simp only [List.nil_append, List.append_nil, Text.byteLength, Nat.zero_add] at hbefore hafter
  rw [splice, hsort, Text.byteLength_append]
  simp only [spliceFrom, Edit.insertAt, hbefore, hafter]
  rw [if_neg (by simp [Nat.not_lt.mpr (Nat.le_add_right _ _)]), List.append_assoc]

theorem withoutMark_cons {c : Char} {rest : List Char} :
    withoutMark (c :: rest) = c :: rest ↔ c.toNat ≠ 0xfeff := by
  have hlength : rest ≠ c :: rest := fun h => by simpa using congrArg List.length h
  by_cases hmark : c.toNat = 0xfeff <;> simp [withoutMark, hmark, hlength]

/-- A mark stands at the start of a text or nowhere. -/
theorem withoutMark_congr {a b : List Char} (h : b.head? = a.head?) (ha : withoutMark a = a) :
    withoutMark b = b := by
  cases b with
  | nil => rfl
  | cons c b =>
    cases a with
    | nil => cases h
    | cons d a =>
      cases h
      exact withoutMark_cons.mpr (withoutMark_cons.mp ha)

theorem withoutMark_append {before after added : List Char}
    (h : withoutMark (before ++ after) = before ++ after) (hadded : withoutMark added = added)
    (hne : added ≠ []) : withoutMark (before ++ (added ++ after)) = before ++ (added ++ after) := by
  cases before with
  | nil =>
    refine withoutMark_congr ?_ hadded
    obtain ⟨c, added, rfl⟩ := List.exists_cons_of_ne_nil hne
    rfl
  | cons c before =>
    have hhead : (c :: before ++ (added ++ after)).head? = (c :: before ++ after).head? := rfl
    exact withoutMark_congr hhead h

/-! ### Where a statement goes -/

/-- A source at an offset: the items that end before it, the text before and after it, and the text
from the token behind those items on. -/
structure Cut where
  read : List Node
  before : List Char
  after : List Char
  next : List Char

def Script.Source.cut? (markup : Bool) (s : Source) (offset : Nat) : Option Cut := do
  let (before, after) ← Text.splitAt? offset s.code
  let (read, next) ← passItems markup (s.items.countP (·.span.hi ≤ offset)) (moduleText s.code)
  return ⟨read, before, after, next⟩

/-- The text behind the items before the offset, if they are all imports and directives. -/
def Cut.headEnd? (cut : Cut) (markup : Bool) : Option (List Char) :=
  Script.headEnd? markup cut.read.length (moduleText (cut.before ++ cut.after))

/-- The items before the offset are read the same when `text` comes then. -/
def Cut.Keeps (cut : Cut) (markup : Bool) (text start : List Char) : Prop :=
  ∃ found ∈ passItems markup cut.read.length (moduleText (cut.before ++ text)),
    alikeAll found.1 cut.read = true ∧ found.2 = start

/-- A statement on a line of its own can stand at the offset: right behind imports and directives,
or else behind items that are read the same before it. -/
def Cut.Takes (cut : Cut) (markup : Bool) (statement : String) : Prop :=
  tokenStart? cut.after = some cut.next ∧
    (cut.headEnd? markup = some cut.after ∨
      cut.Keeps markup ('\n' :: (statement.toList ++ cut.after)) (statement.toList ++ cut.after))

/-- The text of an import, without its keyword, after a default name is added. -/
def extendedRest (o : Options) (i : ImportItem) (rest : List Char) : List Char :=
  (extendImport i o.lookupFunction).text.toList ++ rest

theorem endsName_extendedRest (o : Options) (i : ImportItem) (rest : List Char) :
    EndsName (extendedRest o i rest) := by
  obtain ⟨tail, htail⟩ : ∃ tail, extendedRest o i rest = ' ' :: tail := by
    unfold extendedRest extendImport Edit.insertAt
    dsimp only
    split <;> exact ⟨_, by simp only [String.toList_append, List.append_assoc]; rfl⟩
  rw [htail]
  exact endsName_cons (by decide) tail

/-- A default name can be added to the import at the offset. The keyword stands there, followed by
the module or by names, of which there are some. Attributes hold expressions, so an import that has
them is asked to end where it did, and items other than imports and directives are asked to be read
the same before it. -/
@[mk_iff]
structure Cut.Extends (cut : Cut) (markup : Bool) (o : Options) (i : ImportItem) : Prop where
  starts : cut.next = cut.after
  keyword : cut.after = "import".toList ++ cut.after.drop 6
  ends : EndsName (cut.after.drop 6)
  opens : (Cursor.opening markup cut.after).next.isString = true ∨
    i.names ≠ [] ∧ (Cursor.opening markup cut.after).next.anyPunct ["*", "\x7b"] = true
  reads : ∃ found ∈ passItem markup cut.after,
    found.1.kind = .importDecl false (some o.importSource) i.names ∧
      (found.1.children.isEmpty = true ∨
        ∃ again ∈ passItem markup ("import".toList ++ extendedRest o i (cut.after.drop 6)),
          again.1.kind =
            .importDecl false (some o.importSource) (⟨.default, o.lookupFunction⟩ :: i.names) ∧
          again.2 = found.2)
  keeps : cut.read.isEmpty = false → cut.headEnd? markup = none →
    cut.Keeps markup ("import".toList ++ extendedRest o i (cut.after.drop 6))
      ("import".toList ++ extendedRest o i (cut.after.drop 6))

section

variable {markup : Bool} {code : String} {source : Source} {o : Options}
  (hread : Source.read markup code = .ok source) (hmark : withoutMark source.code = source.code)

include hread hmark

theorem exists_passItems : ∃ read,
    passItems markup source.items.length (moduleText source.code) = some (read, []) ∧
      source.boundNames = read.flatMap boundNames ∧ source.items.length ≤ source.code.length := by
  have hcode := Source.code_of_read hread
  rw [hcode] at hmark ⊢
  obtain ⟨hcount, read, hpass, halike⟩ := Source.passItems_of_read hread hmark
  exact ⟨read, hpass, (flatMap_alike (fun _ _ => boundNames_alike) halike).symm, hcount⟩

/-- The source is cut between its items. -/
theorem exists_passItems_of_cut {offset : Nat} {cut : Cut}
    (hcut : source.cut? markup offset = some cut) :
    source.code = cut.before ++ cut.after ∧ offset = Text.byteLength cut.before ∧
      passItems markup cut.read.length (moduleText source.code) = some (cut.read, cut.next) ∧
      ∃ count more, passItems markup count cut.next = some (more, []) ∧
        source.boundNames = cut.read.flatMap boundNames ++ more.flatMap boundNames ∧
        cut.read.length + count ≤ source.code.length := by
  simp only [Source.cut?, bind, Option.bind_eq_some_iff] at hcut
  obtain ⟨⟨before, after⟩, hsplit, ⟨read, next⟩, hpass, hsame⟩ := hcut
  cases hsame
  obtain ⟨htext, hoffset⟩ := Text.splitAt?_eq_some hsplit
  obtain ⟨all, hall, hnames, hlength⟩ := exists_passItems hread hmark
  obtain ⟨count, htotal⟩ := Nat.exists_eq_add_of_le
    (List.countP_le_length (p := fun n : Node => n.span.hi ≤ offset) (l := source.items))
  rw [htotal] at hall hlength
  obtain ⟨read', next', more, hpass', hmore, rfl⟩ := passItems_split hall
  cases hpass.symm.trans hpass'
  have hread := length_of_passItems hpass
  refine ⟨htext, hoffset, ?_, count, more, hmore, ?_, ?_⟩
  · rw [hread]
    exact hpass
  · rw [hnames, List.flatMap_append]
  · rw [hread]
    exact hlength

end

/-! ### The module with the lookup function -/

/-- The text reads as a module that binds `name` once more than the source and binds other names as
often. -/
def Script.Source.Gains (s : Source) (markup : Bool) (name text : String) : Prop :=
  ∃ after, Source.read markup text = .ok after ∧ after.boundNames.Perm (name :: s.boundNames)

section

variable {markup : Bool} {code name : String} {source : Source} {text : List Char}

theorem gains_of_passItems {read : List Node} {count : Nat}
    (hpass : passItems markup count (moduleText text) = some (read, []))
    (hmark : withoutMark text = text) (hcount : count ≤ text.length)
    (hnames : (read.flatMap boundNames).Perm (name :: source.boundNames)) :
    source.Gains markup name (String.ofList text) := by
  obtain ⟨after, hread, halike⟩ := Source.read_of_passItems hpass hmark hcount
  refine ⟨after, hread, ?_⟩
  rw [Source.boundNames, Source.items, ← flatMap_alike (fun _ _ => boundNames_alike) halike]
  exact hnames

/-- A statement that binds a name is one more item. -/
theorem passItems_insert {statement after next rest : List Char} {read more : List Node} {m n : Nat}
    (hstatement : Introduces markup name statement)
    (hread : passItems markup m text = some (read, statement ++ after))
    (hafter : tokenStart? after = some next)
    (hmore : passItems markup n next = some (more, rest)) :
    ∃ item, boundNames item = [name] ∧
      passItems markup (m + (n + 1)) text = some (read ++ item :: more, rest) := by
  obtain ⟨item, hnames, c, hitem, hstop, hfuel⟩ := hstatement.reads after
  have hnext : tokenStart? c.next.start.rest = tokenStart? next := by
    rw [tokenStart?_next (by rw [hstop]; exact hfuel), hstop, hafter,
      tokenStart?_tokenStart? hafter]
  refine ⟨item, hnames, passItems_append hread (passItems_succ (tokenStart?_passItems hread)
    (passItem_of_read hitem (hstatement.begins after).ne_nil) ?_)⟩
  rw [passItems_congr hnext]
  exact hmore

section

variable {rest : List Char} {item : Node} {o : Options} {i : ImportItem} {from? : Option String}
  (hkind : item.kind = .importDecl false from? i.names)

include hkind

/-- An import without attributes ends alike with a default name added. -/
theorem readItem_extendImport {e : Cursor} (hname : IsName o.lookupFunction.toList)
    (hfree : o.lookupFunction ∉ reservedWords) (hends : EndsName rest)
    (hread : readItem markup ("import".toList ++ rest) = .ok item e) (hplain : item.children = [])
    (hopens : (Cursor.opening markup ("import".toList ++ rest)).next.isString = true ∨
      i.names ≠ [] ∧
        (Cursor.opening markup ("import".toList ++ rest)).next.anyPunct ["*", "\x7b"] = true) :
    ∃ item' e', readItem markup ("import".toList ++ extendedRest o i rest) = .ok item' e' ∧
      item'.kind = .importDecl false from? (⟨.default, o.lookupFunction⟩ :: i.names) ∧
      e'.start.rest = e.start.rest := by
  have hfree' : String.ofList o.lookupFunction.toList ∉ reservedWords := by simpa using hfree
  rcases hopens with hstring | ⟨hsome, hopen⟩
  · obtain ⟨_, item', e', hempty, hread', hkind', hbehind⟩ :=
      readItem_named hname hfree' hends hread hplain hstring
    obtain ⟨-, rfl, hnames⟩ := Kind.importDecl.inj (hkind.symm.trans hempty)
    have hadded : extendedRest o i rest =
        ' ' :: (o.lookupFunction.toList ++ (' ' :: ("from".toList ++ rest))) := by
      simp [extendedRest, extendImport, hnames, Edit.insertAt]
    rw [String.ofList_toList] at hkind'
    rw [hadded, hnames]
    exact ⟨item', e', hread', hkind', hbehind⟩
  · obtain ⟨_, names, item', e', hlist, hread', hkind', hbehind⟩ :=
      readItem_extended hname hfree' hends hread hplain hopen
    obtain ⟨-, rfl, rfl⟩ := Kind.importDecl.inj (hkind.symm.trans hlist)
    have hadded : extendedRest o i rest = ' ' :: (o.lookupFunction.toList ++ ([','] ++ rest)) := by
      simp [extendedRest, extendImport, hsome, Edit.insertAt]
    rw [String.ofList_toList] at hkind'
    rw [hadded]
    exact ⟨item', e', hread', hkind', hbehind⟩

theorem boundNames_extended {item' : Node}
    (hkind' : item'.kind = .importDecl false from? (⟨.default, o.lookupFunction⟩ :: i.names)) :
    boundNames item' = o.lookupFunction :: boundNames item := by
  simp [boundNames, hkind, hkind']

end

theorem Cut.Extends.exists_passItem {cut : Cut} {o : Options} {i : ImportItem}
    (h : cut.Extends markup o i) (hname : IsName o.lookupFunction.toList)
    (hfree : o.lookupFunction ∉ reservedWords) :
    ∃ item item' behind, passItem markup cut.after = some (item, behind) ∧
      passItem markup ("import".toList ++ extendedRest o i (cut.after.drop 6)) =
        some (item', behind) ∧
      boundNames item' = o.lookupFunction :: boundNames item := by
  obtain ⟨⟨item, behind⟩, hitem, hkind, hplain | ⟨⟨item', again⟩, hagain, hkind', hsame⟩⟩ := h.reads
  · have hopens := h.opens
    have hfound := hitem
    rw [h.keyword] at hfound hopens
    obtain ⟨-, e, hread, rfl⟩ := passItem_inv hfound
    obtain ⟨item', e', hread', hkind', hbehind⟩ := readItem_extendImport hkind hname hfree h.ends
      hread (List.isEmpty_iff.mp hplain) hopens
    rw [← hbehind] at hitem
    exact ⟨item, item', _, hitem, passItem_of_read hread' (List.cons_ne_nil _ _),
      boundNames_extended hkind hkind'⟩
  · obtain rfl : again = behind := hsame
    exact ⟨item, item', again, hitem, hagain, boundNames_extended hkind hkind'⟩

variable (hread : Source.read markup code = .ok source)
  (hmark : withoutMark source.code = source.code)

include hread hmark

/-- Behind imports and directives an item can come, on the line where one came or on a new one. -/
theorem keeps_of_headEnd? {offset : Nat} {cut : Cut} (gap : List Char) {other fresh : List Char}
    {lines : Bool} (hcut : source.cut? markup offset = some cut)
    (hend : cut.headEnd? markup = some (gap ++ cut.after))
    (hgoes : GoesOn (gap ++ cut.after) (gap ++ other)) (hlength : cut.after.length ≤ other.length)
    (hopens : Opens (gap ++ other) fresh lines)
    (hlines : lines = true ∨ ∃ old, Opens (gap ++ cut.after) old lines) :
    cut.Keeps markup other fresh := by
  obtain ⟨htext, -, hpass, -⟩ := exists_passItems_of_cut hread hmark hcut
  rw [htext] at hpass
  obtain ⟨lead, hstart, hheads, -⟩ := heads_of_headEnd? hend hpass
  obtain ⟨front, hfront⟩ := exists_before_moduleText hstart hheads.ne_nil
  have hsplit : cut.before ++ cut.after = (front ++ (lead ++ gap)) ++ cut.after := by
    simpa using hfront
  rw [hfront] at hstart
  obtain ⟨found, halike, hfound⟩ := hheads.passItems_moduleText hstart hgoes
    (by simpa using hlength) hopens hlines
  refine ⟨(found, fresh), ?_, halike, rfl⟩
  rw [List.append_cancel_right hsplit]
  simpa using hfound

theorem keeps_of_takes {offset : Nat} {cut : Cut} {statement : String}
    (hcut : source.cut? markup offset = some cut) (htakes : cut.Takes markup statement)
    (hbegins : BeginsItem (statement.toList ++ cut.after)) :
    cut.Keeps markup ('\n' :: (statement.toList ++ cut.after)) (statement.toList ++ cut.after) := by
  rcases htakes.2 with hend | hkeeps
  · refine keeps_of_headEnd? hread hmark [] hcut hend (.inr rfl) ?_ (opens_break hbegins) (.inl rfl)
    simp only [List.length_cons, List.length_append]
    omega
  · exact hkeeps

/-- A statement on a line of its own behind other items. -/
theorem gains_of_takes {offset : Nat} {cut : Cut} {statement added : String}
    (hcut : source.cut? markup offset = some cut) (htakes : cut.Takes markup statement)
    (hstatement : Introduces markup name statement.toList)
    (hadded : added.toList = '\n' :: statement.toList) :
    source.Gains markup name
      (splice source.code 0 (Text.byteLength source.code) [.insertAt offset added]) := by
  obtain ⟨htext, hoffset, -, count, more, hmore, hnames, hlength⟩ :=
    exists_passItems_of_cut hread hmark hcut
  obtain ⟨⟨found, start⟩, hfound, halike, rfl⟩ :=
    keeps_of_takes hread hmark hcut htakes (hstatement.begins _)
  obtain ⟨item, hitem, hpass⟩ := passItems_insert hstatement hfound htakes.1 hmore
  rw [splice_insertAt htext hoffset, hadded]
  rw [htext] at hmark hlength
  refine gains_of_passItems hpass (withoutMark_append hmark (withoutMark_cons.mpr (by decide))
    (List.cons_ne_nil _ _)) ?_ ?_
  · simp only [List.length_append, List.length_cons] at hlength ⊢
    omega
  · rw [hnames, List.flatMap_append, List.flatMap_cons, hitem,
      flatMap_alike (fun _ _ => boundNames_alike) halike]
    exact List.perm_middle

/-- The import on a line of its own before all items. -/
theorem gains_of_first {offset : Nat} {before after next : List Char} {o : Options}
    (hstatement : Introduces markup name (importStatement o).toList)
    (htext : source.code = before ++ after) (hoffset : offset = Text.byteLength before)
    (hfirst : tokenStart? (moduleText (before ++ ((importStatement o).toList ++ ('\n' :: after)))) =
      some ((importStatement o).toList ++ ('\n' :: after)))
    (hafter : tokenStart? ('\n' :: after) = some next)
    (hnext : tokenStart? (moduleText source.code) = some next) :
    source.Gains markup name (splice source.code 0 (Text.byteLength source.code)
      [.insertAt offset (importStatement o ++ "\n")]) := by
  obtain ⟨all, hall, hnames, hlength⟩ := exists_passItems hread hmark
  obtain ⟨tail, htail⟩ := importStatement_cons o ['\n']
  have hadded : (importStatement o ++ "\n").toList = 'i' :: tail := by
    rw [← htail]
    simp
  have hline : (importStatement o).toList ++ ('\n' :: after) = ('i' :: tail) ++ after := by
    rw [← htail]
    simp
  rw [passItems_congr (hnext.trans (tokenStart?_tokenStart? hnext).symm)] at hall
  obtain ⟨item, hitem, hpass⟩ := passItems_insert hstatement (passItems_zero hfirst) hafter hall
  rw [hline] at hpass
  rw [splice_insertAt htext hoffset, hadded]
  rw [htext] at hmark hlength
  refine gains_of_passItems hpass (withoutMark_append hmark (withoutMark_cons.mpr (by decide))
    (List.cons_ne_nil _ _)) ?_ ?_
  · simp only [List.length_append, List.length_cons] at hlength ⊢
    omega
  · rw [hnames, List.nil_append, List.flatMap_cons, hitem]
    exact .refl _

/-- A module with an item starts with a token. -/
theorem start_ne_nil {first : Node} {start : List Char} (hfirst : source.items.head? = some first)
    (hstart : tokenStart? (moduleText source.code) = some start) : start ≠ [] := by
  obtain ⟨all, hall, -, -⟩ := exists_passItems hread hmark
  obtain ⟨items, hitems⟩ := List.head?_eq_some_iff.mp hfirst
  rw [hitems, List.length_cons] at hall
  obtain ⟨_, _, _, _, hsame, hitem, -, -⟩ := passItems_succ_inv hall
  cases hsame.symm.trans hstart
  exact (passItem_inv hitem).1

theorem gains_of_opening {offset : Nat} {before start : List Char} {o : Options}
    (hstatement : Introduces markup name (importStatement o).toList)
    (htext : source.code = before ++ start) (hoffset : offset = Text.byteLength before)
    (hstart : tokenStart? (moduleText source.code) = some start) (hne : start ≠ [])
    (hline : startsGap true start = false) :
    source.Gains markup name (splice source.code 0 (Text.byteLength source.code)
      [.insertAt offset (importStatement o ++ "\n")]) := by
  refine gains_of_first hread hmark hstatement htext hoffset ?_ (tokenStart?_break hline) hstart
  rw [htext] at hstart
  exact tokenStart?_moduleText hstart hne (startsGap_importStatement o _)
    (head?_importStatement o _)

theorem gains_of_no_items {o : Options}
    (hstatement : Introduces markup name (importStatement o).toList) (hnone : source.items = [])
    (hplain : moduleText source.code = source.code) :
    source.Gains markup name (splice source.code 0 (Text.byteLength source.code)
      [.insertAt 0 (importStatement o ++ "\n")]) := by
  obtain ⟨all, hall, -, -⟩ := exists_passItems hread hmark
  rw [hnone] at hall
  obtain ⟨-, hend⟩ := passItems_zero_inv hall
  have hafter : tokenStart? ('\n' :: source.code) = some [] := by
    rw [hplain] at hend
    exact tokenStart?_break_end hend
  refine gains_of_first hread hmark hstatement (List.nil_append _).symm rfl ?_ hafter hend
  rw [List.nil_append, moduleText_eq_self (head?_importStatement o _)]
  exact tokenStart?_solid (startsGap_mono (startsGap_importStatement o _))

/-- Imports and directives before an import are read up to it when a default name is added. -/
theorem keeps_of_import {offset : Nat} {cut : Cut} {o : Options} {i : ImportItem}
    {behind : List Char} (hcut : source.cut? markup offset = some cut)
    (hend : cut.headEnd? markup = some behind) (hextends : cut.Extends markup o i) :
    cut.Keeps markup ("import".toList ++ extendedRest o i (cut.after.drop 6))
      ("import".toList ++ extendedRest o i (cut.after.drop 6)) := by
  obtain ⟨htext, -, hpass, -⟩ := exists_passItems_of_cut hread hmark hcut
  rw [htext] at hpass
  obtain ⟨-, -, -, hnext⟩ := heads_of_headEnd? hend hpass
  rw [hextends.starts] at hnext
  have hbegins : BeginsItem cut.after := by
    rw [hextends.keyword]
    exact beginsItem_of_spells (.word (by decide) hextends.ends) rfl
  have hbegins' : BeginsItem ("import".toList ++ extendedRest o i (cut.after.drop 6)) :=
    beginsItem_of_spells (.word (by decide) (endsName_extendedRest o i _)) rfl
  obtain ⟨gap, rfl, -⟩ := exists_before_tokenStart? hnext hbegins.ne_nil
  obtain ⟨lines, hopens⟩ := opens_of_tokenStart? hnext hbegins.starts
  have hgoes : GoesOn cut.after ("import".toList ++ extendedRest o i (cut.after.drop 6)) := by
    rw [hextends.keyword]
    exact .inl ⟨rfl, fun h => absurd (Option.some.inj h) (by decide)⟩
  have hlength : cut.after.length ≤
      ("import".toList ++ extendedRest o i (cut.after.drop 6)).length := by
    rw [hextends.keyword]
    simp [extendedRest]
  exact keeps_of_headEnd? hread hmark gap hcut hend (hgoes.gap hnext) hlength
    (hopens.replace hbegins') (.inr ⟨_, hopens⟩)

/-- The items before an import are read up to it when a default name is added. With none of them
there is only white space and comments to skip. -/
theorem keeps_of_extends {offset : Nat} {cut : Cut} {o : Options} {i : ImportItem}
    (hcut : source.cut? markup offset = some cut) (hextends : cut.Extends markup o i) :
    cut.Keeps markup ("import".toList ++ extendedRest o i (cut.after.drop 6))
      ("import".toList ++ extendedRest o i (cut.after.drop 6)) := by
  cases hempty : cut.read.isEmpty with
  | false =>
    cases hend : cut.headEnd? markup with
    | none => exact hextends.keeps hempty hend
    | some behind => exact keeps_of_import hread hmark hcut hend hextends
  | true =>
    obtain ⟨htext, -, hpass, -⟩ := exists_passItems_of_cut hread hmark hcut
    have hnone := List.isEmpty_iff.mp hempty
    rw [hnone, hextends.starts, htext] at hpass
    have hne : cut.after ≠ [] := by
      rw [hextends.keyword]
      exact List.cons_ne_nil _ _
    have hstart : tokenStart? (moduleText (cut.before ++
        ("import".toList ++ extendedRest o i (cut.after.drop 6)))) = _ :=
      tokenStart?_moduleText (passItems_zero_inv hpass).2 hne rfl
        (fun h => absurd (Option.some.inj h) (by decide))
    refine ⟨([], _), ?_, by rw [hnone]; rfl, rfl⟩
    rw [hnone]
    exact passItems_zero hstart

/-- A default name in front of the names of an import. -/
theorem gains_of_extends {cut : Cut} {o : Options} {i : ImportItem}
    (hname : IsName o.lookupFunction.toList) (hfree : o.lookupFunction ∉ reservedWords)
    (hcut : source.cut? markup i.span.lo = some cut) (hextends : cut.Extends markup o i) :
    source.Gains markup o.lookupFunction (splice source.code 0 (Text.byteLength source.code)
      [extendImport i o.lookupFunction]) := by
  obtain ⟨htext, hoffset, hbefore, count, more, hmore, hnames, hlength⟩ :=
    exists_passItems_of_cut hread hmark hcut
  obtain ⟨item, item', behind, hitem, hitem', hadded⟩ := hextends.exists_passItem hname hfree
  obtain ⟨⟨found, start⟩, hfound, halike, rfl⟩ := keeps_of_extends hread hmark hcut hextends
  have hsolid := tokenStart?_passItems hbefore
  rw [hextends.starts] at hmore hsolid
  -- the import is an item, so there is one to be read
  obtain ⟨n, rfl⟩ : ∃ n, count = n + 1 := by
    cases count with
    | zero =>
      have hend := hsolid.symm.trans (passItems_zero_inv hmore).2
      exact absurd (Option.some.inj hend) (passItem_inv hitem).1
    | succ n => exact ⟨n, rfl⟩
  obtain ⟨_, _, _, others, hstart, hfirst, hothers, rfl⟩ := passItems_succ_inv hmore
  cases hstart.symm.trans hsolid
  cases hfirst.symm.trans hitem
  have hpass := passItems_append hfound
    (passItems_succ (tokenStart?_passItems hfound) hitem' hothers)
  rw [hextends.keyword, ← List.append_assoc] at htext
  have hplace : i.span.lo + "import".length = Text.byteLength (cut.before ++ "import".toList) := by
    rw [Text.byteLength_append, ← hoffset]
    rfl
  have hsplice := splice_insertAt htext hplace (extendImport i o.lookupFunction).text
  rw [List.append_assoc] at htext hsplice
  rw [htext] at hmark hlength
  have hgains : source.Gains markup o.lookupFunction (String.ofList
      (cut.before ++ ("import".toList ++ extendedRest o i (cut.after.drop 6)))) := by
    refine gains_of_passItems hpass (withoutMark_congr (by simp [List.head?_append]) hmark) ?_ ?_
    · simp only [List.length_append, extendedRest] at hlength ⊢
      omega
    · rw [hnames, List.flatMap_append, List.flatMap_cons, List.flatMap_cons, hadded,
        flatMap_alike (fun _ _ => boundNames_alike) halike]
      exact List.perm_middle
  rw [extendedRest, ← hsplice] at hgains
  exact hgains

end

/-! ### Conditions on the source -/

namespace Script.Source

/-- Imports of values from the module of the lookup function. -/
def importsFrom (s : Source) (o : Options) : List ImportItem :=
  s.items.filterMap (importFrom? o.importSource)

/-- The first of them with a default name, and that name. -/
def defaultImport? (s : Source) (o : Options) : Option (ImportItem × String) :=
  (s.importsFrom o).findSome? fun i => i.defaultName?.map (i, ·)

/-- The place that the edits choose can take what they put there. Behind items other than imports
and directives the parser has to read these as before. -/
@[mk_iff]
structure Admits (s : Source) (markup : Bool) (o : Options) : Prop where
  /-- The name of the default import can be used as it is. -/
  behindDefault : ∀ found ∈ s.defaultImport? o, IsName found.2.toList ∧ found.2 ∉ reservedWords ∧
    ∃ cut ∈ s.cut? markup found.1.span.hi,
      cut.Takes markup (aliasStatement o.lookupFunction found.2)
  inImport : s.defaultImport? o = none → ∀ i ∈ (s.importsFrom o).head?,
    ∃ cut ∈ s.cut? markup i.span.lo, cut.Extends markup o i
  behindDirectives : s.importsFrom o = [] → ∀ last ∈ (s.items.takeWhile isDirective).getLast?,
    ∃ cut ∈ s.cut? markup last.span.hi, cut.Takes markup (importStatement o)
  /-- The first item has no decorators before it and does not start like the end of a comment in
  markup, which it would be at the start of a line. -/
  beforeItems : s.importsFrom o = [] → ∀ first ∈ s.items.head?, isDirective first = false →
    ∃ split ∈ Text.splitAt? first.span.lo s.code,
      tokenStart? (moduleText s.code) = some split.2 ∧ startsGap true split.2 = false
  /-- A module without items names no interpreter. -/
  withoutItems : s.items.isEmpty = true → moduleText s.code = s.code

end Script.Source

instance (cut : Cut) (markup : Bool) (text start : List Char) :
    Decidable (cut.Keeps markup text start) :=
  inferInstanceAs (Decidable (∃ found ∈ passItems markup _ _, _ ∧ _))

instance (cut : Cut) (markup : Bool) (statement : String) :
    Decidable (cut.Takes markup statement) :=
  inferInstanceAs (Decidable (_ ∧ _))

instance (cut : Cut) (markup : Bool) (o : Options) (i : ImportItem) :
    Decidable (cut.Extends markup o i) :=
  decidable_of_iff' _ (Cut.extends_iff cut markup o i)

instance (s : Source) (markup : Bool) (o : Options) : Decidable (s.Admits markup o) :=
  decidable_of_iff' _ (Source.admits_iff s markup o)

section

variable {markup : Bool} {code : String} {source : Source} {o : Options}
  (hread : Source.read markup code = .ok source) (hmark : withoutMark source.code = source.code)
  (hname : IsName o.lookupFunction.toList) (hfree : o.lookupFunction ∉ reservedWords)
  (hadmits : source.Admits markup o)

include hread hmark hname hfree hadmits

/-- A new import binds the lookup function. -/
theorem gains_of_newImport (hnone : source.importsFrom o = []) :
    source.Gains markup o.lookupFunction (splice source.code 0 (Text.byteLength source.code)
      [newImport source.items o]) := by
  have hstatement := introduces_importStatement markup hname hfree
  unfold newImport
  split
  · rename_i last hlast
    obtain ⟨cut, hcut, htakes⟩ := hadmits.behindDirectives hnone last hlast
    exact gains_of_takes hread hmark hcut htakes hstatement (by simp)
  · rename_i first hdirectives hfirst
    have hdirective : isDirective first = false := by
      obtain ⟨items, hitems⟩ := List.head?_eq_some_iff.mp hfirst
      rw [hitems, List.getLast?_eq_none_iff, List.takeWhile_eq_nil_iff] at hdirectives
      simpa using hdirectives
    obtain ⟨⟨before, start⟩, hsplit, hstart, hline⟩ :=
      hadmits.beforeItems hnone first hfirst hdirective
    obtain ⟨htext, hoffset⟩ := Text.splitAt?_eq_some hsplit
    exact gains_of_opening hread hmark hstatement htext hoffset hstart
      (start_ne_nil hread hmark hfirst hstart) hline
  · rename_i hfirst
    have hitems := List.head?_eq_none_iff.mp hfirst
    exact gains_of_no_items hread hmark hstatement hitems
      (hadmits.withoutItems (List.isEmpty_iff.mpr hitems))

/-- The edits bind the lookup function where they have not found it bound. -/
theorem gains_of_admits (hunseen : o.lookupFunction ∉ source.items.flatMap itemNames) :
    source.Gains markup o.lookupFunction (splice source.code 0 (Text.byteLength source.code)
      (importEdits source.items o)) := by
  unfold importEdits
  rw [if_neg (by simpa using hunseen)]
  split
  · rename_i i bound hdefault
    obtain ⟨hbound, hboundFree, cut, hcut, htakes⟩ := hadmits.behindDefault (i, bound) hdefault
    exact gains_of_takes hread hmark hcut htakes
      (introduces_aliasStatement markup hname hfree hbound hboundFree) (by simp [aliasStatement])
  · rename_i i hdefault hfirst
    obtain ⟨cut, hcut, hextends⟩ := hadmits.inImport hdefault i hfirst
    exact gains_of_extends hread hmark hname hfree hcut hextends
  · rename_i hdefault hfirst
    exact gains_of_newImport hread hmark hname hfree hadmits (List.head?_eq_none_iff.mp hfirst)

end

theorem isIdentifier_of_validate {s : Settings} (h : s.validate = .ok ()) :
    Text.isIdentifier s.lookupFunction = true := by
  by_contra hnot
  have hbad : (!Text.isIdentifier s.lookupFunction) = true := by simpa using hnot
  simp only [Settings.validate, hbad, if_true, bind, Except.bind] at h
  split at h
  · cases h
  · split at h
    · cases h
    · split at h <;> cases h

/-- What the edits take notice of is bound. -/
theorem itemNames_subset (item : Node) : itemNames item ⊆ boundNames item := by
  have hdeclared : ∀ d, declaredNames d ⊆ ownNames d := by
    intro d name h
    unfold declaredNames at h
    unfold ownNames
    split at h <;> simp_all [declaratorNames]
  intro name h
  unfold itemNames at h
  unfold boundNames
  split at h
  · simp_all
  · rename_i hkind
    rw [hkind]
    obtain ⟨d, hd, hname⟩ := List.mem_flatMap.mp h
    exact List.mem_flatMap.mpr ⟨d, hd, hdeclared d hname⟩
  · rename_i himport hexport
    split
    · exact absurd ‹_› (himport _ _ _)
    · exact absurd ‹_› hexport
    · rename_i hkind
      simp [declaredNames, hkind] at h
    · exact hdeclared item h

/-- With the edits spliced in, a module reads again and binds the lookup function: once, unless it
was bound more often before. It binds every other name as often as before. There is no byte-order
mark, which the offsets would not count, and the name is not bound by something that the edits take
no notice of, such as an enumeration, a default export or a `var` in a block. -/
theorem importEdits_bind_lookup_once {markup : Bool} {code : String} {source : Source}
    {s : Settings}
    (hread : Source.read markup code = .ok source) (hvalid : s.validate = .ok ())
    (hfree : s.lookupFunction ∉ reservedWords) (hmark : withoutMark source.code = source.code)
    (hseen : s.lookupFunction ∈ source.boundNames →
      s.lookupFunction ∈ source.items.flatMap itemNames)
    (hadmits : s.lookupFunction ∉ source.boundNames → source.Admits markup s.options) :
    ∃ after, Source.read markup (splice source.code 0 (Text.byteLength source.code)
        (importEdits source.items s.options)) = .ok after ∧
      after.boundNames.count s.lookupFunction = max 1 (source.boundNames.count s.lookupFunction) ∧
      ∀ name ≠ s.lookupFunction, after.boundNames.count name = source.boundNames.count name := by
  by_cases hbound : s.lookupFunction ∈ source.boundNames
  · have hedits : importEdits source.items s.options = [] := by
      have hcontains : (source.items.flatMap itemNames).contains s.options.lookupFunction = true :=
        List.contains_iff_mem.mpr (hseen hbound)
      rw [importEdits, hcontains]
      rfl
    have hsame : splice source.code 0 (Text.byteLength source.code) [] = code := by
      rw [splice, Source.code_of_read hread]
      exact (congrArg String.ofList (Text.slice_all _)).trans String.ofList_toList
    have hcount := List.count_pos_iff.mpr hbound
    rw [hedits, hsame]
    exact ⟨source, hread, by omega, fun _ _ => rfl⟩
  · have hunseen : s.lookupFunction ∉ source.items.flatMap itemNames := by
      intro hseen
      obtain ⟨item, hitem, hname⟩ := List.mem_flatMap.mp hseen
      exact hbound (List.mem_flatMap.mpr ⟨item, hitem, itemNames_subset item hname⟩)
    obtain ⟨after, hafter, hnames⟩ := gains_of_admits hread hmark
      (isName_of_isIdentifier (isIdentifier_of_validate hvalid)) hfree (hadmits hbound) hunseen
    refine ⟨after, hafter, ?_, ?_⟩
    · rw [hnames.count_eq, List.count_eq_zero.mpr hbound]
      have hself : s.options.lookupFunction = s.lookupFunction := rfl
      rw [hself, List.count_cons_self, List.count_eq_zero.mpr hbound]
      rfl
    · intro name hname
      rw [hnames.count_eq]
      exact List.count_cons_of_ne (Ne.symm hname)

/-- The name goes in front of the list of an import that stands behind a directive. -/
theorem importEdits_bind_lookup_once_list :
    let code := "'use client'; import \x7b f \x7d from '@/i18n'; enum Mode \x7b dark \x7d"
    let out := "'use client'; import t, \x7b f \x7d from '@/i18n'; enum Mode \x7b dark \x7d"
    let settings : Settings := {}
    ∃ source, Source.read true code = .ok source ∧ source.Admits true settings.options ∧
      splice source.code 0 (Text.byteLength source.code)
        (importEdits source.items settings.options) = out ∧
      ∃ after, Source.read true out = .ok after ∧ after.boundNames.count "t" = 1 ∧
        after.boundNames.count "Mode" = 1 := by
  intro code out settings
  have hchecked : (Source.read true code).toOption.any (fun source =>
      decide (source.Admits true settings.options ∧ withoutMark source.code = source.code ∧
        source.boundNames = ["f", "Mode"] ∧
        splice source.code 0 (Text.byteLength source.code)
          (importEdits source.items settings.options) = out)) = true := by
    decide +kernel +zetaReduce
  clear_value code out
  obtain ⟨source, hread, hadmits, hmark, hnames, hout⟩ := Source.exists_read hchecked
  have hunbound : "t" ∉ source.boundNames := by
    rw [hnames]
    decide
  have hsettings : settings.validate = .ok () := by decide +kernel
  obtain ⟨after, hafter, hcount, hothers⟩ := importEdits_bind_lookup_once hread hsettings
    (by decide) hmark (fun h => absurd h hunbound) (fun _ => hadmits)
  rw [hout] at hafter
  refine ⟨source, hread, hadmits, hout, after, hafter, ?_, ?_⟩
  · rw [hnames] at hcount
    exact hcount
  · rw [hothers "Mode" (by decide), hnames]
    decide

end Phrasebook
