import Phrasebook.Script.Grammar.Statement

/-!
The items of a module: imports, exports and statements.
-/
namespace Phrasebook.Script.Grammar

open Parse

variable (rec : Rec)

/-! ### What both share -/

def moduleSource : Parse (Option String) := do
  match (← get).token with
  | .string value =>
    advance
    return value
  | _ => fail

/-- Attributes of a loaded module, on the line of its name. -/
def importAttributes : Parse (List Node) := do
  let c ← get
  if c.anyWord ["with", "assert"] && !c.newline then
    advance
    let o ← rec .object
    return [.mk .bare o.span [o]]
  return []

/-- A name for `= require("x")` or `= a.b`. -/
def importEquals (lo : Nat) (bound : String) : Parse Node := do
  expect "="
  let c ← get
  if c.isWord "require" && c.next.isPunct "(" then
    advance
    advance
    let _ ← moduleSource
    expect ")"
  else dotted name
  semicolon
  node (.importAlias bound) lo []

/-! ### Imports -/

/-- How far a module is loaded. -/
inductive Phase where
  | evaluation
  | source
  | deferred
deriving DecidableEq, Repr

/-- The name that an imported one is bound to, given after `as` or else the same. -/
def renamed (first : String) : Parse String := do
  if ← acceptWord "as" then bindingName
  else if reservedWords.contains first then fail
  else return first

/-- The name bound by `type as …` in a list, read after `as`. -/
def typeAsImport : Parse String := do
  if (← get).word?.isNone then return "as"
  let bound ← bindingName
  if bound == "as" && (← get).word?.isSome then bindingName else return bound

/-- The name that an element of a list of imports binds. -/
def importedName : Parse String := do
  if ← test Cursor.isString then
    advance
    expectWord "as"
    bindingName
  else
    let first ← anyName
    if first == "type" && (← get).word?.isSome then
      let second ← anyName
      if second == "as" then typeAsImport else renamed second
    else renamed first

/-- The names after the default one, as far as the phase allows them. -/
def importedNames (phase : Phase) : Parse (List ImportName) := do
  let c ← get
  if phase != .source && c.isPunct "*" then
    advance
    expectWord "as"
    return [⟨.wildcard, ← bindingName⟩]
  else if phase == .evaluation && c.isPunct "\x7b" then
    advance
    return (← commaList "\x7d" importedName).map (⟨.named, ·⟩)
  else return []

/-- What an import brings in: names, or one name for what stands after `=`. -/
inductive ImportHead where
  | names (typeOnly : Bool) (names : List ImportName)
  | equals (bound : String)

def importRest (typeOnly : Bool) (phase : Phase) (first : List ImportName) : Parse ImportHead := do
  let names ← importedNames phase
  expectWord "from"
  return .names typeOnly (first ++ names)

/-- The rest of the names after the default one. -/
def importAfterDefault (typeOnly : Bool) (phase : Phase) (name : String) : Parse ImportHead := do
  unless ← isWord "from" do expect ","
  importRest typeOnly phase [⟨.default, name⟩]

/-- The rest of the names after a word that is the default one or the phase. -/
def importAfterWord (typeOnly : Bool) (word : String) : Parse ImportHead := do
  let c ← get
  if c.isPunct "=" then return .equals word
  else if word == "source" || word == "defer" then
    let phase := if word == "source" then Phase.source else .deferred
    if c.anyPunct ["*", "\x7b"] then importRest typeOnly phase []
    else if (c.isName && !c.isWord "from") || c.next.isWord "from" then
      importAfterDefault typeOnly phase (← bindingName)
    else importAfterDefault typeOnly .evaluation word
  else importAfterDefault typeOnly .evaluation word

/-- What stands between `import` and the name of the module. -/
def importHead : Parse ImportHead := do
  let c ← get
  if c.isString then return .names false []
  else if !c.isName then importRest false .evaluation []
  else
    let first ← bindingName
    let c ← get
    if first == "type" && c.anyPunct ["*", "\x7b"] then importRest true .evaluation []
    else if first == "type" && c.isName then
      if !c.isWord "from" || c.next.isWord "from" || c.next.isPunct "=" then
        importAfterWord true (← bindingName)
      else importAfterWord false first
    else importAfterWord false first

/-- The end of an import of the given names, from the name of the module. -/
def importSource (lo : Nat) (typeOnly : Bool) (names : List ImportName) : Parse Node := do
  let source ← moduleSource
  let attributes ← importAttributes rec
  semicolon
  node (.importDecl typeOnly source names) lo attributes

def importDecl (lo : Nat) : Parse Node := do
  expectWord "import"
  match ← importHead with
  | .names typeOnly names => importSource rec lo typeOnly names
  | .equals bound => importEquals lo bound

/-! ### Exports -/

/-- A name seen from other modules: any word or a string. -/
def outerName : Parse Unit := do
  match (← get).token with
  | .word .. | .string _ => advance
  | _ => fail

/-- The rest of an element `type as …` of a list, after `as`. -/
def typeAsExport : Parse Unit := do
  if (← get).word?.isSome then
    let third ← anyName
    if third == "as" && (← get).word?.isSome then advance

def exportedName : Parse Unit := do
  let first := (← get).word?
  outerName
  let second ← if first == some "type" && (← get).word?.isSome then pure (some (← anyName))
    else pure none
  if second == some "as" then typeAsExport
  else if ← acceptWord "as" then outerName

/-- The module that exported names come from. -/
def fromClause : Parse (List Node) := do
  expectWord "from"
  let _ ← moduleSource
  let attributes ← importAttributes rec
  semicolon
  return attributes

/-- All names of another module, or a list of names. Nothing need end a list of own names. -/
def exportNames (lo : Nat) : Parse Node := do
  if ← accept "*" then
    if ← acceptWord "as" then outerName
    let attributes ← fromClause rec
    node .moduleDecl lo attributes
  else
    expect "\x7b"
    let _ ← commaList "\x7d" exportedName
    if ← isWord "from" then
      let attributes ← fromClause rec
      node .moduleDecl lo attributes
    else
      let _ ← acceptSemicolon
      node .moduleDecl lo []

/-- Decorators at this place, which replace those before the export; there are not both. -/
def laterDecorators (decs : List Node) : Parse (List Node) := do
  let later ← decorators rec
  if later.isEmpty then return decs
  unless decs.isEmpty do fail
  return later

/-- A function or class exported without a name of its own. -/
def defaultDecl (lo : Nat) (declared : Node) : Parse Node :=
  node .exportDefaultDecl lo [.mk .bare declared.span [declared]]

def defaultClass (lo : Nat) (decs : List Node) : Parse Node := do
  let pos ← here
  let _ ← acceptWord "abstract"
  defaultDecl lo (← classExpression rec pos decs)

def defaultFunction (lo : Nat) (decs : List Node) : Parse Node := do
  let pos ← here
  let async ← acceptWord "async"
  let (name, f) ← functionAfterKeyword rec async true decs
  defaultDecl lo (← node (.functionExpr name) pos [f])

/-- An export after `default`. -/
def exportDefault (lo : Nat) (decs : List Node) : Parse Node := do
  let decs ← laterDecorators rec decs
  let c ← get
  if c.isWord "abstract" && c.next.isWord "class" && !c.next.newline then
    defaultClass rec lo decs
  else
    if c.isWord "abstract" && c.next.isWord "interface" then advance
    let c ← get
    if c.isWord "interface" then
      advance
      let d ← interfaceDecl rec c.start.pos
      node .exportDefaultDecl lo [d]
    else if c.isWord "class" then defaultClass rec lo decs
    else if c.isWord "function" ||
        (c.isWord "async" && c.next.isWord "function" && !c.next.newline) then
      defaultFunction rec lo decs
    else
      let e ← rec .assignment
      semicolon
      node .exportDefault lo [e]

/-- An exported declaration that is not one of a type. -/
def exportedDeclaration (decs : List Node) : Parse (Option Node) := do
  let c ← get
  let lo ← here
  if c.isWord "class" then return some (← classDecl rec lo decs)
  else if c.isWord "function" then return some (← functionDecl rec lo false decs)
  else if c.isWord "async" && c.next.isWord "function" && !c.next.newline then
    advance
    return some (← functionDecl rec lo true decs)
  else if c.isWord "const" && c.next.isWord "enum" then
    advance
    advance
    return some (← enumDecl rec lo)
  else if startsVariables c then return some (← variablesDecl rec lo)
  else return none

/-- An export that is neither an assignment nor a declaration of a type. -/
def exportRest (lo : Nat) (decs : List Node) : Parse Node := do
  if ← acceptWord "type" then
    let _ ← laterDecorators rec decs
    exportNames rec lo
  else if ← acceptWord "default" then exportDefault rec lo decs
  else
    let decs ← laterDecorators rec decs
    match ← exportedDeclaration rec decs with
    | some d => node .exportDecl lo [d]
    | none => exportNames rec lo

/-- An export; decorators read before it belong to what is exported. -/
def exportItem (lo : Nat) (decs : List Node) : Parse Node := do
  expectWord "export"
  let pos ← here
  let ambient ← if ← acceptWord "declare" then ambientDeclaration rec pos decs else pure none
  let declared ← match ambient with
    | some d => pure (some d)
    | none => do orElseBack (wordDeclaration rec (← here) decs)
  match declared with
  | some d => node .exportDecl lo [d]
  | none =>
    if ← acceptWord "import" then
      if ← test fun c => c.isWord "type" && c.next.isName then advance
      importEquals lo (← anyName)
    else if ← accept "=" then
      let e ← rec .expression
      semicolon
      node .moduleDecl lo [e]
    else if ← acceptWord "as" then
      expectWord "namespace"
      let _ ← name
      semicolon
      node .moduleDecl lo []
    else exportRest rec lo decs

/-! ### Items -/

def item : Parse Node := do
  let lo ← here
  let decs ← decorators rec
  let c ← get
  if c.isWord "export" then exportItem rec (← here) decs
  else if c.isWord "import" then
    if c.next.anyPunct ["(", "."] then loadStatement rec else importDecl rec (← here)
  else statementAfter rec lo true decs

end Phrasebook.Script.Grammar
