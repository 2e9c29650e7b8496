import Phrasebook.Script.Grammar.Expression

/-!
Declarations of variables, functions, classes, types and namespaces.
-/
namespace Phrasebook.Script.Grammar

open Parse

variable (rec : Rec)

/-! ### Variables -/

/-- The word between what a loop assigns to and what it runs over. -/
def isLoopWord (c : Cursor) : Bool := c.anyWord ["of", "in"]

/-- The word `let` before this token declares variables. -/
def followsLet (c : Cursor) : Bool :=
  match c.token with
  | .word _ (some role) => role != "this" && !keywords.contains role
  | .word _ none => true
  | .punct text => text == "\x7b" || text == "["
  | _ => false

/-- The cursor is on the word that declares variables. -/
def startsVariables (c : Cursor) : Bool :=
  c.anyWord ["var", "const"] || (c.isWord "let" && followsLet c.next)

/-- A variable declared by `keyword`. What takes a value apart needs one, unless the value comes
from elsewhere. -/
def declarator (keyword : String) (inLoop : Bool) : Parse Node := do
  let lo ← here
  if keyword != "var" && (← isWord "let") then fail
  let p ← rec .pattern
  let named := p.kind matches .binding _
  if named then
    let _ ← accept "!"
  let annotated := extend p (← optionalAscription rec)
  if inLoop && (← test isLoopWord) then node .declarator lo [annotated]
  else if ← accept "=" then
    let value ← rec .assignment
    node .declarator lo [annotated, value]
  else if named || keyword == "const" || (← get).context.ambient then
    node .declarator lo [annotated]
  else fail

def declaratorsFrom (item : Parse Node) : Nat → Parse (List Node)
  | 0 => fail
  | fuel + 1 => do
    if ← test fun c => c.isPunct ";" || c.token == .eof then return []
    let d ← item
    if ← accept "," then return d :: (← declaratorsFrom item fuel)
    return [d]

/-- Declarators separated by commas; a comma may come last. -/
def declarators (item : Parse Node) : Parse (List Node) := do
  declaratorsFrom item (← get).fuel

/-- The variables of a loop may be left out. -/
def lacksVariables : Parse Bool := ahead do
  unless ← test isLoopWord do fail
  advance
  let _ ← rec .assignment
  expect ")"
  return true

/-- The variables a loop declares, from the keyword on. -/
def loopVariables (lo : Nat) : Parse Node := do
  let keyword ← anyName
  if ← lacksVariables rec then node (.variables (keyword == "var")) lo []
  else
    let item := declarator rec keyword true
    let decls ← declarators (if keyword == "var" then withoutIn item else nested item)
    node (.variables (keyword == "var")) lo decls

def skipStatement : Nat → Parse Unit
  | 0 => fail
  | fuel + 1 => do
    unless ← acceptSemicolon do
      if (← get).token == .bad then fail
      advance
      skipStatement fuel

/-- Variables from the keyword on. What follows them on the line without a semicolon is dropped. -/
def variablesDecl (lo : Nat) : Parse Node := do
  let keyword ← anyName
  let decls ← declarators (nested (declarator rec keyword false))
  unless ← acceptSemicolon do
    let _ ← recover (missing lo) (rec .expression)
    skipStatement (← get).fuel
  node (.variables (keyword == "var")) lo decls

def startsResources (c : Cursor) : Bool := c.isWord "using" && c.next.isName && !c.next.newline

/-- Variables that are disposed of at the end of their scope, from `using` on. -/
def resources (lo : Nat) : Parse Node := do
  expectWord "using"
  let decls ← declarators (nested (declarator rec "var" false))
  semicolon
  node .resources lo decls

/-! ### Functions and classes -/

def functionDecl (lo : Nat) (async : Bool) (decs : List Node) : Parse Node := do
  let (name, f) ← functionAfterKeyword rec async false decs
  node (.functionDecl (name.getD "")) lo [f]

def classDecl (lo : Nat) (decs : List Node) : Parse Node := do
  let (name, body) ← classAfterKeyword rec false decs
  node (.classDecl (name.getD "")) lo [body]

/-! ### Types -/

/-- An interface, read after its keyword. A second list of bases is dropped. -/
def interfaceDecl (lo : Nat) : Parse Node := do
  let _ ← anyName
  let types ← optionalTypeParameters rec
  let bases ← if ← acceptWord "extends" then heritageList rec else pure []
  if ← isWord "extends" then
    let _ ← many (fun c => c.isPunct "\x7b" || c.token == .eof) advance
  let members ← typeMembers rec
  node .typeDecl lo (types ++ bases ++ members)

def typeAliasDecl (lo : Nat) : Parse Node := do
  let _ ← anyName
  let types ← optionalTypeParameters rec
  expect "="
  let t ← nested (rec .type)
  semicolon
  node .typeDecl lo (types ++ [t])

/-- A member of an enumeration. One stray token after its name is dropped. -/
def enumMember : Parse Node := do
  let lo ← here
  match (← get).token with
  | .string _ | .number _ => advance
  | .punct "[" =>
    advance
    let _ ← rec .expression
    expect "]"
  | _ =>
    let _ ← anyName
  if ← accept "=" then
    let value ← rec .assignment
    node .enumMember lo [value]
  else
    let c ← get
    if c.token == .eof then fail
    unless c.anyPunct [",", "\x7d"] do advance
    node .enumMember lo []

/-- An enumeration, read after its keyword. The commas may be left out. -/
def enumDecl (lo : Nat) : Parse Node := do
  let name ← anyName
  expect "\x7b"
  let members ← nested <| many (·.isPunct "\x7d") do
    let m ← enumMember rec
    let _ ← accept ","
    return m
  expect "\x7d"
  node (.enumDecl name) lo members

/-! ### Namespaces -/

def namespaceBody : Parse (List Node) := do
  expect "\x7b"
  let items ← nested (many isBraceEnd (rec .item))
  closingBrace
  return items

/-- A namespace, read after its keyword. -/
def namespaceDecl (lo : Nat) : Parse Node := do
  let name ← anyName
  let _ ← many (!·.isPunct ".") do
    advance
    anyName
  let items ← namespaceBody rec
  node (.namespaceDecl (some name)) lo items

/-- The global scope, or another module given by its name. -/
def outerScope (lo : Nat) : Parse Node := do
  advance
  if ← isPunct "\x7b" then
    let items ← namespaceBody rec
    node (.namespaceDecl none) lo items
  else
    semicolon
    node (.namespaceDecl none) lo []

/-! ### Declarations by their first word -/

/-- Words that open a declaration in the right company. -/
def declarationWords : List String :=
  ["abstract", "enum", "interface", "module", "namespace", "type"]

/-- The declaration that one of the `declarationWords` opened. -/
def declarationAfter (lo : Nat) (decs : List Node) (word : String) : Parse Node := do
  match word with
  | "abstract" => classDecl rec lo decs
  | "enum" => enumDecl rec lo
  | "interface" => interfaceDecl rec lo
  | "type" => typeAliasDecl rec lo
  | _ =>
    if word == "module" && (← test Cursor.isString) then outerScope rec lo
    else namespaceDecl rec lo

/-- A declaration from its first word on, where only a declaration may stand. -/
def wordDeclaration (lo : Nat) (decs : List Node) : Parse (Option Node) := do
  let c ← get
  match c.word? with
  | some word =>
    if !declarationWords.contains word || (word == "module" && c.newline) then return none
    advance
    return some (← declarationAfter rec lo decs word)
  | none => return none

/-- What is only declared, read after `declare`. -/
def ambientDeclaration (lo : Nat) (decs : List Node) : Parse (Option Node) :=
  within ({ · with ambient := true }) do
    let c ← get
    if c.isWord "function" then return some (← functionDecl rec lo false decs)
    else if c.isWord "class" then return some (← classDecl rec lo decs)
    else if c.isWord "const" && c.next.isWord "enum" then
      advance
      advance
      return some (← enumDecl rec lo)
    else if c.anyWord ["var", "const", "let"] then return some (← variablesDecl rec lo)
    else if c.isWord "global" then return some (← outerScope rec lo)
    else wordDeclaration rec lo decs

end Phrasebook.Script.Grammar
