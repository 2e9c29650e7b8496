import Phrasebook.Script.Token

/-!
Reading a module token by token. A cursor stands on one token; nothing past it has been read, so
the grammar may choose how the text behind it is to be taken.
-/
namespace Phrasebook.Script

/-- Why a module could not be read, and where. -/
structure SyntaxFault where
  pos : Nat
deriving DecidableEq, Repr, Inhabited

/-- What the code around a token says about how it is to be taken. -/
structure Context where
  /-- Markup is allowed; otherwise `<T>x` is a type assertion. -/
  markup : Bool
  /-- The operator `in` is allowed. -/
  allowIn : Bool
  /-- The expression is part of a conditional. -/
  inConditional : Bool
  /-- The expression stands between `?` and `:`. -/
  beforeColon : Bool
  /-- The type is the bound of a conditional type, directly before its `?`. -/
  inBound : Bool
  /-- The code belongs to a generator, in which `yield` is an operator. -/
  inGenerator : Bool
  inAsync : Bool
  inParameters : Bool
  /-- The members of the base class may be used. -/
  allowSuper : Bool
  /-- The code only declares what is defined elsewhere. -/
  ambient : Bool
  /-- The expression is the first clause of a loop. -/
  inLoopHead : Bool
deriving DecidableEq, Repr, Inhabited

/-- The context of the items of a module. -/
def Context.outermost (markup : Bool) : Context where
  markup
  allowIn := true
  inConditional := false
  beforeColon := false
  inBound := false
  inGenerator := false
  inAsync := false
  inParameters := false
  allowSuper := false
  ambient := false
  inLoopHead := false

structure Cursor where
  token : Token
  /-- Where the token starts. -/
  start : Input
  /-- Where the token ends. -/
  stop : Input
  /-- A line break comes before the token. -/
  newline : Bool
  /-- Offset where the token before ended. -/
  last : Nat
  /-- More than the number of characters of the module. -/
  fuel : Nat
  /-- Offset at which an arrow function may start. -/
  arrowStart : Option Nat
  context : Context
deriving Repr, Inhabited

namespace Cursor

/-- The cursor on the first token from `start` on. -/
def readFrom (c : Cursor) (start : Input) (read : Input → Token × Input) : Cursor :=
  match skipTrivia c.fuel start false with
  | none => { c with token := .bad, start, stop := start, newline := false, last := start.pos }
  | some (first, newline) =>
    let (token, stop) := read first
    { c with token, start := first, stop, newline, last := start.pos }

def next (c : Cursor) : Cursor := c.readFrom c.stop (readToken c.fuel)

def nextInTag (c : Cursor) : Cursor := c.readFrom c.stop readTagToken

def isPunct (c : Cursor) (text : String) : Bool := c.token == .punct text

def anyPunct (c : Cursor) (texts : List String) : Bool :=
  match c.token with
  | .punct text => texts.contains text
  | _ => false

/-- The token is the known word `name`, escaped or not. -/
def isWord (c : Cursor) (name : String) : Bool :=
  match c.token with
  | .word _ (some role) => role == name
  | _ => false

def anyWord (c : Cursor) (names : List String) : Bool :=
  match c.token with
  | .word _ (some role) => names.contains role
  | _ => false

def word? (c : Cursor) : Option String :=
  match c.token with
  | .word text _ => some text
  | _ => none

/-- The token is a word with this text. -/
def isText (c : Cursor) (text : String) : Bool := c.word? == some text

def isString (c : Cursor) : Bool :=
  match c.token with
  | .string _ => true
  | _ => false

/-- A word that may be an expression of its own. -/
def isName (c : Cursor) : Bool :=
  match c.token with
  | .word _ (some role) => !reservedWords.contains role
  | .word _ none => true
  | _ => false

/-- A statement may end before this token. -/
def endsStatement (c : Cursor) : Bool :=
  c.newline || c.isPunct "\x7d" || c.isPunct ";" || c.token == .eof

/-- The token opens an optional link of a chain. -/
def isOptionalLink (c : Cursor) : Bool := c.isPunct "?" && c.next.isPunct "."

/-- The token is `<` and no longer operator starts with it. -/
def isLoneAngle (c : Cursor) : Bool :=
  c.isPunct "<" &&
    match c.stop.rest with
    | d :: _ => d != '<' && d != '='
    | [] => true

end Cursor

/-! ### Readers -/

/-- A failed reader tells how far it came. -/
abbrev Parse := EStateM SyntaxFault Cursor

namespace Parse

def fail {α : Type} : Parse α := fun c => .error ⟨c.start.pos⟩ c

/-- Fails because the text is no token. -/
def failToken {α : Type} : Parse α := fun c => .error ⟨c.start.pos⟩ { c with token := .bad }

def advance : Parse Unit := modify Cursor.next

/-- The offset of the current token. -/
def here : Parse Nat := return (← get).start.pos

def test (p : Cursor → Bool) : Parse Bool := return p (← get)

def isPunct (text : String) : Parse Bool := test (·.isPunct text)

def isWord (name : String) : Parse Bool := test (·.isWord name)

/-- Moves on when the token is `text`. -/
def accept (text : String) : Parse Bool := do
  if ← isPunct text then
    advance
    return true
  return false

def acceptWord (name : String) : Parse Bool := do
  if ← isWord name then
    advance
    return true
  return false

def expect (text : String) : Parse Unit := do
  unless ← accept text do fail

def expectWord (name : String) : Parse Unit := do
  unless ← acceptWord name do fail

/-- The result of `p`, or nothing and no move when `p` fails. -/
def attempt {α : Type} (p : Parse α) : Parse (Option α) := fun c =>
  match p c with
  | .ok a next => .ok (some a) next
  | .error _ _ => .ok none c

/-- Like `attempt`, where `p` may also decline. -/
def orElseBack {α : Type} (p : Parse (Option α)) : Parse (Option α) := fun c =>
  match p c with
  | .ok (some a) next => .ok (some a) next
  | _ => .ok none c

/-- The result of `p`, or if it fails that of `q`; if both fail, the fault of `p`. -/
def either {α : Type} (p q : Parse α) : Parse α := fun c =>
  match p c with
  | .ok a next => .ok a next
  | .error fault reached =>
    match q c with
    | .ok a next => .ok a next
    | .error _ _ => .error fault reached

/-- What `p` says about the tokens ahead, without moving. A failure says no. -/
def ahead (p : Parse Bool) : Parse Bool := fun c =>
  match p c with
  | .ok b _ => .ok b c
  | .error _ _ => .ok false c

/-- The result of `p`, or `other` where `p` came to a failure. -/
def recover {α : Type} (other : α) (p : Parse α) : Parse α := fun c =>
  match p c with
  | .ok a next => .ok a next
  | .error _ reached => .ok other reached

/-- Runs `p` in another context. -/
def within {α : Type} (change : Context → Context) (p : Parse α) : Parse α := fun c =>
  match p { c with context := change c.context } with
  | .ok a next => .ok a { next with context := c.context }
  | .error fault reached => .error fault { reached with context := c.context }

/-- A node that started at `lo` and ends with the last token read. -/
def node (kind : Kind) (lo : Nat) (children : List Node) : Parse Node :=
  return .mk kind ⟨lo, (← get).last⟩ children

def manyWith {α : Type} (done : Cursor → Bool) (item : Parse α) : Nat → Parse (List α)
  | 0 => fail
  | fuel + 1 => do
    if ← test done then return []
    let a ← item
    let rest ← manyWith done item fuel
    return a :: rest

/-- Items until the cursor is `done`. -/
def many {α : Type} (done : Cursor → Bool) (item : Parse α) : Parse (List α) := do
  manyWith done item (← get).fuel

/-- Items separated by commas up to `close`, which is read too; a comma may come last. -/
def commaList {α : Type} (close : String) (item : Parse α) : Parse (List α) := do
  let items ← many (·.isPunct close) do
    let a ← item
    unless ← isPunct close do expect ","
    return a
  expect close
  return items

/-- Runs `p` with `in` allowed, outside any conditional. -/
def nested {α : Type} (p : Parse α) : Parse α :=
  within ({ · with
    allowIn := true, inConditional := false, beforeColon := false, inBound := false }) p

def withoutIn {α : Type} (p : Parse α) : Parse α := within ({ · with allowIn := false }) p

/-- Runs `p` as a part of a function of the given sort. -/
def inFunction {α : Type} (generator async : Bool) (p : Parse α) : Parse α :=
  within ({ · with inGenerator := generator, inAsync := async }) p

/-- Moves past the end of a statement: a semicolon, or a place where one may be left out. -/
def acceptSemicolon : Parse Bool := do
  if ← accept ";" then return true
  test Cursor.endsStatement

def semicolon : Parse Unit := do
  unless ← acceptSemicolon do fail

/-- Any word, reserved or not. -/
def anyName : Parse String := do
  match (← get).word? with
  | some text =>
    advance
    return text
  | none => fail

/-- A word that may be an expression of its own. -/
def name : Parse String := do
  unless ← test Cursor.isName do fail
  anyName

/-- The token is a word that something may be bound to. -/
def bindable (c : Cursor) : Bool :=
  match c.token with
  | .word _ (some role) => !keywords.contains role && (role != "await" || c.context.ambient)
  | .word _ none => true
  | _ => false

/-- A word that something is bound to. -/
def bindingName : Parse String := do
  unless ← test bindable do fail
  anyName

end Parse

/-- What the grammar asks for recursively. -/
inductive Goal where
  /-- An expression, commas included. -/
  | expression
  /-- An expression without a comma at its top. -/
  | assignment
  /-- Operands joined by operators. -/
  | operation
  | unary
  | leftHandSide
  /-- An expression with member accesses and without calls. -/
  | member
  | object
  | decorator
  | type
  /-- A type that is not a conditional type. -/
  | plainType
  | pattern
  | statement
  /-- The statement that another one governs. -/
  | governed
  /-- A statement, an import or an export. -/
  | item
  /-- Markup, read from its `<`; the cursor is left on the last `>`. -/
  | element
deriving DecidableEq, Repr

abbrev Rec := Goal → Parse Node

end Phrasebook.Script
