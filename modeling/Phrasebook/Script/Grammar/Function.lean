import Phrasebook.Script.Grammar.Pattern

/-!
Function bodies and classes.
-/
namespace Phrasebook.Script.Grammar

open Parse

variable (rec : Rec)

/-! ### Functions -/

def isBraceEnd (c : Cursor) : Bool := c.isPunct "\x7d" || c.token == .eof

/-- The brace that ends a block or class, or the end of the module in place of it. -/
def closingBrace : Parse Unit := do
  unless (← get).token == .eof do expect "\x7d"

def block : Parse Node := do
  let lo ← here
  expect "\x7b"
  let statements ← nested (many isBraceEnd (rec .statement))
  closingBrace
  node .block lo statements

/-- The body of a function. A signature ends like a statement instead. -/
def functionBody : Parse (List Node) :=
  within ({ · with inParameters := false, inLoopHead := false }) do
    if !(← isPunct "\x7b") && (← acceptSemicolon) then return []
    return [← block rec]

/-- What a function is made of, apart from its decorators. -/
structure FunctionParts where
  params : List Node
  body : List Node
  types : List Node
  result : List Node

def functionParts (generator async : Bool) : Parse FunctionParts := inFunction generator async do
  let types ← optionalTypeParameters rec
  let params ← parameters rec
  let result ← optionalResultAscription rec
  let body ← functionBody rec
  return ⟨params, body, types, result⟩

/-- Parameters, result type and body of a function. -/
def functionRest (generator async : Bool) (decs : List Node) : Parse Node := do
  let lo ← here
  let f ← functionParts rec generator async
  node .function lo (f.params ++ decs ++ f.body ++ f.types ++ f.result)

/-- A function of an object or class, which may use the members of the base class. -/
def methodRest (generator async : Bool) (decs : List Node) : Parse Node :=
  within ({ · with allowSuper := true }) (functionRest rec generator async decs)

/-- A function from its keyword on: its name, which may be left out if `nameless`, and the rest. -/
def functionAfterKeyword (async nameless : Bool) (decs : List Node) :
    Parse (Option String × Node) := do
  expectWord "function"
  let generator ← accept "*"
  let c ← get
  let named ← if !nameless || c.isName || c.isWord "this" then pure (some (← bindingName))
    else pure none
  let f ← within ({ · with allowSuper := false }) (functionRest rec generator async decs)
  return (named, f)

/-! ### Members of classes -/

/-- What stands before the name of a member. -/
structure MemberHead where
  lo : Nat
  decorators : List Node
  /-- Said who may use the member. -/
  access : Bool
  isStatic : Bool
  accessor : Bool
  readonly : Bool
  /-- Written `abstract` or `override`. -/
  inherited : Bool

def startsMethod (c : Cursor) : Bool := c.isPunct "(" || c.isPunct "<"

/-- A field goes on or ends here. With `loose`, a line break ends it too. -/
def startsField (loose : Bool) (c : Cursor) : Bool :=
  c.anyPunct ["!", ":", "=", "\x7d", ";"] || (loose && c.endsStatement)

/-- The name of a member, which may be hidden outside its class. -/
def memberKey : Parse Node := do
  let lo ← here
  match (← get).token with
  | .hidden _ =>
    advance
    node .key lo []
  | _ => propertyKey rec

def isConstructorName (c : Cursor) : Bool :=
  c.isText "constructor" || c.token == .string (some "constructor")

def methodMember (head : MemberHead) (key : Node) (generator async : Bool) : Parse Node := do
  let f ← methodRest rec generator async head.decorators
  node .method head.lo [key, f]

def fieldMember (head : MemberHead) (key : Node) (optional : Bool) : Parse Node := do
  unless optional do
    let _ ← accept "!"
  let ann ← optionalAscription rec
  let value ← if ← accept "=" then pure [← nested (rec .assignment)] else pure []
  let _ ← acceptSemicolon
  let kind := if head.accessor then Kind.accessorField else .field head.isStatic
  node kind head.lo (key :: value ++ ann ++ head.decorators)

/-- A parameter of a constructor, which may declare a field by its modifiers. -/
def constructorParameter : Parse Node := do
  let lo ← here
  let decs ← decorators rec
  if ← isPunct "..." then
    let p ← parameter rec
    node .param lo (decs ++ p.children)
  else
    let access ← accessModifier
    let overriding := (← modifier ["override"]).isSome
    let readonly := (← modifier ["readonly"]).isSome
    let p ← singleParameter rec
    if (access || overriding || readonly) && (p.kind == .arrayPattern || p.kind == .objectPattern)
    then fail
    node .param lo (decs ++ [p])

def constructorMember (head : MemberHead) (key : Node) : Parse Node :=
  inFunction false false do
    let _ ← optionalTypeParameters rec
    let params ← parametersWith (constructorParameter rec)
    let _ ← optionalAscription rec
    let body ← functionBody rec
    node .classConstructor head.lo (key :: params ++ body)

def staticBlock (lo : Nat) : Parse Node := do
  let b ← inFunction false false (block rec)
  node .staticBlock lo [b]

/-- An asynchronous method, read after `async`. -/
def asyncMember (head : MemberHead) (optional : Bool) : Parse Node := do
  let _ ← modifier ["override"]
  let generator ← accept "*"
  if (← test isConstructorName) || head.readonly then fail
  let key ← memberKey rec
  unless optional do
    let _ ← accept "?"
  methodMember rec head key generator true

/-- A member from its name on. -/
def namedMember (head : MemberHead) : Parse Node := do
  let c ← get
  let isConstructor := isConstructorName c
  let key ← if head.readonly && c.anyPunct ["!", ":"] then wordBefore .key "readonly"
    else memberKey rec
  let optional ← accept "?"
  let next ← get
  if startsMethod next then
    if head.readonly then fail
    else if isConstructor then constructorMember rec head key
    else methodMember rec head key false false
  else
    let accessing := (c.isText "get" || c.isText "set") && !startsField false next &&
      !(next.newline && next.isPunct "*")
    if !accessing && startsField true next then
      if isConstructor then fail
      fieldMember rec head key optional
    else if c.isText "async" && !next.newline then asyncMember rec head optional
    else if accessing then
      let key ← memberKey rec
      methodMember rec head key false false
    else fail

def memberModifiersWith : Nat → MemberHead → Parse MemberHead
  | 0, _ => fail
  | fuel + 1, head => do
    if ← test fun c => c.isWord "static" && c.next.isPunct "\x7b" then return head
    match ← modifier ["abstract", "readonly", "override", "static"] with
    | some "readonly" => memberModifiersWith fuel { head with readonly := true }
    | some "static" => memberModifiersWith fuel { head with isStatic := true }
    | some _ => memberModifiersWith fuel { head with inherited := true }
    | none => return head

/-- A member from its later modifiers on. -/
def modifiedMember (head : MemberHead) : Parse Node := do
  let head ← memberModifiersWith (← get).fuel head
  let accessor ← if head.accessor then pure true else acceptWord "accessor"
  let head := { head with accessor }
  let c ← get
  if head.isStatic && c.isPunct "\x7b" then staticBlock rec head.lo
  else if c.isWord "static" && c.next.isPunct "\x7b" then
    advance
    staticBlock rec head.lo
  else if !head.inherited && !head.access && isIndexSignature c then indexSignature rec head.lo
  else if ← accept "*" then
    let key ← memberKey rec
    methodMember rec head key true false
  else namedMember rec head

/-- A member named by the word before, if it is one and not a modifier. -/
def memberNamed (head : MemberHead) (loose : Bool) (word : String) : Parse (Option Node) := do
  let c ← get
  if startsMethod c then
    let key ← wordBefore .key word
    return some (← methodMember rec head key false false)
  else if startsField loose c || c.isPunct "?" then
    let key ← wordBefore .key word
    let optional ← accept "?"
    return some (← fieldMember rec head key optional)
  else return none

/-- A member from `accessor` on. -/
def accessorMember (head : MemberHead) : Parse Node := do
  if ← acceptWord "accessor" then
    match ← memberNamed rec head true "accessor" with
    | some m => return m
    | none => modifiedMember rec { head with accessor := true }
  else modifiedMember rec head

/-- A member from `static` on. -/
def staticMember (head : MemberHead) : Parse Node := do
  if ← acceptWord "static" then
    match ← memberNamed rec head false "static" with
    | some m => return m
    | none => accessorMember rec { head with isStatic := true }
  else accessorMember rec head

def classMember : Parse (List Node) := do
  if ← accept ";" then return []
  let lo ← here
  let decorators ← decorators rec
  let early ← acceptWord "declare"
  let access ← accessModifier
  let declared ← if early then pure true else acceptWord "declare"
  let head : MemberHead := ⟨lo, decorators, access, false, false, false, false⟩
  let named ← if declared then memberNamed rec head true "declare" else pure none
  match named with
  | some m => return [m]
  | none => return [← staticMember rec head]

/-! ### Classes -/

def endsHeritage (c : Cursor) : Bool := c.isPunct "\x7b" || c.anyWord ["implements", "extends"]

/-- An implemented interface. -/
def heritage : Parse Node := do
  let lo ← here
  let _ ← anyName
  let _ ← many (!·.isPunct ".") do
    advance
    anyName
  let args ← if ← isPunct "<" then pure [← typeArguments rec] else pure []
  node .type lo args

/-- Interfaces separated by commas, perhaps none. -/
def heritageList : Parse (List Node) := many endsHeritage do
  let h ← heritage rec
  unless ← accept "," do
    unless ← test endsHeritage do fail
  return h

/-- The base class, and the types it is applied to. -/
def baseClass : Parse (Node × List Node) := do
  let e ← rec .leftHandSide
  match e with
  | .mk .assertion _ [base, .mk .typeArgs span types] => return (base, [.mk .typeArgs span types])
  | _ =>
    let types ← if ← isPunct "<" then pure [← typeArguments rec] else pure []
    return (e, types)

/-- The base class and the interfaces of a class. Clauses may be repeated; the first base class
counts. -/
def classHeritage : Parse (Option (Node × List Node) × List Node) := do
  let base ← if ← acceptWord "extends" then pure (some (← baseClass rec)) else pure none
  if base.isSome && (← accept ",") then
    let _ ← heritageList rec
  let implemented ← many (!·.isWord "implements") do
    advance
    heritageList rec
  let later ← if ← acceptWord "extends" then pure (some (← baseClass rec)) else pure none
  let more ← many (!·.isWord "implements") do
    advance
    heritageList rec
  return (base <|> later, implemented.flatten ++ more.flatten)

/-- A class from its keyword on: its name, which may be left out if `nameless`, and the rest. -/
def classAfterKeyword (nameless : Bool) (decs : List Node) : Parse (Option String × Node) := do
  let lo ← here
  expectWord "class"
  let c ← get
  let name ← if nameless && !c.isName && !c.isWord "this" then pure none
    else if c.isWord "let" then fail
    else pure (some (← bindingName))
  let types ← optionalTypeParameters rec
  let (base, implemented) ← classHeritage rec
  expect "\x7b"
  let members ← within ({ · with inParameters := false, allowSuper := true })
    (nested (many isBraceEnd (classMember rec)))
  closingBrace
  let body ← node .classBody lo
    (decs ++ members.flatten ++ (base.map (·.1)).toList ++ types ++
      ((base.map (·.2)).getD []) ++ implemented)
  return (name, body)

end Phrasebook.Script.Grammar
