import Phrasebook.Script.Cursor

/-!
Types. All forms of types share one kind of node; only what is nested in them matters later on.
-/
namespace Phrasebook.Script.Grammar

open Parse

/-! ### Templates -/

/-- Pieces and substitutions from `start` on, which is text inside a template. -/
def templateFrom (lenient : Bool) (inner : Parse Node) :
    Nat → Input → Parse (List Piece × List Node)
  | 0, _ => fail
  | fuel + 1, start => do
    let c ← get
    match readTemplate lenient c.fuel start [] true [] with
    | none => failToken
    | some (piece, .closed, next) =>
      set (c.readFrom next (readToken c.fuel))
      return ([piece], [])
    | some (piece, .substitution, next) =>
      set (c.readFrom next (readToken c.fuel))
      let value ← nested inner
      unless ← isPunct "\x7d" do fail
      let (pieces, values) ← templateFrom lenient inner fuel (← get).stop
      return (piece :: pieces, value :: values)

/-- A template literal, read from its opening backquote. -/
def template (lenient : Bool) (inner : Parse Node) : Parse (List Piece × List Node) := do
  unless ← isPunct "\x60" do fail
  let c ← get
  templateFrom lenient inner c.fuel c.stop

/-! ### Names -/

/-- The node with `extra` children after its own. -/
def extend (n : Node) (extra : List Node) : Node := .mk n.kind n.span (n.children ++ extra)

/-- A node over the token before, which was the word `text`. -/
def wordBefore (kind : Kind) (text : String) : Parse Node := do
  let last := (← get).last
  return .mk kind ⟨last - Text.byteLength text.toList, last⟩ []

def dottedFrom (part : Parse String) : Nat → Parse Unit
  | 0 => fail
  | fuel + 1 => do
    if ← accept "." then
      match (← get).token with
      | .word .. | .hidden _ =>
        let _ ← part
        dottedFrom part fuel
      | _ => return

/-- Dotted names; nothing need follow the last dot. -/
def dotted (part : Parse String) : Parse Unit := do
  let _ ← anyName
  dottedFrom part (← get).fuel

/-! ### Modifiers -/

/-- On the same line, this token makes a modifier of the word before it. -/
def followsModifier (c : Cursor) : Bool :=
  !c.newline &&
    match c.token with
    | .word .. | .string _ | .number _ | .bigint | .hidden _ => true
    | .punct text => ["[", "\x7b", "*", "..."].contains text
    | _ => false

/-- One of the `allowed` words, where it is a modifier and not a name. -/
def modifier (allowed : List String) : Parse (Option String) := do
  let c ← get
  match c.word? with
  | some text =>
    if allowed.contains text && followsModifier c.next then
      advance
      return some text
    else return none
  | none => return none

/-- A modifier that says who may use a member. -/
def accessModifier : Parse Bool := do
  return (← modifier ["public", "protected", "private", "in", "out"]).isSome

/-- Skips a modifier that only the parameter of a constructor may have. -/
def skipParameterModifier : Parse Unit := do
  let next := (← get).next
  if next.word?.isSome || next.isPunct "\x7b" || next.isPunct "[" then
    let _ ← modifier ["public", "protected", "private", "readonly"]

variable (rec : Rec)

/-! ### Arguments and parameters of types -/

def typeArguments : Parse Node := do
  let lo ← here
  expect "<"
  let args ← nested (commaList ">" (rec .type))
  node .typeArgs lo args

def optionalTypeArguments : Parse (List Node) := do
  if (← isPunct "<") && !(← get).newline then return [← typeArguments rec]
  return []

/-- A type after `: `. -/
def ascription : Parse Node := do
  let lo ← here
  expect ":"
  let t ← nested (rec .type)
  node .ascription lo [t]

def optionalAscription : Parse (List Node) := do
  if ← isPunct ":" then return [← ascription rec]
  return []

def typeParameterModifiers : List String :=
  ["public", "private", "protected", "readonly", "abstract", "const", "override", "in", "out"]

def typeParameterWith : Nat → Parse Unit
  | 0 => fail
  | fuel + 1 => do
    match ← modifier typeParameterModifiers with
    | some _ => typeParameterWith fuel
    | none => return

/-- A type parameter, and whether it has a bound. -/
def typeParameter : Parse (Node × Bool) := do
  let lo ← here
  typeParameterWith (← get).fuel
  let _ ← anyName
  let bound ← if ← acceptWord "extends" then pure [← rec .type] else pure []
  let fallback ← if ← accept "=" then pure [← rec .type] else pure []
  return (← node .type lo (bound ++ fallback), !bound.isEmpty)

/-- Type parameters, and whether they look like a tag: a single one without a bound, directly
before the closing bracket. -/
def typeParametersOrTag : Parse (Node × Bool) := do
  let lo ← here
  expect "<"
  let params ← nested (commaList ">" (typeParameter rec))
  let whole ← node .typeParams lo (params.map (·.1))
  match params with
  | [(p, bounded)] => return (whole, !bounded && p.span.hi + 1 == whole.span.hi)
  | _ => return (whole, false)

def typeParameters : Parse Node := return (← typeParametersOrTag rec).1

def optionalTypeParameters : Parse (List Node) := do
  if ← isPunct "<" then return [← typeParameters rec]
  return []

/-! ### Parameters of functions -/

def decorators : Parse (List Node) := many (!·.isPunct "@") (rec .decorator)

/-- The pattern with a default value when one follows. -/
def withDefault (lo : Nat) (p : Node) : Parse Node := do
  if ← accept "=" then
    let value ← nested (rec .assignment)
    node .defaulted lo [p, value]
  else return p

/-- A parameter without decorators that takes one argument. -/
def singleParameter : Parse Node := do
  let lo ← here
  skipParameterModifier
  let p ← rec .pattern
  let _ ← accept "?"
  let annotated := extend p (← optionalAscription rec)
  withDefault rec lo annotated

def parameter : Parse Node := do
  let lo ← here
  let decs ← decorators rec
  let patternLo ← here
  if ← accept "..." then
    let inner ← withDefault rec patternLo (← rec .pattern)
    let ann ← optionalAscription rec
    let rest ← node .restPattern patternLo (inner :: ann)
    let _ ← accept "?"
    node .param lo (decs ++ [rest])
  else
    let p ← singleParameter rec
    node .param lo (decs ++ [p])

def parametersWith (item : Parse Node) : Parse (List Node) := do
  expect "("
  within ({ · with inParameters := true }) (nested (commaList ")" item))

def parameters : Parse (List Node) := parametersWith (parameter rec)

/-- A parameter of a signature. It has no default value, and its decorators are dropped. -/
def signatureParameter : Parse Node := do
  let p ← parameter rec
  match p.children.getLast? with
  | some q => if q.kind == .defaulted then fail else return q
  | none => fail

def signatureParameters : Parse (List Node) := parametersWith (signatureParameter rec)

/-- The type of a result, which may be a predicate on a parameter. -/
def resultType : Parse Node := do
  let lo ← here
  let asserted ← test fun c => c.isWord "asserts" && c.next.isName
  if asserted then advance
  let compared ← test fun c => c.isName && c.next.isWord "is" && !c.next.newline
  if compared then
    advance
    advance
    let t ← rec .type
    node .type lo [t]
  else if asserted then
    advance
    node .type lo []
  else rec .type

def resultAscription : Parse Node := do
  let lo ← here
  expect ":"
  let t ← nested (resultType rec)
  node .ascription lo [t]

def optionalResultAscription : Parse (List Node) := do
  if ← isPunct ":" then return [← resultAscription rec]
  return []

/-! ### Members of interfaces and type literals -/

/-- Names of members of types are expressions. -/
def typeMemberKey : Parse Node := do
  let lo ← here
  match (← get).token with
  | .word text _ =>
    advance
    node (.ident text) lo []
  | .string _ | .number _ | .bigint => rec .member
  | .hidden _ =>
    advance
    node .operation lo []
  | .punct "[" =>
    advance
    let key ← nested (rec .assignment)
    expect "]"
    return key
  | _ => fail

/-- The end of a member of a type. -/
def memberEnd : Parse Unit := do
  unless ← accept "," do semicolon

def isIndexSignature (c : Cursor) : Bool :=
  c.isPunct "[" && c.next.isName && c.next.next.anyPunct [":", ","]

/-- Written `[key: type]: type`. -/
def indexSignature (lo : Nat) : Parse Node := do
  expect "["
  let keyLo ← here
  let key ← node (.binding (← anyName)) keyLo []
  let annLo ← here
  advance
  let t ← nested (rec .type)
  let ann ← node .ascription annLo [t]
  expect "]"
  let value ← optionalAscription rec
  memberEnd
  node .type lo (extend key [ann] :: value)

def callSignature (lo : Nat) (key : List Node) : Parse Node := do
  let tps ← optionalTypeParameters rec
  let params ← signatureParameters rec
  let result ← optionalResultAscription rec
  memberEnd
  node .type lo (key ++ params ++ result ++ tps)

/-- A getter or setter of a type. Only the first parameter of a setter counts. -/
def accessorSignature (lo : Nat) : Parse Node := do
  let getting ← acceptWord "get"
  unless getting do expectWord "set"
  let key ← typeMemberKey rec
  if getting then
    expect "("
    expect ")"
    let ann ← optionalAscription rec
    memberEnd
    node .type lo (key :: ann)
  else
    let params ← signatureParameters rec
    memberEnd
    match params with
    | [] => fail
    | p :: _ => node .type lo [key, p]

/-- A property or a method. -/
def typeProperty (lo : Nat) (readonly : Bool) : Parse Node := do
  let key ← typeMemberKey rec
  let _ ← accept "?"
  if (← isPunct "(") || (← isPunct "<") then
    if readonly then fail
    callSignature rec lo [key]
  else
    let ann ← optionalAscription rec
    memberEnd
    node .type lo (key :: ann)

def typeMember : Parse Node := do
  let lo ← here
  let c ← get
  if c.isPunct "(" || c.isPunct "<" then callSignature rec lo []
  else if c.isWord "new" && (c.next.isPunct "(" || c.next.isPunct "<") then
    advance
    callSignature rec lo []
  else
    let readonly := (← modifier ["readonly"]).isSome
    if isIndexSignature (← get) then indexSignature rec lo
    else
      let accessor ← if readonly then pure none else attempt (accessorSignature rec lo)
      match accessor with
      | some m => return m
      | none => typeProperty rec lo readonly

/-- Members in braces. -/
def typeMembers : Parse (List Node) := do
  expect "\x7b"
  let members ← nested (many (·.isPunct "\x7d") (typeMember rec))
  expect "\x7d"
  return members

/-! ### Forms of types -/

def isMappedType (c : Cursor) : Bool :=
  let c := c.next
  if c.anyPunct ["+", "-"] then c.next.isWord "readonly"
  else
    let c := if c.isWord "readonly" then c.next else c
    c.isPunct "[" && c.next.isName && c.next.next.isWord "in"

/-- Written `{ [K in T as N]?: V }`. -/
def mappedType (lo : Nat) : Parse Node := do
  expect "\x7b"
  if (← accept "+") || (← accept "-") then expectWord "readonly"
  else
    let _ ← acceptWord "readonly"
  expect "["
  let _ ← anyName
  expectWord "in"
  let keys ← rec .type
  let renamed ← if ← acceptWord "as" then pure [← rec .type] else pure []
  expect "]"
  if (← accept "+") || (← accept "-") then expect "?"
  else
    let _ ← accept "?"
  let value ← optionalAscription rec
  semicolon
  expect "\x7d"
  node .type lo (keys :: renamed ++ value)

/-- The name of a tuple element. -/
def tupleLabel : Parse Node := do
  let lo ← here
  let rest ← accept "..."
  let labelLo ← here
  let label ← node (.binding (← anyName)) labelLo []
  let _ ← accept "?"
  expect ":"
  if rest then node .restPattern lo [label] else return label

def tupleElement : Parse Node := do
  let lo ← here
  let label ← attempt tupleLabel
  let rest ← accept "..."
  let t ← rec .type
  unless rest do
    let _ ← accept "?"
  node .type lo (label.toList ++ [t])

/-- Options of an imported type: attributes in braces. -/
def importTypeOptions : Parse (List Node) := do
  if (← accept ",") && (← accept "\x7b") then
    expectWord "with"
    expect ":"
    let o ← nested (rec .object)
    let _ ← accept ","
    expect "\x7d"
    return [.mk .bare o.span [o]]
  return []

def importType (lo : Nat) : Parse Node := do
  expectWord "import"
  expect "("
  if (← get).token == .eof then fail
  advance
  let options ← importTypeOptions rec
  expect ")"
  if ← accept "." then dotted bindingName
  let args ← if ← isPunct "<" then pure [← typeArguments rec] else pure []
  node .type lo (args ++ options)

/-- Words that are types of their own. -/
def typeWords : List String :=
  ["any", "bigint", "boolean", "intrinsic", "never", "null", "number", "object", "string", "symbol",
   "undefined", "unknown", "void"]

/-- Keywords that may name a type. -/
def typeKeywords : List String := ["await", "break", "null", "void", "yield"]

/-- A type that starts with a word. -/
def wordType (lo : Nat) (role : Option String) : Parse Node := do
  let c ← get
  match role with
  | some "typeof" =>
    advance
    let operand ← if ← isWord "import" then do pure [← importType rec lo] else do
      dotted anyName
      pure []
    let args ← optionalTypeArguments rec
    node .type lo (operand ++ args)
  | some "import" => importType rec lo
  | some "true" | some "false" =>
    advance
    node .type lo []
  | some "this" =>
    advance
    if (← isWord "is") && !(← get).newline then
      advance
      let t ← nested (rec .type)
      node .type lo [t]
    else node .type lo []
  | _ =>
    if c.isWord "asserts" && c.next.isWord "this" then
      advance
      advance
      let t ← if ← acceptWord "is" then pure [← nested (rec .type)] else pure []
      node .type lo t
    else if c.anyWord typeWords && !c.next.isPunct "." then
      advance
      node .type lo []
    else if role == some "let" || (c.anyWord keywords && !c.anyWord typeKeywords) then fail
    else
      skipParameterModifier
      dotted anyName
      let args ← optionalTypeArguments rec
      node .type lo args

def primaryType : Parse Node := do
  let lo ← here
  let c ← get
  match c.token with
  | .string _ | .number _ | .bigint =>
    advance
    node .type lo []
  | .punct "-" =>
    advance
    match (← get).token with
    | .number _ | .bigint => advance
    | _ => fail
    node .type lo []
  | .punct "\x60" =>
    let (_, types) ← template false (rec .type)
    node .type lo types
  | .punct "(" =>
    advance
    let t ← nested (rec .type)
    expect ")"
    node .type lo [t]
  | .punct "[" =>
    advance
    let elements ← nested (commaList "]" (tupleElement rec))
    node .type lo elements
  | .punct "\x7b" =>
    if isMappedType c then nested (mappedType rec lo)
    else
      let members ← typeMembers rec
      node .type lo members
  | .word _ role => wordType rec lo role
  | _ => fail

def arrayTypeFrom (lo : Nat) : Nat → Node → Parse Node
  | 0, _ => fail
  | fuel + 1, t => do
    if (← isPunct "[") && !(← get).newline then
      advance
      if ← accept "]" then arrayTypeFrom lo fuel (← node .type lo [t])
      else
        let index ← nested (rec .type)
        expect "]"
        arrayTypeFrom lo fuel (← node .type lo [t, index])
    else return t

/-- Array types and indexed access. -/
def suffixedType : Parse Node := do
  let lo ← here
  let t ← primaryType rec
  arrayTypeFrom rec lo (← get).fuel t

/-- The bound of an inferred type, unless it is the test of a conditional type. -/
def inferBound : Parse (List Node) := do
  let bound ← orElseBack do
    expectWord "extends"
    let t ← rec .plainType
    if (← isPunct "?") && !(← get).context.inBound then return none
    return some t
  return bound.toList

/-- Operators before a type. -/
def operatorTypeWith : Nat → Parse Node
  | 0 => fail
  | fuel + 1 => do
    let lo ← here
    let c ← get
    if c.anyWord ["keyof", "unique", "readonly"] then
      advance
      let t ← operatorTypeWith fuel
      node .type lo [t]
    else if c.isWord "infer" then
      advance
      let _ ← anyName
      let bound ← inferBound rec
      node .type lo bound
    else suffixedType rec

def operatorType : Parse Node := do operatorTypeWith rec (← get).fuel

/-- Operands joined by `symbol`, which may also come first. -/
def joinedType (symbol : String) (operand : Parse Node) : Parse Node := do
  let lo ← here
  let led ← accept symbol
  let first ← operand
  let more ← many (!·.isPunct symbol) do
    advance
    operand
  if more.isEmpty && !led then return first
  node .type lo (first :: more)

def unionType : Parse Node := joinedType "|" (joinedType "&" (operatorType rec))

def functionType (lo : Nat) : Parse Node := do
  let tps ← optionalTypeParameters rec
  let params ← signatureParameters rec
  expect "=>"
  let result ← nested (resultType rec)
  node .type lo (params ++ tps ++ [result])

/-- Skips what may be the start of a parameter. -/
def skipParameterStart : Parse Bool := do
  skipParameterModifier
  let c ← get
  if c.word?.isSome then
    advance
    return true
  else if c.isPunct "\x7b" || c.isPunct "[" then return (← attempt (rec .pattern)).isSome
  else return false

/-- The parenthesis opens the parameters of a function type. -/
def opensFunctionType : Parse Bool := ahead do
  expect "("
  if ← test (·.anyPunct [")", "..."]) then return true
  unless ← skipParameterStart rec do return false
  if ← test (·.anyPunct [":", ",", "?", "="]) then return true
  if ← accept ")" then isPunct "=>" else return false

def plainType : Parse Node := do
  let lo ← here
  let c ← get
  if c.isPunct "<" then functionType rec lo
  else if c.isPunct "(" then
    if ← opensFunctionType rec then functionType rec lo else unionType rec
  else if c.isWord "new" then
    advance
    functionType rec lo
  else if c.isWord "abstract" && c.next.isWord "new" then
    advance
    advance
    functionType rec lo
  else unionType rec

def type : Parse Node := within ({ · with inBound := false }) do
  let lo ← here
  let t ← plainType rec
  if (← isWord "extends") && !(← get).newline then
    advance
    let bound ← within ({ · with inBound := true }) (rec .plainType)
    expect "?"
    let yes ← rec .type
    expect ":"
    let no ← rec .type
    node .type lo [t, bound, yes, no]
  else return t

end Phrasebook.Script.Grammar
