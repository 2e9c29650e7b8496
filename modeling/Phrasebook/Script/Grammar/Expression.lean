import Phrasebook.Script.Grammar.Function
import Phrasebook.Script.Grammar.Markup

/-!
Expressions, from literals up to the comma.
-/
namespace Phrasebook.Script.Grammar

open Parse

variable (rec : Rec)

/-- Stands where an expression is missing. -/
def missing (pos : Nat) : Node := .mk .operation ⟨pos, pos⟩ []

/-! ### Object and array literals -/

/-- An argument or element, a spread operand being a node of its own. -/
def argument : Parse Node := do
  let lo ← here
  if ← accept "..." then
    let e ← rec .assignment
    node .spread lo [e]
  else rec .assignment

def arguments : Parse (List Node) := do
  expect "("
  nested (commaList ")" (argument rec))

def arrayLiteral : Parse Node := do
  let lo ← here
  expect "["
  let elements ← nested <| commaList "]" do
    if ← isPunct "," then return []
    return [← argument rec]
  node .array lo elements.flatten

def getter (lo : Nat) : Parse Node := do
  let key ← propertyKey rec
  let f ← within ({ · with allowSuper := true }) (functionParts rec false false)
  node .getter lo (key :: f.result ++ f.body)

/-- A setter. Of several parameters the first is the object itself. -/
def setter (lo : Nat) : Parse Node := do
  let key ← propertyKey rec
  let f ← within ({ · with allowSuper := true }) (functionParts rec false false)
  match f.params with
  | [] => node .setter lo (key :: f.body)
  | [p] => node .setter lo (key :: p :: f.body)
  | this :: p :: _ => node .setter lo (key :: .mk .thisParam this.span [this] :: p :: f.body)

/-- A property may go on with this token, given whether its name is a word. -/
def followsKey (isWord : Bool) (c : Cursor) : Bool :=
  match c.token with
  | .word .. | .string _ | .number _ => true
  | .punct text =>
    ["(", "[", ":", ",", "?", "=", "*", "<"].contains text || (isWord && text == "\x7d")
  | _ => false

/-- A property that is named by a word: a shorthand, or one with a modifier. -/
def wordProperty (lo : Nat) (word : String) (key : Node) : Parse Node := do
  let _ ← accept "?"
  if ← accept "=" then
    let value ← rec .assignment
    node .shorthandDefault lo [.mk (.binding word) key.span [], value]
  else if ← test (·.anyPunct [",", "\x7d"]) then node (.shorthand word) lo []
  else
    match word with
    | "get" => getter rec lo
    | "set" => setter rec lo
    | "async" =>
      let generator ← accept "*"
      let key ← propertyKey rec
      let f ← methodRest rec generator true []
      node .method lo [key, f]
    | _ => fail

def objectProperty : Parse Node := do
  let lo ← here
  if ← accept "..." then
    let e ← rec .assignment
    node .spread lo [e]
  else if ← accept "*" then
    let key ← propertyKey rec
    let f ← methodRest rec true false []
    node .method lo [key, f]
  else
    skipParameterModifier
    let word := (← get).word?
    let key ← propertyKey rec
    if !(← test (followsKey word.isSome)) then node .property lo [key, missing lo]
    else if ← accept ":" then
      let value ← rec .assignment
      node .property lo [key, value]
    else if ← test startsMethod then
      let f ← methodRest rec false false []
      node .method lo [key, f]
    else
      match word with
      | some word => wordProperty rec lo word key
      | none => fail

def objectLiteral : Parse Node := do
  let lo ← here
  expect "\x7b"
  let properties ← nested (commaList "\x7d" (objectProperty rec))
  node .object lo properties

/-! ### Literals, functions and classes -/

def regex : Parse Node := do
  let c ← get
  match skipRegex (c.start.skip 1).rest (c.start.pos + 1) false with
  | none => failToken
  | some closing =>
    let (_, after) := closing.takeWhile isNamePart
    set (c.readFrom after (readToken c.fuel))
    node .operation c.start.pos []

def templateLiteral : Parse Node := do
  let lo ← here
  let (pieces, values) ← template false (rec .expression)
  node (.template pieces) lo values

def functionExpression (lo : Nat) (async : Bool) : Parse Node := do
  let (name, f) ← functionAfterKeyword rec async true []
  unless f.children.any (·.kind == .block) do fail
  node (.functionExpr name) lo [f]

def classExpression (lo : Nat) (decs : List Node) : Parse Node := do
  let (name, body) ← classAfterKeyword rec true decs
  node (.classExpr name) lo [body]

def markupExpression : Parse Node := do
  let e ← rec .element
  advance
  return e

/-! ### Operators -/

/-- Operators that start with an angle bracket, longest first. -/
def angleOperators : List String :=
  [">>>=", "<<=", ">>=", ">>>", "<<", ">>", "<=", ">=", "<", ">"]

/-- The operator at the cursor, and the cursor after it. -/
def operatorAt (c : Cursor) : Option (String × Cursor) :=
  match c.token with
  | .punct text =>
    if text == "<" || text == ">" then do
      let op ← angleOperators.find? fun op => startsWith op.toList c.start.rest
      return (op, c.readFrom (c.start.skip op.length) (readToken c.fuel))
    else some (text, c.next)
  | .word _ (some role) => some (role, c.next)
  | _ => none

def precedence : String → Option Nat
  | "??" | "||" => some 1
  | "&&" => some 2
  | "|" => some 3
  | "^" => some 4
  | "&" => some 5
  | "==" | "!=" | "===" | "!==" => some 6
  | "<" | ">" | "<=" | ">=" | "instanceof" | "in" | "as" => some 7
  | "<<" | ">>" | ">>>" => some 8
  | "+" | "-" => some 9
  | "*" | "/" | "%" => some 10
  | "**" => some 11
  -- Binds to what stands directly before it.
  | "satisfies" => some 12
  | _ => none

def operatorKind (op : String) : Operator :=
  if op == "+" then .add
  else if ["==", "!=", "===", "!==", "in"].contains op then .compare
  else .other

/-- The operator at the cursor when it binds at least as strongly as `least`. -/
def binaryOperator (least : Nat) (c : Cursor) : Option (String × Nat × Cursor) := do
  let (op, after) ← operatorAt c
  let p ← precedence op
  guard (least ≤ p)
  guard (op != "in" || c.context.allowIn)
  guard ((op != "as" && op != "satisfies") || !c.newline)
  return (op, p, after)

/-- The token is an operator between two values that is not a word. -/
def isBinarySymbol (c : Cursor) : Bool :=
  match c.token with
  | .punct _ => ((operatorAt c).bind fun (op, _) => precedence op).isSome
  | _ => false

/-- Words that start an expression and name nothing. -/
def expressionWords : List String :=
  ["this", "super", "null", "true", "false", "function", "class", "new", "delete", "typeof", "void",
   "await", "yield"]

def startsExpression (c : Cursor) : Bool :=
  match c.token with
  | .string _ | .number _ | .bigint | .hidden _ => true
  | .word .. =>
    c.isName || c.anyWord expressionWords ||
      (c.isWord "import" && c.next.anyPunct ["(", "<", "."])
  | .punct text =>
    ["(", "[", "\x7b", "\x60", "+", "-", "~", "!", "++", "--", "<", "@"].contains text
  | _ => false

/-! ### Member accesses and calls -/

/-- An expression that has been read, and whether more may follow it directly. -/
inductive Link where
  | last (e : Node)
  /-- The expression may be a part of an optional chain. -/
  | more (e : Node) (inChain : Bool)

/-- The access wrapped as a link of an optional chain when it is one. -/
def chained (inChain : Bool) (n : Node) : Node :=
  if inChain then .mk .optional n.span [.mk .bare n.span [n]] else n

/-- The callees that are no values of their own. -/
def isBareCallee (e : Node) : Bool := e.kind == .superCallee || e.kind == .importCallee

/-- The link with type arguments after it, which end an optional chain. -/
def instantiated (lo : Nat) (e : Node) (inChain : Bool) (types : List Node) : Parse Link := do
  if types.isEmpty then return .more e inChain
  return .more (← node .assertion lo (e :: types)) false

/-- The members of the base class are there only in methods, and are no links of a chain. -/
def checkSuper (optional : Bool) : Parse Unit := do
  if optional || !(← get).context.allowSuper then fail

def computedLink (lo : Nat) (optional inChain : Bool) (e : Node) (types : List Node) :
    Parse Link := do
  let keyLo ← here
  expect "["
  let key ← nested (rec .expression)
  expect "]"
  match e.kind with
  | .importCallee => fail
  | .superCallee =>
    checkSuper optional
    let key ← node .computedKey keyLo [key]
    return .more (← node .superMember lo [key]) false
  | _ =>
    let m ← node (.member .computed) lo [e, key]
    instantiated lo (chained (optional || inChain) m) (optional || inChain) types

/-- An access by name, read after its dot. -/
def namedLink (lo : Nat) (optional inChain : Bool) (e : Node) (types : List Node) :
    Parse Link := do
  let access ← match (← get).token with
    | .word text _ => pure (Access.name text)
    | .hidden _ => pure .hidden
    | _ => fail
  advance
  match e.kind with
  | .importCallee => fail
  | .superCallee =>
    checkSuper (optional || access == .hidden)
    return .more (← node .superMember lo []) false
  | _ =>
    let m ← node (.member access) lo [e]
    instantiated lo (chained (optional || inChain) m) (optional || inChain) types

/-- A call; as a link of an optional chain it is no call of its own. -/
def callLink (lo : Nat) (inChain : Bool) (e : Node) (types : List Node) : Parse Link := do
  let args ← arguments rec
  if inChain then
    if isBareCallee e then fail
    let m ← node .optionalCall lo (e :: args ++ types)
    return .more (chained true m) true
  else return .more (← node .call lo (e :: args ++ types)) false

def taggedLink (lo : Nat) (tag : Node) (types : List Node) : Parse Link := do
  let (_, values) ← template true (rec .expression)
  return .more (← node .tagged lo (tag :: types ++ values)) false

/-- A call or template with type arguments, or type arguments that end the expression. -/
def typedLink (calls : Bool) (lo : Nat) (inChain : Bool) (e : Node) : Parse (Option Link) :=
  orElseBack do
    let types ← typeArguments rec
    let c ← get
    if calls && c.isPunct "(" then return some (← callLink rec lo inChain e [types])
    else if c.isPunct "\x60" then return some (← taggedLink rec lo e [types])
    else if c.isPunct "=" || c.anyWord ["as", "satisfies"] then
      return some (.last (← node .assertion lo [e, types]))
    else return none

/-- Type arguments may end an expression before this token. -/
def endsTypeArguments (c : Cursor) : Bool :=
  match operatorAt c with
  | some (op, _) =>
    if ["<", ">", "+", "-", "(", "\x60"].contains op then false
    else c.newline || isBinarySymbol c || !startsExpression c
  | none => c.newline || !startsExpression c

/-- Type arguments that belong to no call. -/
def plainTypeArguments : Parse (List Node) := do
  let found ← orElseBack do
    let types ← typeArguments rec
    if ← test endsTypeArguments then return some types
    return none
  return found.toList

/-- An access, call or template, after the type arguments that may come before it. -/
def plainLink (calls computed : Bool) (lo : Nat) (inChain : Bool) (e : Node) (types : List Node) :
    Parse Link := do
  let c ← get
  let optional := c.isOptionalLink
  let next := if optional then c.next.next else c
  if computed && next.isPunct "[" then
    set next
    computedLink rec lo optional inChain e types
  else if optional && (next.isPunct "(" || next.isLoneAngle) then
    set next
    let callTypes ← if ← isPunct "<" then pure [← typeArguments rec] else pure []
    callLink rec lo true e callTypes
  else if calls && c.isPunct "(" then callLink rec lo inChain e []
  else if optional then
    set next
    namedLink lo true inChain e types
  else if ← accept "." then namedLink lo false inChain e types
  else if isBareCallee e then fail
  else
    let whole ← if types.isEmpty then pure e else node .assertion lo (e :: types)
    if ← isPunct "\x60" then taggedLink rec lo whole [] else return .last whole

def link (calls computed : Bool) (lo : Nat) (inChain : Bool) (e : Node) : Parse Link := do
  let c ← get
  if c.isPunct "!" && !c.newline then
    if isBareCallee e then fail
    advance
    return .more (← node .assertion lo [e]) inChain
  else if c.isPunct "<" then
    if isBareCallee e then fail
    match ← typedLink rec calls lo inChain e with
    | some l => return l
    | none => plainLink rec calls computed lo inChain e (← plainTypeArguments rec)
  else plainLink rec calls computed lo inChain e []

/-- Everything that may follow a primary expression directly. -/
def linksFrom (calls computed : Bool) (lo : Nat) : Nat → Bool → Node → Parse Node
  | 0, _, _ => fail
  | fuel + 1, inChain, e => do
    match ← link rec calls computed lo inChain e with
    | .last e => return e
    | .more e inChain => linksFrom calls computed lo fuel inChain e

def links (calls : Bool) (lo : Nat) (e : Node) : Parse Node := do
  linksFrom rec calls true lo (← get).fuel false e

/-- A decorator: an expression in parentheses, or a name with accesses and calls after it. -/
def decorator : Parse Node := do
  let lo ← here
  expect "@"
  let valueLo ← here
  let e ← if ← accept "(" then do
    let e ← rec .expression
    expect ")"
    pure e
  else do
    if ← isWord "yield" then fail
    let name ← bindingName
    linksFrom rec true false valueLo (← get).fuel false (← node (.ident name) valueLo [])
  let types ← if ← isPunct "<" then pure [← typeArguments rec] else pure []
  if types.isEmpty && !(← isPunct "(") then node .decorator lo [e]
  else
    let args ← arguments rec
    let call ← node .call e.span.lo (e :: args ++ types)
    node .decorator lo [call]

/-! ### Binary operators -/

/-- Written `x as T` or `x satisfies T`. -/
def typedOperand (lo : Nat) (op : String) (e : Node) : Parse Node := do
  if op == "as" && (← isWord "const") then
    advance
    node .constAssertion lo [e]
  else
    let t ← rec .type
    node .assertion lo [e, t]

/-- Operators of at least the given strength and their right operands. The base of a power takes no
operator before it. -/
def binaryFrom (lo : Nat) : Nat → Nat → Node → Parse Node
  | 0, _, _ => fail
  | fuel + 1, least, left => do
    match binaryOperator least (← get) with
    | none => return left
    | some (op, p, after) =>
      set after
      if op == "as" || op == "satisfies" then
        let e ← typedOperand rec lo op left
        binaryFrom lo fuel least e
      else if op == "**" && left.kind == .unary then fail
      else
        let rightLo ← here
        let first ← rec .unary
        let right ← binaryFrom rightLo fuel (if op == "**" then p else p + 1) first
        let e ← node (.binary (operatorKind op)) lo [left, right]
        binaryFrom lo fuel least e

/-- The operand before an operator, or where it fails right at an operator, a gap. -/
def leftOperand : Parse Node := fun c =>
  match rec .unary c with
  | .ok e next => .ok e next
  | .error fault reached =>
    if isBinarySymbol reached || reached.isWord "instanceof" ||
        (reached.isWord "in" && c.context.allowIn) then
      .ok (missing reached.start.pos) reached
    else .error fault reached

def operation : Parse Node := do
  let lo ← here
  let first ← leftOperand rec
  if first.kind == .arrow then return first
  binaryFrom rec lo (← get).fuel 0 first

/-! ### Assignments -/

def assignmentOperators : List String :=
  ["=", "+=", "-=", "*=", "/=", "%=", "**=", "<<=", ">>=", ">>>=", "&=", "|=", "^=", "&&=", "||=",
   "??="]

/-- The expression, or an assignment to it when one follows. -/
def assigned (lo : Nat) (left : Node) : Parse Node := do
  match operatorAt (← get) with
  | some (op, after) =>
    if assignmentOperators.contains op then
      match assignmentTarget (op == "=") left with
      | none => fail
      | some target =>
        set after
        let value ← rec .assignment
        node .assignment lo [target, value]
    else return left
  | none => return left

/-! ### Arrow functions and parentheses -/

/-- What stands in parentheses before it is known whether an arrow follows. -/
inductive CoverItem where
  | value (e : Node)
  /-- Only a parameter may look like this. -/
  | pattern (p : Node)

def CoverItem.isPattern : CoverItem → Bool
  | .value _ => false
  | .pattern _ => true

/-- The two branches of a conditional, read after `?`. -/
def branches (lo : Nat) (test : Node) : Parse Node := do
  let yes ← within ({ · with allowIn := true, inConditional := true, beforeColon := true })
    (rec .assignment)
  expect ":"
  let no ← within ({ · with inConditional := true, beforeColon := false }) (rec .assignment)
  node .conditional lo [test, yes, no]

/-- An item as an expression. A name is read up to a question mark, which may belong to a
parameter. -/
def coverValue (lo : Nat) : Parse Node := do
  let c ← get
  if c.isPunct "..." && c.next.isName then
    let spreadLo ← here
    advance
    let e ← rec .operation
    node .spread spreadLo [e]
  else if c.isName then
    let e ← rec .operation
    assigned rec lo e
  else argument rec

/-- The expression as a parameter, with its type and default value. -/
def coverPattern (lo : Nat) (e : Node) : Parse Node := do
  match toPattern true e with
  | none => fail
  | some p =>
    let typed ← match p.kind with
      | .binding _ | .arrayPattern | .restPattern => do
        pure (extend p (← optionalAscription rec))
      | .objectPattern =>
        -- An expression that is no pattern has no type either.
        if e.kind == .object then do pure (extend p (← optionalAscription rec)) else pure p
      | _ => pure p
    withDefault rec lo typed

def coverItem : Parse CoverItem := do
  let lo ← here
  modify ({ · with arrowStart := some lo })
  skipParameterModifier
  let patternLo ← here
  let e ← coverValue rec lo
  let isSpread := e.kind == .spread
  let c ← get
  if c.isPunct "?" && c.next.anyPunct [",", ":", ")", "="] then
    advance
    let named := if isSpread then e.children.all (fun n => n.kind matches .ident _)
      else e.kind matches .ident _
    unless named do fail
    return .pattern (← coverPattern rec patternLo e)
  else
    let e ← if c.isPunct "?" && !isSpread then do
      advance
      branches rec lo e
    else pure e
    if ← isPunct ":" then return .pattern (← coverPattern rec patternLo e)
    return .value e

def coverItems : Parse (List CoverItem) := do
  expect "("
  within ({ · with allowIn := true, beforeColon := false, inBound := false })
    (commaList ")" (coverItem rec))

def itemPatterns : List CoverItem → Option (List Node)
  | [] => some []
  | .value e :: rest => do return (← toPattern true e) :: (← itemPatterns rest)
  | .pattern p :: rest => do return p :: (← itemPatterns rest)

/-- The items as parameters. -/
def itemParameters (items : List CoverItem) : Parse (List Node) :=
  match itemPatterns items with
  | none => fail
  | some patterns => return (dropEarlyRests patterns).map fun p => .mk .param p.span [p]

/-- The body of an arrow function. -/
def arrowBody (lo : Nat) (async : Bool) (params types result : List Node) : Parse Node := do
  let body ← inFunction false async (if ← isPunct "\x7b" then block rec else rec .assignment)
  node .arrow lo (params ++ body :: types ++ result)

/-- Between `?` and `:` a result type is one only if the colon of the conditional still follows. -/
def arrowInConditional (lo : Nat) (async : Bool) (items : List CoverItem) : Parse Node := do
  let strict := (← get).context.beforeColon
  let result ← resultAscription rec
  expect "=>"
  let params ← itemParameters items
  let f ← arrowBody rec lo async params [] [result]
  if strict && !(← isPunct ":") then fail
  return f

/-- An arrow function whose parameters in parentheses have been read. An operator after its block
takes it as an operand. -/
def arrowAfterItems (lo : Nat) (arrows async : Bool) (items : List CoverItem) (result : List Node) :
    Parse Node := do
  if !arrows || (← get).newline then fail
  expect "=>"
  let params ← itemParameters items
  let f ← arrowBody rec lo async params [] result
  if f.children.any (·.kind == .block) && (← test isBinarySymbol) then
    binaryFrom rec lo (← get).fuel 0 f
  else return f

def itemValues : List CoverItem → Option (List Node)
  | [] => some []
  | .value e :: rest => (itemValues rest).map (e :: ·)
  | .pattern _ :: _ => none

/-- The items as an expression in parentheses. -/
def parenthesizedItems (lo : Nat) (items : List Node) : Parse Node := do
  if items.any (·.kind == .spread) then fail
  match items, items.getLast? with
  | [e], _ => node .paren lo [e]
  | first :: _, some last =>
    node .paren lo [.mk .operation ⟨first.span.lo, last.span.hi⟩ items]
  | _, _ => fail

/-- Parentheses with an expression or with the parameters of an arrow function. After `async` they
may also hold arguments. -/
def parenthesized (lo : Nat) (arrows : Bool) (async : Option Node) : Parse Node := do
  let items ← coverItems rec
  let c ← get
  let inConditional ← if c.context.inConditional && c.isPunct ":" then
    attempt (arrowInConditional rec lo async.isSome items) else pure none
  match inConditional with
  | some f => return f
  | none =>
    let result ← if c.isPunct ":" && !c.context.beforeColon then orElseBack do
        let result ← resultAscription rec
        if ← isPunct "=>" then return some result
        return none
      else pure none
    if items.any CoverItem.isPattern || result.isSome || (← isPunct "=>") then
      arrowAfterItems rec lo arrows async.isSome items result.toList
    else
      match itemValues items, async with
      | none, _ => fail
      | some values, some callee => node .call lo (callee :: values)
      | some values, none => parenthesizedItems lo values

/-- An arrow function of one parameter without parentheses, read after the parameter. -/
def shortArrow (lo paramLo : Nat) (async : Bool) (param : String) : Parse Node := do
  let b ← wordBefore (.binding param) param
  expect "=>"
  let b : Node := .mk b.kind ⟨paramLo, b.span.hi⟩ []
  arrowBody rec lo async [.mk .param b.span [b]] [] []

/-- A name, or an arrow function that starts with it. -/
def nameOrArrow (lo : Nat) (arrows : Bool) : Parse Node := do
  let text ← anyName
  let id ← node (.ident text) lo []
  let c ← get
  if arrows && text == "async" && c.isName && !c.newline then
    if c.context.inLoopHead && c.isWord "of" && !c.next.isPunct "=>" then return id
    let paramLo ← here
    let param ← bindingName
    if param == "as" && !(← isPunct "=>") then
      let t ← rec .type
      node .assertion lo [id, t]
    else shortArrow rec lo paramLo true param
  else if arrows && c.isPunct "=>" && !c.newline then shortArrow rec lo lo false text
  else return id

/-- With markup allowed, a lone type parameter is taken for a tag. -/
def arrowTypeParameters : Parse Node := do
  let (types, tag) ← typeParametersOrTag rec
  if tag && (← get).context.markup then fail
  return types

/-- An asynchronous arrow function with type parameters, read from `async` on. -/
def genericAsyncArrow (lo : Nat) : Parse Node := do
  expectWord "async"
  let types ← arrowTypeParameters rec
  let params ← parameters rec
  let result ← optionalResultAscription rec
  expect "=>"
  arrowBody rec lo true params [types] result

/-- An expression that starts with `async`. -/
def asyncExpression (lo : Nat) (arrows : Bool) : Parse Node := do
  let c ← get
  let next := c.next
  if next.isWord "function" && !next.newline then
    advance
    functionExpression rec lo true
  else if arrows && next.isPunct "<" then
    match ← attempt (genericAsyncArrow rec lo) with
    | some f => return f
    | none => nameOrArrow rec lo arrows
  else if arrows && next.isPunct "(" && !next.newline then
    advance
    let callee ← wordBefore (.ident "async") "async"
    parenthesized rec lo arrows (some (.mk callee.kind ⟨lo, callee.span.hi⟩ []))
  else nameOrArrow rec lo arrows

/-! ### Primary expressions -/

/-- The expression that starts with the current word. -/
def wordExpression (lo : Nat) (arrows : Bool) (role : Option String) : Parse Node := do
  match role with
  | some "this" =>
    advance
    node .this lo []
  | some "null" | some "true" | some "false" =>
    advance
    node .operation lo []
  | some "function" => functionExpression rec lo false
  | some "class" => classExpression rec lo []
  | some "async" => asyncExpression rec lo arrows
  | some "let" => nameOrArrow rec lo false
  | some role => if reservedWords.contains role then fail else nameOrArrow rec lo arrows
  | none => nameOrArrow rec lo arrows

def primary : Parse Node := do
  let lo ← here
  let c ← get
  let arrows := c.arrowStart == some lo
  match c.token with
  | .word _ role => wordExpression rec lo arrows role
  | .string value =>
    advance
    node (.string value) lo []
  | .number value =>
    advance
    node (.number value) lo []
  | .bigint | .hidden _ =>
    advance
    node .operation lo []
  | .punct text =>
    match text with
    | "\x60" => templateLiteral rec
    | "[" => arrayLiteral rec
    | "\x7b" => objectLiteral rec
    | "(" => parenthesized rec lo arrows none
    | "/" | "/=" => regex
    | "@" =>
      let decs ← decorators rec
      classExpression rec lo decs
    | _ => fail
  | _ => fail

/-- A loading call or the properties of the module itself. -/
def importExpression (lo : Nat) (calls : Bool) : Parse Node := do
  expectWord "import"
  let callee ← node .importCallee lo []
  if ← accept "." then
    match ← anyName with
    | "meta" => links rec calls lo (← node .operation lo [])
    | "defer" | "source" => links rec calls lo (← node .importCallee lo [])
    | _ => fail
  else links rec calls lo callee

/-- A chain with optional links is constructed from only in parentheses. -/
def isOptionalCallee (e : Node) : Bool :=
  e.kind == .optional ||
    match e with
    | .mk (.member _) _ (object :: _) => object.kind == .optional
    | _ => false

def construct (lo : Nat) (calls : Bool) : Parse Node := do
  expectWord "new"
  if ← accept "." then
    expectWord "target"
    links rec calls lo (← node .operation lo [])
  else
    let callee ← rec .member
    if isOptionalCallee callee then fail
    let types ← if ← isPunct "<" then orElseBack do
        let types ← typeArguments rec
        if ← isPunct "(" then return some types
        return none
      else pure none
    if ← isPunct "(" then
      let args ← arguments rec
      links rec calls lo (← node .construct lo (callee :: args ++ types.toList))
    else node .construct lo (callee :: types.toList)

/-- An expression with member accesses, and with calls where they are allowed. -/
def chainExpression (calls : Bool) : Parse Node := do
  let lo ← here
  let c ← get
  if c.isWord "new" then construct rec lo calls
  else if c.isWord "super" then
    advance
    links rec calls lo (← node .superCallee lo [])
  else if c.isWord "import" then importExpression rec lo calls
  else
    let first ← primary rec
    if first.kind == .arrow then return first
    let types ← if ← isPunct "<" then plainTypeArguments rec else pure []
    if types.isEmpty then links rec calls lo first
    else links rec calls lo (← node .assertion lo (first :: types))

def leftHandSide : Parse Node := chainExpression rec true

def member : Parse Node := chainExpression rec false

/-! ### Unary operators -/

def unaryOperators : List String := ["!", "~", "+", "-"]

def unaryWords : List String := ["typeof", "void", "delete"]

/-- Written `<T>x`, where no markup is allowed. -/
def typeAssertion (lo : Nat) : Parse Node := do
  expect "<"
  if ← acceptWord "const" then
    expect ">"
    let e ← rec .unary
    node .constAssertion lo [e]
  else
    let t ← nested (rec .type)
    expect ">"
    let e ← rec .unary
    node .assertion lo [e, t]

/-- What is awaited. Outside asynchronous code the word may be a name before a closing bracket. -/
def awaitExpression (lo : Nat) : Parse Node := do
  expectWord "await"
  let c ← get
  if c.isPunct "*" then fail
  else if c.anyPunct [")", "]"] && !c.context.inAsync then node (.ident "await") lo []
  else
    let e ← rec .unary
    node .unary lo [e]

/-- An expression without operators before it. -/
def postfixed (lo : Nat) : Parse Node := do
  let e ← leftHandSide rec
  let c ← get
  if e.kind != .arrow && c.anyPunct ["++", "--"] && !c.newline then
    advance
    node .operation lo [e]
  else return e

def unary : Parse Node := do
  let lo ← here
  let c ← get
  if c.anyPunct unaryOperators || c.anyWord unaryWords then
    advance
    let operandLo ← here
    let e ← recover (missing operandLo) (rec .unary)
    node .unary lo [e]
  else if c.anyPunct ["++", "--"] then
    advance
    let e ← rec .unary
    node .operation lo [e]
  else if c.isWord "await" then awaitExpression rec lo
  else if c.isPunct "<" then
    if !c.context.markup then typeAssertion rec lo
    else if c.next.word?.isSome || c.next.isPunct ">" then markupExpression rec
    else fail
  else postfixed rec lo

/-! ### Whole expressions -/

def conditional : Parse Node := do
  let lo ← here
  let test ← operation rec
  if test.kind != .arrow && (← accept "?") then branches rec lo test else return test

/-- A `yield` stands alone before these tokens. -/
def endsYield (c : Cursor) : Bool :=
  c.endsStatement || !(startsExpression c || c.anyPunct ["*", "/", "/="])

def yieldExpression (lo : Nat) : Parse Node := do
  if (← get).context.inParameters then fail
  advance
  if ← test endsYield then node .operation lo []
  else
    let _ ← accept "*"
    let e ← rec .assignment
    node .operation lo [e]

/-- An arrow function may start at this token. -/
def startsArrow (c : Cursor) : Bool :=
  c.isPunct "(" || c.isWord "yield" ||
    match c.token with
    | .word _ (some role) => role != "let" && role != "await" && role != "this" &&
      !keywords.contains role
    | .word _ none => true
    | _ => false

/-- Operators that give their result no place to assign to. -/
def isComputed (e : Node) : Bool :=
  match e.kind with
  | .conditional | .binary _ | .unary => true
  | _ => false

def plainAssignment : Parse Node := do
  let lo ← here
  let c ← get
  if c.context.inGenerator && c.isWord "yield" then yieldExpression rec lo
  else
    set { c with arrowStart := if startsArrow c then some lo else none }
    let e ← conditional rec
    if e.kind == .arrow || isComputed e then return e
    assigned rec lo e

/-- The arrow function with its type parameters, which are visited after its body. -/
def withTypeParameters (lo : Nat) (types : Node) : Node → Option Node
  | .mk .arrow span children =>
    let results := children.filter (·.kind == .ascription)
    let others := children.filter (·.kind != .ascription)
    some (.mk .arrow ⟨lo, span.hi⟩ (others ++ types :: results))
  | _ => none

/-- An arrow function with type parameters. -/
def genericArrow : Parse Node := within ({ · with beforeColon := false }) do
  let lo ← here
  let types ← arrowTypeParameters rec
  let f ← plainAssignment rec
  match withTypeParameters lo types f with
  | some f => return f
  | none => fail

def assignment : Parse Node := do
  let c ← get
  if !c.isPunct "<" then plainAssignment rec
  else if c.context.markup then either (plainAssignment rec) (genericArrow rec)
  else
    match ← attempt (genericArrow rec) with
    | some f => return f
    | none => plainAssignment rec

/-- Expressions joined by commas. -/
def expression : Parse Node := do
  let lo ← here
  let first ← rec .assignment
  if ← isPunct "," then
    let more ← many (!·.isPunct ",") do
      advance
      rec .assignment
    node .operation lo (first :: more)
  else return first

end Phrasebook.Script.Grammar
