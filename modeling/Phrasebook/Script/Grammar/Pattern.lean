import Phrasebook.Script.Grammar.Type

/-!
Binding patterns, and expressions taken as patterns once an assignment or an arrow turns out to
follow them.
-/
namespace Phrasebook.Script.Grammar

open Parse

variable (rec : Rec)

/-- A key in brackets. -/
def computedKey : Parse Node := do
  let lo ← here
  expect "["
  let innerLo ← here
  let e ← nested (rec .assignment)
  let more ← many (!·.isPunct ",") do
    advance
    nested (rec .assignment)
  let inner ← if more.isEmpty then pure e else node .operation innerLo (e :: more)
  expect "]"
  node .computedKey lo [inner]

/-- The name of a property, computed or not. -/
def propertyKey : Parse Node := do
  let lo ← here
  match (← get).token with
  | .word .. | .string _ | .number _ | .bigint =>
    advance
    node .key lo []
  | .punct "[" => computedKey rec
  | _ => fail

def arrayPatternElement : Parse (List Node) := do
  let lo ← here
  if ← isPunct "," then return []
  if ← accept "..." then
    let p ← rec .pattern
    return [← node .restPattern lo [p]]
  let p ← rec .pattern
  return [← withDefault rec lo p]

def objectPatternProperty : Parse Node := do
  let lo ← here
  if ← accept "..." then
    let p ← rec .pattern
    node .restPattern lo [p]
  else
    let word := (← get).word?
    let key ← propertyKey rec
    if ← accept ":" then
      let valueLo ← here
      let p ← rec .pattern
      let value ← withDefault rec valueLo p
      node .keyedPattern lo [key, value]
    else
      match word with
      | some text =>
        let b ← node (.binding text) lo []
        withDefault rec lo b
      | none => fail

/-- What is left of an object goes to a name. -/
def endsInName (properties : List Node) : Bool :=
  match properties.getLast? with
  | some (.mk .restPattern _ [.mk kind _ _]) =>
    match kind with
    | .binding _ => true
    | _ => false
  | _ => true

/-- The mark of an optional parameter, which only a declaration has after a pattern. -/
def skipAmbientMark : Parse Unit := do
  if (← get).context.ambient then
    let _ ← accept "?"

def pattern : Parse Node := do
  let lo ← here
  match (← get).token with
  | .punct "[" =>
    advance
    let elements ← commaList "]" (arrayPatternElement rec)
    skipAmbientMark
    node .arrayPattern lo elements.flatten
  | .punct "\x7b" =>
    advance
    let properties ← commaList "\x7d" (objectPatternProperty rec)
    unless endsInName properties do fail
    skipAmbientMark
    node .objectPattern lo properties
  | _ =>
    let n ← bindingName
    node (.binding n) lo []

/-! ### Expressions as patterns -/

/-- Expressions that stay as they are as parts of what is assigned to. -/
def isTarget : Kind → Bool
  | .member _ | .superMember | .call | .construct | .string _ | .number _ | .functionExpr _
  | .classExpr _ | .paren | .template _ | .assertion | .operation => true
  | _ => false

/-- Stands for an expression that is no pattern; it binds nothing. -/
def noPattern (span : Span) : Node := .mk .objectPattern span []

/-- Only the last element may take all that is left. -/
def dropEarlyRests : List Node → List Node
  | [] => []
  | [p] => [p]
  | p :: ps => if p.kind == .restPattern then dropEarlyRests ps else p :: dropEarlyRests ps

mutual

/-- The pattern an expression stands for, which binds names or else is assigned to. -/
def toPattern (binds : Bool) : Node → Option Node
  | .mk kind span children =>
    match kind, children with
    | .ident n, _ => some (.mk (.binding n) span [])
    | .array, cs => do some (.mk .arrayPattern span (dropEarlyRests (← toPatterns binds cs)))
    | .object, cs => do some (.mk .objectPattern span (← toProperties binds cs))
    | .assignment, [.mk .bare _ [inner], value] => some (.mk .defaulted span [inner, value])
    | .assignment, [left, value] => some (.mk .defaulted span [left, value])
    | .spread, [e] => do some (.mk .restPattern span [← toPattern binds e])
    | kind, cs =>
      if !binds && isTarget kind then some (.mk kind span cs) else some (noPattern span)

def toPatterns (binds : Bool) : List Node → Option (List Node)
  | [] => some []
  | n :: ns => do some ((← toPattern binds n) :: (← toPatterns binds ns))

/-- A property of an object as one of a pattern; methods are none. -/
def toProperty (binds : Bool) : Node → Option Node
  | .mk kind span children =>
    match kind, children with
    | .shorthand n, _ => some (.mk (.binding n) span [])
    | .shorthandDefault, cs => some (.mk .defaulted span cs)
    | .property, [key, value] => do some (.mk .keyedPattern span [key, ← toPattern binds value])
    | .spread, [e] => do
      let p ← toPattern binds e
      match p.kind with
      | .binding _ => some (.mk .restPattern span [p])
      | _ => some (.mk .restPattern span [if binds then noPattern span else p])
    | _, _ => none

def toProperties (binds : Bool) : List Node → Option (List Node)
  | [] => some []
  | n :: ns => do some ((← toProperty binds n) :: (← toProperties binds ns))

end

/-- The left side of an assignment. Only `=` may destructure. -/
def assignmentTarget (destructure : Bool) (n : Node) : Option Node :=
  match n.kind with
  | .ident name => some (.mk (.binding name) n.span [])
  | .array | .object => if destructure then toPattern false n else none
  | .member _ | .superMember | .paren | .assertion | .optional => some (.mk .bare n.span [n])
  | _ => none

/-- What a loop assigns to. -/
def loopTarget (n : Node) : Option Node :=
  match n.kind with
  | .ident _ | .array | .object => toPattern false n
  | _ => some n

end Phrasebook.Script.Grammar
