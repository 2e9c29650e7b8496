import Phrasebook.Decimal.Shortest
import Phrasebook.Sample
import Phrasebook.Script.Node
import Phrasebook.Text.Target

/-!
Messages: static text with slots for expressions. Template literals, chains of `+` and runs of
markup all become messages.
-/
namespace Phrasebook

open Script

/-! ### Expressions by their shape -/

/-- The dotted name of a callee, if it has one. -/
def calleeName : Node → Option String
  | .mk (.ident name) _ _ => some name
  | .mk .this _ _ => some "this"
  | .mk .paren _ [e] => calleeName e
  | .mk (.member (.name name)) _ [object] => (calleeName object).map (· ++ "." ++ name)
  | _ => none

/-- Calls of `import` and of `require` name modules, not messages. -/
def isModuleLoad (callee : Node) : Bool :=
  match callee.kind with
  | .importCallee => true
  | .ident name => name == "require"
  | _ => false

/-- The static text of a template without slots; a piece without a text has none. -/
def cookedText (pieces : List Piece) : String := String.join (pieces.filterMap Piece.cooked)

/-- The target text of a bare string or slotless template, in parentheses or not. -/
def literalTarget : Node → Option (String × TextForm)
  | .mk (.string (some value)) _ _ =>
    if Text.hasTarget value then some (value, .stringLiteral) else none
  | .mk (.template pieces) _ [] =>
    let text := cookedText pieces
    if Text.hasTarget text then some (text, .templateLiteral) else none
  | .mk .paren _ [e] => literalTarget e
  | _ => none

/-! ### Parts -/

inductive Part where
  | text (text : String)
  | slot (expr : Node)

namespace Message

/-- Adds static text, joining it to the text before it. -/
def pushText (parts : List Part) (text : String) : List Part :=
  match parts.getLast? with
  | some (.text last) => parts.dropLast ++ [.text (last ++ text)]
  | _ => if text == "" then parts else parts ++ [.text text]

/-- Pieces of a template with its expressions between them; empty pieces are left out. -/
def weave : List Piece → List Node → List Part
  | [], _ => []
  | p :: ps, es =>
    let text := if p.text == "" then [] else [Part.text p.text]
    match es with
    | e :: es => text ++ .slot e :: weave ps es
    | [] => text ++ weave ps []

/-- Operands of a chain of `+`, left to right. -/
def operands : Node → List Node
  | .mk (.binary .add) _ [left, right] => operands left ++ operands right
  | n => [n]

/-- A string or template, which makes `+` join texts. -/
def isStringOperand (n : Node) : Bool :=
  match n.kind with
  | .string _ | .template _ => true
  | _ => false

def pushPart (parts : List Part) : Part → List Part
  | .text text => pushText parts text
  | .slot e => parts ++ [.slot e]

/-- Adds an operand of a chain. A string without a text cannot be part of a message. -/
def pushOperand (parts : List Part) (operand : Node) : Option (List Part) :=
  match operand with
  | .mk (.string value) _ _ => value.map (pushText parts)
  | .mk (.number value) _ _ => some (pushText parts value.text)
  | .mk (.template pieces) _ es => some ((weave pieces es).foldl pushPart parts)
  | other => some (parts ++ [.slot other])

/-- The message of a template literal. -/
def ofTemplate (pieces : List Piece) (es : List Node) : List Part := weave pieces es

/-- The message of a chain of `+`. There is none without a string operand, nor when two operands
come before the first string, since the chain then starts with an addition of numbers. -/
def ofConcat (chain : Node) : Option (List Part) := do
  let es := operands chain
  let first ← es.findIdx? isStringOperand
  guard (first < 2)
  es.foldlM pushOperand []

def hasTarget (parts : List Part) : Bool :=
  parts.any fun
    | .text text => Text.hasTarget text
    | .slot _ => false

def slotCount (parts : List Part) : Nat :=
  (parts.filter fun
    | .slot _ => true
    | .text _ => false).length

end Message

end Phrasebook
