import Phrasebook.Text.Quoted

/-!
JSON values and how they are written: two spaces for each level, one item on a line.
-/
namespace Phrasebook.Json

/-- A number, as far as it is told apart: whole numbers of 64 bits, and others by their text. -/
inductive Number where
  | whole (value : Int)
  | other (text : String)
deriving DecidableEq, Repr

def Number.text : Number → String
  | .whole value => toString value
  | .other text => text

inductive Value where
  | null
  | bool (value : Bool)
  | number (value : Number)
  | text (value : String)
  | list (items : List Value)
  /-- Members in the order in which they are written. -/
  | object (members : List (String × Value))
deriving Repr

namespace Value

def ofNat (n : Nat) : Value := .number (.whole n)

def texts (items : List String) : Value := .list (items.map .text)

end Value

def indent (level : Nat) : String := String.ofList (List.replicate (2 * level) ' ')

/-- Items on lines of their own between brackets; without items only the brackets. -/
def bracketed (opening closing : String) (level : Nat) (items : List String) : String :=
  if items.isEmpty then opening ++ closing
  else
    opening ++ "\n" ++ ",\n".intercalate (items.map (indent (level + 1) ++ ·)) ++ "\n"
      ++ indent level ++ closing

mutual

/-- The text of a value that stands at a level. -/
def Value.printAt (level : Nat) : Value → String
  | .null => "null"
  | .bool value => if value then "true" else "false"
  | .number value => value.text
  | .text value => Text.quote value
  | .list items => bracketed "[" "]" level (printItems (level + 1) items)
  | .object members => bracketed "\x7b" "\x7d" level (printMembers (level + 1) members)

def printItems (level : Nat) : List Value → List String
  | [] => []
  | item :: rest => item.printAt level :: printItems level rest

def printMembers (level : Nat) : List (String × Value) → List String
  | [] => []
  | (key, value) :: rest =>
    (Text.quote key ++ ": " ++ value.printAt level) :: printMembers level rest

end

def Value.print (v : Value) : String := v.printAt 0

end Phrasebook.Json
