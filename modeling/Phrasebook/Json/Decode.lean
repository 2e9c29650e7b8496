import Phrasebook.Json.Reader
import Phrasebook.Text.Visible

/-!
Reading values of known types straight from a text, and taking them from values already read.
-/
namespace Phrasebook.Json

/-! ### What a value is called -/

def Number.describe : Number → String
  | .whole n => "integer \x60" ++ toString n ++ "\x60"
  | .other text => "floating point \x60" ++ text ++ "\x60"

def describeBool (b : Bool) : String :=
  if b then "boolean \x60true\x60" else "boolean \x60false\x60"

def Value.describe : Value → String
  | .null => "null"
  | .bool b => describeBool b
  | .number n => n.describe
  | .text s => "string " ++ Text.showQuoted s
  | .list _ => "sequence"
  | .object _ => "map"

/-! ### Values that are skipped -/

/-- The rest of a text that is not kept. -/
def skipTextFrom : Nat → Read Unit
  | 0 => failHere .endInText
  | fuel + 1 => do
    match ← peek with
    | none => failHere .endInText
    | some '\x22' => advance
    | some '\\' =>
      advance
      match ← peek with
      | none => failHere .endInText
      | some c =>
        if (simpleEscape? c).isSome then advance
        else if c == 'u' then
          advance
          let _ ← hexUnit
        else failNext .badEscape
      skipTextFrom fuel
    | some c =>
      if c.toNat < 0x20 then failHere .control
      else
        advance
        skipTextFrom fuel

def skipText : Read Unit := do skipTextFrom (← steps)

def skipExponent : Read Unit := do
  advance
  let sign ← peek
  if sign == some '+' || sign == some '-' then advance
  if (← peekDigit).isNone then
    if (← peek).isSome then failNext .badNumber else failHere .badNumber
  let _ ← skipDigits

/-- A number after its sign. -/
def skipNumber : Read Unit := do
  match ← peek with
  | none => failHere .badNumber
  | some c =>
    if !c.isDigit then failNext .badNumber
    else if c == '0' then
      advance
      if (← peekDigit).isSome then failNext .badNumber
  let _ ← skipDigits
  if (← peek) == some '.' then
    advance
    if (← skipDigits) == 0 then failNext .badNumber
  if isExponentMark (← peek) then skipExponent

mutual

def skipFromValue : Nat → Read Unit
  | 0 => failHere .endInValue
  | fuel + 1 => do
    match ← peekPast with
    | none => failNext .endInValue
    | some 'n' =>
      advance
      word ['u', 'l', 'l']
    | some 't' =>
      advance
      word ['r', 'u', 'e']
    | some 'f' =>
      advance
      word ['a', 'l', 's', 'e']
    | some '-' =>
      advance
      skipNumber
    | some '\x22' =>
      advance
      skipText
    | some '[' =>
      advance
      match ← peekPast with
      | none => failNext .endInList
      | some ']' => advance
      | some _ => skipItems fuel
    | some '\x7b' =>
      advance
      if (← peekPast) == some '\x7d' then advance else skipMembers fuel
    | some c => if c.isDigit then skipNumber else failNext .noValue

/-- Items up to the closing bracket, one of which must come. -/
def skipItems : Nat → Read Unit
  | 0 => failHere .endInList
  | fuel + 1 => do
    skipFromValue fuel
    match ← peekPast with
    | none => failNext .endInList
    | some ']' => advance
    | some ',' =>
      advance
      skipItems fuel
    | some _ => failNext .noListEnd

/-- Members up to the closing brace. -/
def skipMembers : Nat → Read Unit
  | 0 => failHere .endInObject
  | fuel + 1 => do
    match ← peekPast with
    | some '\x22' => advance
    | some _ => failNext .keyNoText
    | none => failNext .endInObject
    skipText
    colon
    skipFromValue fuel
    match ← peekPast with
    | none => failNext .endInObject
    | some '\x7d' => advance
    | some ',' =>
      advance
      skipMembers fuel
    | some _ => failNext .noObjectEnd

end

/-- Reads past a value that nobody asked for. -/
def skipValue : Read Unit := do skipFromValue (2 * (← steps))

/-! ### Values of a type -/

/-- Fails because the next value has another type. What is no value at all is told as such. -/
def wrongType {α : Type} (expected : String) : Read α := do
  match ← peek with
  | some 'n' =>
    advance
    word ['u', 'l', 'l']
    failHere (.wrongType "null" expected)
  | some 't' =>
    advance
    word ['r', 'u', 'e']
    failHere (.wrongType (describeBool true) expected)
  | some 'f' =>
    advance
    word ['a', 'l', 's', 'e']
    failHere (.wrongType (describeBool false) expected)
  | some '-' =>
    advance
    failHere (.wrongType (← number true).describe expected)
  | some '\x22' =>
    advance
    let s ← textBody
    failHere (.wrongType (Value.text s).describe expected)
  | some '[' => failHere (.wrongType "sequence" expected)
  | some '\x7b' => failHere (.wrongType "map" expected)
  | some c =>
    if c.isDigit then failHere (.wrongType (← number false).describe expected)
    else failNext .noValue
  | none => failNext .noValue

def readText : Read String := do
  match ← peekPast with
  | none => failNext .endInValue
  | some '\x22' =>
    advance
    textBody
  | some _ => wrongType "a string"

def readBool : Read Bool := do
  match ← peekPast with
  | none => failNext .endInValue
  | some 't' =>
    advance
    word ['r', 'u', 'e']
    return true
  | some 'f' =>
    advance
    word ['a', 'l', 's', 'e']
    return false
  | some _ => wrongType "a boolean"

/-- A text, or nothing for `null`. -/
def readOptionalText : Read (Option String) := do
  match ← peekPast with
  | some 'n' =>
    advance
    word ['u', 'l', 'l']
    return none
  | _ => return some (← readText)

def textsFrom : Nat → Bool → Read (List String)
  | 0, _ => failHere .endInList
  | fuel + 1, isFirst => do
    if ← moreItems isFirst then
      let item ← readText
      let rest ← textsFrom fuel false
      return item :: rest
    else return []

def readTexts : Read (List String) := do
  match ← peekPast with
  | none => failNext .endInValue
  | some '[' =>
    advance
    let items ← textsFrom (← steps) true
    advance
    return items
  | some _ => wrongType "a sequence"

/-- A field of a record that is being filled. -/
structure RecordField (δ : Type) where
  name : String
  isSet : δ → Bool
  read : δ → Read δ

/-- Fails because a field comes twice. The place is past white space, and past a brace. -/
def failRepeated {α : Type} (name : String) : Read α := do
  if (← peekPast) == some '\x7d' then advance
  failHere (.repeatedField name)

/-- Members of an object, each to its field; others are skipped. -/
def fieldsFrom {δ : Type} (fields : List (RecordField δ)) : Nat → Bool → δ → Read δ
  | 0, _, _ => failHere .endInObject
  | fuel + 1, isFirst, d => do
    if ← moreMembers isFirst then
      let key ← memberKey
      match fields.find? (·.name == key) with
      | some field =>
        if field.isSet d then failRepeated key
        else
          colon
          fieldsFrom fields fuel false (← field.read d)
      | none =>
        colon
        skipValue
        fieldsFrom fields fuel false d
    else return d

/-- Items of a list, one for each field in turn; the list may be shorter. -/
def fieldsInTurn {δ : Type} : List (RecordField δ) → Bool → δ → Read δ
  | [], _, d => return d
  | field :: fields, isFirst, d => do
    if ← moreItems isFirst then fieldsInTurn fields false (← field.read d)
    else return d

/-- The end of a list that holds no more than was asked for. -/
def listEnd : Read Unit := do
  match ← peekPast with
  | none => failNext .endInList
  | some ']' => advance
  | some ',' =>
    advance
    if (← peekPast) == some ']' then failNext .trailingComma else failNext .trailingText
  | some _ => failNext .trailingText

/-- A record, as an object or as a list. -/
def readRecord {δ : Type} (name : String) (fields : List (RecordField δ)) (empty : δ) : Read δ := do
  match ← peekPast with
  | none => failNext .endInValue
  | some '\x7b' =>
    advance
    let d ← fieldsFrom fields (← steps) true empty
    advance
    return d
  | some '[' =>
    advance
    let d ← fieldsInTurn fields true empty
    listEnd
    return d
  | some _ => wrongType ("struct " ++ name)

/-! ### Values already read -/

def Value.toText (v : Value) : Except Problem String :=
  match v with
  | .text s => .ok s
  | v => .error (.wrongType v.describe "a string")

def Value.toTexts (v : Value) : Except Problem (List String) :=
  match v with
  | .list items => items.mapM Value.toText
  | v => .error (.wrongType v.describe "a sequence")

end Phrasebook.Json
