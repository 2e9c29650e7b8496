import Phrasebook.Decimal.Scaled
import Phrasebook.Json.Fault
import Phrasebook.Json.Value
import Phrasebook.Text.Bytes

/-!
Reading JSON values.
-/
namespace Phrasebook.Json

/-- What is left of a text, and where it starts. -/
structure Cursor where
  rest : List Char
  position : Position := {}
deriving DecidableEq, Repr

namespace Cursor

/-- The place after the first byte of what is left. -/
def nextByte (c : Cursor) : Position := Position.afterBytes 1 c.rest c.position

def drop1 (c : Cursor) : Cursor :=
  match c.rest with
  | [] => c
  | x :: rest => ⟨rest, c.position.step x⟩

end Cursor

abbrev Read (α : Type) := StateT Cursor (Except Fault) α

/-- Fails at the place reached. -/
def failHere {α : Type} (p : Problem) : Read α := fun c => .error ⟨p, c.position⟩

/-- Fails at the character that comes next. -/
def failNext {α : Type} (p : Problem) : Read α := fun c => .error ⟨p, c.nextByte⟩

def peek : Read (Option Char) := fun c => .ok (c.rest.head?, c)

def advance : Read Unit := fun c => .ok ((), c.drop1)

def isSpace (c : Char) : Bool := c == ' ' || c == '\n' || c == '\t' || c == '\r'

def skipFrom : List Char → Position → Cursor
  | [], p => ⟨[], p⟩
  | c :: cs, p => if isSpace c then skipFrom cs (p.step c) else ⟨c :: cs, p⟩

def skipSpace : Read Unit := fun c => .ok ((), skipFrom c.rest c.position)

/-- Skips white space and looks at the next character. -/
def peekPast : Read (Option Char) := do
  skipSpace
  peek

/-- The rest of a word such as `true`. -/
def word : List Char → Read Unit
  | [] => return ()
  | expected :: more => do
    match ← peek with
    | none => failHere .endInValue
    | some c =>
      if c == expected then
        advance
        word more
      else failNext .noWord

/-! ### Texts -/

def hexValue? (c : Char) : Option Nat :=
  if c.isDigit then some (c.toNat - '0'.toNat)
  else if 'a' ≤ c && c ≤ 'f' then some (c.toNat - 'a'.toNat + 10)
  else if 'A' ≤ c && c ≤ 'F' then some (c.toNat - 'A'.toNat + 10)
  else none

def hexNumber? (cs : List Char) : Option Nat :=
  cs.foldlM (fun n c => (hexValue? c).map (16 * n + ·)) 0

/-- Four hexadecimal digits, which are four bytes. -/
def hexUnit : Read Nat := fun c =>
  if Text.byteLength c.rest < 4 then
    .error ⟨.endInText, Position.afterBytes 4 c.rest c.position⟩
  else
    match hexNumber? (c.rest.take 4) with
    | some n => .ok (n, ⟨c.rest.drop 4, Position.afterBytes 4 c.rest c.position⟩)
    | none => .error ⟨.badEscape, Position.afterBytes 4 c.rest c.position⟩

/-- The character that must follow the first half of a surrogate pair. -/
def surrogateMark (expected : Char) : Read Unit := do
  match ← peek with
  | none => failHere .endInText
  | some c => if c == expected then advance else failNext .openSurrogate

/-- A code unit, or two that make a pair. -/
def unicodeEscape : Read Char := do
  let n ← hexUnit
  if 0xdc00 ≤ n && n ≤ 0xdfff then failHere .loneSurrogate
  else if 0xd800 ≤ n && n ≤ 0xdbff then
    surrogateMark '\\'
    surrogateMark 'u'
    let m ← hexUnit
    if 0xdc00 ≤ m && m ≤ 0xdfff then
      return Char.ofNat ((n - 0xd800) * 0x400 + (m - 0xdc00) + 0x10000)
    else failHere .loneSurrogate
  else return Char.ofNat n

/-- What one letter after a backslash stands for. -/
def simpleEscape? (c : Char) : Option Char :=
  match c with
  | '\x22' => some c
  | '\\' => some c
  | '/' => some c
  | 'b' => some '\x08'
  | 'f' => some '\x0c'
  | 'n' => some '\n'
  | 'r' => some '\r'
  | 't' => some '\t'
  | _ => none

/-- The character after a backslash. -/
def escape : Read Char := do
  match ← peek with
  | none => failHere .endInText
  | some c =>
    match simpleEscape? c with
    | some d =>
      advance
      return d
    | none =>
      if c == 'u' then
        advance
        unicodeEscape
      else failNext .badEscape

/-- The text after an opening quote, with the characters read before in reverse. -/
def textFrom : Nat → List Char → Read String
  | 0, _ => failHere .endInText
  | fuel + 1, done => do
    match ← peek with
    | none => failHere .endInText
    | some '\x22' =>
      advance
      return String.ofList done.reverse
    | some '\\' =>
      advance
      let c ← escape
      textFrom fuel (c :: done)
    | some c =>
      if c.toNat < 0x20 then failNext .control
      else
        advance
        textFrom fuel (c :: done)

/-- As many steps as there are characters left, and one more. -/
def steps : Read Nat := fun c => .ok (c.rest.length + 1, c)

/-- The text after an opening quote. -/
def textBody : Read String := do textFrom (← steps) []

/-! ### Numbers -/

def peekDigit : Read (Option Nat) := do
  match ← peek with
  | some c => return if c.isDigit then some (c.toNat - '0'.toNat) else none
  | none => return none

/-- Skips digits and tells how many. -/
def skipDigits : Read Nat := fun c =>
  let n := (c.rest.takeWhile Char.isDigit).length
  .ok (n, ⟨c.rest.drop n, ⟨c.position.line, c.position.column + n⟩⟩)

/-- The largest number of 64 bits. -/
def highestWord : Nat := Nat.pow 2 64 - 1

/-- Digits that still fit, taken one after another. -/
def takeDigits (limit : Nat) : Nat → Nat → Read (Nat × Nat)
  | 0, n => return (n, 0)
  | fuel + 1, n => do
    match ← peekDigit with
    | some d =>
      if limit < 10 * n + d then return (n, 0)
      else
        advance
        let (m, count) ← takeDigits limit fuel (10 * n + d)
        return (m, count + 1)
    | none => return (n, 0)

def ofParts (isNegative : Bool) (digits : Nat) (exponent : Int) : Read Number := do
  match Decimal.scaled? digits exponent with
  | some d => return .other ((if isNegative then "-" else "") ++ d.text)
  | none => failHere .numberRange

/-- The largest exponent that is kept. -/
def highestExponent : Nat := Nat.pow 2 31 - 1

/-- The number from its exponent mark on. -/
def exponentPart (isNegative : Bool) (digits : Nat) (exponent : Int) : Read Number := do
  advance
  let sign ← peek
  if sign == some '+' || sign == some '-' then advance
  match ← peek with
  | none => failHere .endInValue
  | some c => if !c.isDigit then failNext .badNumber
  let (n, _) ← takeDigits highestExponent (← steps) 0
  if (← peekDigit).isSome then
    -- The exponent is past all bounds.
    if digits != 0 && sign != some '-' then
      advance
      failHere .numberRange
    else
      let _ ← skipDigits
      ofParts isNegative 0 0
  else if sign == some '-' then ofParts isNegative digits (exponent - n)
  else ofParts isNegative digits (exponent + n)

def isExponentMark (c : Option Char) : Bool := c == some 'e' || c == some 'E'

/-- The number from its point on. Digits that do not fit any more are left out. -/
def fractionPart (isNegative : Bool) (digits : Nat) (exponent : Int) : Read Number := do
  advance
  let (digits, count) ← takeDigits highestWord (← steps) digits
  let more ← skipDigits
  if count + more == 0 then
    match ← peek with
    | none => failNext .endInValue
    | some _ => failNext .badNumber
  let exponent := exponent - count
  if isExponentMark (← peek) then exponentPart isNegative digits exponent
  else ofParts isNegative digits exponent

def wholeNumber (isNegative : Bool) (digits : Nat) : Number :=
  if !isNegative then .whole digits
  else if digits == 0 then .other "-0.0"
  else if digits ≤ Nat.pow 2 63 then .whole (-(digits : Int))
  else .other ("-" ++ (Decimal.Double.ofNat digits).text)

/-- A number after its sign. -/
def number (isNegative : Bool) : Read Number := do
  match ← peek with
  | none => failHere .endInValue
  | some c => if !c.isDigit then failNext .badNumber
  let first ← peek
  let (digits, _) ← if first == some '0' then do
      advance
      if (← peekDigit).isSome then failNext .badNumber
      pure (0, 1)
    else takeDigits highestWord (← steps) 0
  let dropped ← skipDigits
  let next ← peek
  if next == some '.' then fractionPart isNegative digits dropped
  else if isExponentMark next then exponentPart isNegative digits dropped
  else if dropped == 0 then return wholeNumber isNegative digits
  else ofParts isNegative digits dropped

/-! ### Lists and objects -/

/-- Whether another item comes in a list. -/
def moreItems (isFirst : Bool) : Read Bool := do
  match ← peekPast with
  | none => failNext .endInList
  | some ']' => return false
  | some c =>
    if isFirst then return true
    else if c == ',' then
      advance
      match ← peekPast with
      | none => failNext .endInValue
      | some ']' => failNext .trailingComma
      | some _ => return true
    else failNext .noListEnd

/-- Whether another member comes in an object; then its key is next. -/
def moreMembers (isFirst : Bool) : Read Bool := do
  match ← peekPast with
  | none => failNext .endInObject
  | some '\x7d' => return false
  | some c =>
    if isFirst then
      if c == '\x22' then return true else failNext .keyNoText
    else if c == ',' then
      advance
      match ← peekPast with
      | none => failNext .endInValue
      | some '\x22' => return true
      | some '\x7d' => failNext .trailingComma
      | some _ => failNext .keyNoText
    else failNext .noObjectEnd

/-- The key of a member, up to its colon. -/
def memberKey : Read String := do
  advance
  textBody

def colon : Read Unit := do
  match ← peekPast with
  | some ':' => advance
  | some _ => failNext .noColon
  | none => failNext .endInObject

/-- Stores a member; the last value of a key counts, in the place of the first. -/
def putMember (members : List (String × Value)) (key : String) (value : Value) :
    List (String × Value) :=
  if members.any (·.1 == key) then
    members.map fun (k, v) => if k == key then (k, value) else (k, v)
  else members ++ [(key, value)]

/-- How deep lists and objects may be nested. -/
def depthLimit : Nat := 128

mutual

/-- A value inside `depth` more levels. -/
def valueFrom : Nat → Nat → Read Value
  | 0, _ => failHere .endInValue
  | fuel + 1, depth => do
    match ← peekPast with
    | none => failNext .endInValue
    | some 'n' =>
      advance
      word ['u', 'l', 'l']
      return .null
    | some 't' =>
      advance
      word ['r', 'u', 'e']
      return .bool true
    | some 'f' =>
      advance
      word ['a', 'l', 's', 'e']
      return .bool false
    | some '-' =>
      advance
      return .number (← number true)
    | some '\x22' =>
      advance
      return .text (← textBody)
    | some '[' =>
      if depth ≤ 1 then failNext .tooDeep
      advance
      let items ← itemsFrom fuel (depth - 1) true
      advance
      return .list items
    | some '\x7b' =>
      if depth ≤ 1 then failNext .tooDeep
      advance
      let members ← membersFrom fuel (depth - 1) []
      advance
      return .object members
    | some c => if c.isDigit then return .number (← number false) else failNext .noValue

def itemsFrom : Nat → Nat → Bool → Read (List Value)
  | 0, _, _ => failHere .endInList
  | fuel + 1, depth, isFirst => do
    if ← moreItems isFirst then
      let item ← valueFrom fuel depth
      let rest ← itemsFrom fuel depth false
      return item :: rest
    else return []

def membersFrom : Nat → Nat → List (String × Value) → Read (List (String × Value))
  | 0, _, _ => failHere .endInObject
  | fuel + 1, depth, members => do
    if ← moreMembers members.isEmpty then
      let key ← memberKey
      colon
      let value ← valueFrom fuel depth
      membersFrom fuel depth (putMember members key value)
    else return members

end

def value : Read Value := do valueFrom (2 * (← steps)) depthLimit

/-- Nothing but white space is left. -/
def finish : Read Unit := do
  match ← peekPast with
  | none => return ()
  | some _ => failNext .trailingText

/-- Reads a whole text. -/
def Read.run {α : Type} (r : Read α) (text : String) : Except Fault α := do
  let (a, c) ← r ⟨text.toList, {}⟩
  let _ ← finish c
  return a

def parse (text : String) : Except Fault Value := value.run text

end Phrasebook.Json
