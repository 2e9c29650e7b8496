/-!
What can be wrong with a JSON text, and where.
-/
namespace Phrasebook.Json

/-- A place in a text: the line from one, and the number of bytes before it in the line. -/
structure Position where
  line : Nat := 1
  column : Nat := 0
deriving DecidableEq, Repr

namespace Position

def step (p : Position) (c : Char) : Position :=
  if c == '\n' then ⟨p.line + 1, 0⟩ else ⟨p.line, p.column + c.utf8Size⟩

/-- The place some bytes further on, which may be inside a character; the text may end before. -/
def afterBytes : Nat → List Char → Position → Position
  | _, [], p => p
  | n, c :: cs, p =>
    if n = 0 then p
    else if c.utf8Size ≤ n then afterBytes (n - c.utf8Size) cs (p.step c)
    else ⟨p.line, p.column + n⟩

end Position

inductive Problem where
  | endInList
  | endInObject
  | endInText
  | endInValue
  | noColon
  | noListEnd
  | noObjectEnd
  | noWord
  | noValue
  | badEscape
  | badNumber
  | numberRange
  | control
  | keyNoText
  | loneSurrogate
  | openSurrogate
  | trailingComma
  | trailingText
  | tooDeep
  /-- A value of another type than asked for. -/
  | wrongType (found expected : String)
  | repeatedField (name : String)
  | missingField (name : String)
  | wrongLength (length : Nat) (expected : String)
deriving DecidableEq, Repr

def Problem.message : Problem → String
  | .endInList => "EOF while parsing a list"
  | .endInObject => "EOF while parsing an object"
  | .endInText => "EOF while parsing a string"
  | .endInValue => "EOF while parsing a value"
  | .noColon => "expected \x60:\x60"
  | .noListEnd => "expected \x60,\x60 or \x60]\x60"
  | .noObjectEnd => "expected \x60,\x60 or \x60\x7d\x60"
  | .noWord => "expected ident"
  | .noValue => "expected value"
  | .badEscape => "invalid escape"
  | .badNumber => "invalid number"
  | .numberRange => "number out of range"
  | .control => "control character (\\u0000-\\u001F) found while parsing a string"
  | .keyNoText => "key must be a string"
  | .loneSurrogate => "lone leading surrogate in hex escape"
  | .openSurrogate => "unexpected end of hex escape"
  | .trailingComma => "trailing comma"
  | .trailingText => "trailing characters"
  | .tooDeep => "recursion limit exceeded"
  | .wrongType found expected => "invalid type: " ++ found ++ ", expected " ++ expected
  | .repeatedField name => "duplicate field \x60" ++ name ++ "\x60"
  | .missingField name => "missing field \x60" ++ name ++ "\x60"
  | .wrongLength length expected =>
    "invalid length " ++ toString length ++ ", expected " ++ expected

structure Fault where
  problem : Problem
  position : Position
deriving DecidableEq, Repr

def Fault.message (f : Fault) : String :=
  f.problem.message ++ " at line " ++ toString f.position.line ++ " column "
    ++ toString f.position.column

end Phrasebook.Json
