import Phrasebook.Script.Module
import Phrasebook.Text.Width

/-!
A module together with its text. Offsets count from after a byte-order mark, while pieces of the
text are taken from the whole of it.
-/
namespace Phrasebook.Script

structure Source where
  /-- The text as read, with its byte-order mark. -/
  code : List Char
  tree : Node

namespace Source

def read (markup : Bool) (code : String) : Except SyntaxFault Source := do
  let tree ← parseModule markup (withoutMark code.toList)
  return ⟨code.toList, tree⟩

/-- The source text at a span; a span that cuts a character has none. -/
def snippet (s : Source) (span : Span) : String :=
  let size := Text.byteLength s.code
  let lo := min span.lo size
  let hi := min (max span.hi lo) size
  String.ofList (Text.slice s.code lo hi)

end Source

/-- Columns of a character in a position: a tab takes four, a line break one, and a character past
the basic plane one more than on a terminal. -/
def positionColumns (c : Char) : Nat :=
  if c == '\t' then 4
  else if c == '\n' || c == '\r' then 1
  else Text.columns c + (if 0xffff < c.toNat then 1 else 0)

/-- A line ends with this character, followed by `rest`. -/
def endsLine (c : Char) (rest : List Char) : Bool :=
  c == '\n' || (c == '\r' && rest.head? != some '\n')

/-- Line and column of byte offset `target`, from a given place on. The end of the text starts no
line. -/
def positionFrom (target : Nat) : List Char → Nat → Nat → Nat → Nat × Nat
  | [], _, line, column => (line, column)
  | c :: rest, pos, line, column =>
    if target ≤ pos then (line, column)
    else if endsLine c rest && !rest.isEmpty then
      positionFrom target rest (pos + c.utf8Size) (line + 1) 0
    else positionFrom target rest (pos + c.utf8Size) line (column + positionColumns c)

/-- Line from one and column from one; an empty text has only line zero. -/
def Source.position (s : Source) (offset : Nat) : Nat × Nat :=
  match withoutMark s.code with
  | [] => (0, 1)
  | text =>
    let (line, column) := positionFrom offset text 0 1 0
    (line, column + 1)

end Phrasebook.Script
