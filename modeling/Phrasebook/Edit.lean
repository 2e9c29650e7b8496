import Phrasebook.Text.Bytes
import Phrasebook.Text.Sorted

/-!
Edits of a text by byte offsets. A module is never printed from its tree: every replacement is a
piece of the source with edits spliced in, so everything outside the edits stays byte for byte.
-/
namespace Phrasebook

/-- Puts `text` in the place of the bytes from `lo` to `hi`. -/
structure Edit where
  lo : Nat
  hi : Nat
  text : String
  /-- The key of the first lookup inside `text`. -/
  key : String
deriving DecidableEq, Repr

namespace Edit

def insertAt (pos : Nat) (text : String) : Edit := ⟨pos, pos, text, ""⟩

/-- By start, then by end: insertions come before replacements at the same offset. -/
def before (a b : Edit) : Bool := a.lo < b.lo || (a.lo == b.lo && a.hi ≤ b.hi)

def sort (edits : List Edit) : List Edit := Text.sortBy before edits

end Edit

/-- The source from `cursor` to `hi` with sorted edits in it. An edit that overlaps an earlier one
or leaves the range is dropped. -/
def spliceFrom (source : List Char) (hi : Nat) : Nat → List Edit → List Char
  | cursor, [] => Text.slice source cursor hi
  | cursor, e :: es =>
    if e.lo < cursor || hi < e.hi || e.hi < e.lo then spliceFrom source hi cursor es
    else Text.slice source cursor e.lo ++ e.text.toList ++ spliceFrom source hi e.hi es

/-- The source from byte `lo` to byte `hi` with the edits applied. -/
def splice (source : List Char) (lo hi : Nat) (edits : List Edit) : String :=
  String.ofList (spliceFrom source hi lo (Edit.sort edits))

end Phrasebook
