/-!
Byte offsets into a text: how many bytes characters take in UTF-8, and the piece of a text between
two byte offsets.
-/
namespace Phrasebook.Text

/-- Bytes the characters take in UTF-8. -/
def byteLength : List Char → Nat
  | [] => 0
  | c :: cs => c.utf8Size + byteLength cs

/-- The text before and after byte offset `n`, when `n` falls between two characters. -/
def splitAt? : Nat → List Char → Option (List Char × List Char)
  | 0, cs => some ([], cs)
  | _ + 1, [] => none
  | n + 1, c :: cs =>
    if c.utf8Size ≤ n + 1 then
      (splitAt? (n + 1 - c.utf8Size) cs).map fun (before, after) => (c :: before, after)
    else none

/-- The text from byte `lo` to byte `hi`, when both fall between characters and `lo ≤ hi`. -/
def slice? (text : List Char) (lo hi : Nat) : Option (List Char) :=
  if lo ≤ hi then do
    let (_, after) ← splitAt? lo text
    let (piece, _) ← splitAt? (hi - lo) after
    return piece
  else none

/-- Like `slice?`, with no text where there is no such piece. -/
def slice (text : List Char) (lo hi : Nat) : List Char := (slice? text lo hi).getD []

@[simp]
theorem byteLength_append (a b : List Char) :
    byteLength (a ++ b) = byteLength a + byteLength b := by
  induction a with
  | nil => simp [byteLength]
  | cons c cs ih => simp [byteLength, ih, Nat.add_assoc]

theorem splitAt?_byteLength (a b : List Char) : splitAt? (byteLength a) (a ++ b) = some (a, b) := by
  induction a with
  | nil => simp [byteLength, splitAt?]
  | cons c cs ih =>
    have hpos := c.utf8Size_pos
    obtain ⟨n, hn⟩ : ∃ n, byteLength (c :: cs) = n + 1 := ⟨c.utf8Size + byteLength cs - 1, by
      simp only [byteLength]; omega⟩
    have hrest : n + 1 - c.utf8Size = byteLength cs := by simp only [byteLength] at hn; omega
    have hle : c.utf8Size ≤ n + 1 := by simp only [byteLength] at hn; omega
    simp [hn, splitAt?, hle, hrest, ih]

theorem splitAt?_eq_some {n : Nat} {text before after : List Char}
    (h : splitAt? n text = some (before, after)) :
    text = before ++ after ∧ n = byteLength before := by
  induction text generalizing n before with
  | nil =>
    cases n with
    | zero =>
      cases h
      exact ⟨rfl, rfl⟩
    | succ n => cases h
  | cons c cs ih =>
    cases n with
    | zero =>
      cases h
      exact ⟨rfl, rfl⟩
    | succ n =>
      unfold splitAt? at h
      split at h
      · rename_i hle
        obtain ⟨⟨lead, rest⟩, hsplit, hsame⟩ := Option.map_eq_some_iff.mp h
        cases hsame
        obtain ⟨rfl, hn⟩ := ih hsplit
        refine ⟨rfl, ?_⟩
        rw [byteLength, ← hn]
        omega
      · cases h

/-- The piece of `a ++ b ++ c` at the offsets of `b` is `b`. -/
theorem slice_middle (a b c : List Char) :
    slice (a ++ b ++ c) (byteLength a) (byteLength a + byteLength b) = b := by
  have hsub : byteLength a + byteLength b - byteLength a = byteLength b := by omega
  simp [slice, slice?, List.append_assoc, splitAt?_byteLength, hsub]

end Phrasebook.Text
