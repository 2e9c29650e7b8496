import Mathlib.Data.Option.Basic
import Phrasebook.Script.Module

/-!
Reading does not depend on where a text stands. Whatever is read from a text is read from the same
text further on, with every offset moved along, as long as the fuel is more than its length; and
what is left is never longer than what there was.
-/
namespace Phrasebook.Script

/-! ### Texts further on -/

/-- The same text, `offset` bytes further on. -/
def Input.shift (offset : Nat) (i : Input) : Input := ⟨i.rest, i.pos + offset⟩

section

variable {offset : Nat} {i next : Input}

@[simp]
theorem Input.rest_shift : (i.shift offset).rest = i.rest := rfl

@[simp]
theorem Input.pos_shift : (i.shift offset).pos = i.pos + offset := rfl

@[simp]
theorem Input.skip_shift (n : Nat) : (i.shift offset).skip n = (i.skip n).shift offset := by
  simp [skip, advance, shift, Nat.add_right_comm]

@[simp]
theorem Input.takeWhile_shift (p : Char → Bool) :
    (i.shift offset).takeWhile p = ((i.takeWhile p).1, (i.takeWhile p).2.shift offset) := by
  simp [takeWhile, advance, shift, Nat.add_right_comm]

theorem Input.mk_add (offset : Nat) (rest : List Char) (pos n : Nat) :
    (⟨rest, pos + offset + n⟩ : Input) = shift offset ⟨rest, pos + n⟩ := by
  simp [shift, Nat.add_right_comm]

theorem Input.length_skip_le (n : Nat) : (i.skip n).rest.length ≤ i.rest.length := by
  simp [skip, advance]

theorem Input.length_takeWhile_le (p : Char → Bool) :
    (i.takeWhile p).2.rest.length ≤ i.rest.length := by
  simpa [takeWhile, advance] using (List.dropWhile_suffix p).length_le

/-- What is found further on: the same result, with the text behind it. -/
def placed {α : Type} (offset : Nat) (found : α × Input) : α × Input :=
  (found.1, found.2.shift offset)

theorem readHex_shift (n : Nat) :
    readHex n (i.shift offset) = (readHex n i).map (placed offset) := by
  simp [readHex, placed, Option.map_bind, Function.comp_def]

theorem length_readHex {n value : Nat} (h : readHex n i = some (value, next)) :
    next.rest.length ≤ i.rest.length := by
  simp only [readHex, bind, Option.bind_eq_some_iff, pure, Option.some.injEq, Prod.mk.injEq] at h
  obtain ⟨-, -, -, -, -, rfl⟩ := h
  exact Input.length_skip_le n

theorem readUnicodeEscape_shift :
    readUnicodeEscape (i.shift offset) = (readUnicodeEscape i).map (placed offset) := by
  unfold readUnicodeEscape
  simp only [Input.rest_shift]
  split
  · simp [placed, Option.map_bind, Function.comp_def]
  · exact readHex_shift 4

theorem length_readUnicodeEscape {value : Nat} (h : readUnicodeEscape i = some (value, next)) :
    next.rest.length ≤ i.rest.length := by
  unfold readUnicodeEscape at h
  split at h
  · simp only [bind, Option.bind_eq_some_iff, pure, Option.some.injEq, Prod.mk.injEq] at h
    obtain ⟨-, -, -, -, -, -, -, rfl⟩ := h
    exact Nat.le_trans (Input.length_skip_le 1)
      (Nat.le_trans (Input.length_takeWhile_le _) (Input.length_skip_le 1))
  · exact length_readHex h

theorem readOctal_shift (first : Char) :
    readOctal first (i.shift offset) = placed offset (readOctal first i) := by
  simp only [readOctal, Input.rest_shift, Input.skip_shift]
  split
  · split
    · rfl
    · split <;> rfl
  · split <;> rfl
  · rfl

theorem length_readOctal (first : Char) : (readOctal first i).2.rest.length ≤ i.rest.length := by
  simp only [readOctal]
  split
  · split
    · exact Nat.le_refl _
    · split <;> exact Input.length_skip_le _
  · split
    · exact Input.length_skip_le _
    · exact Nat.le_refl _
  · exact Nat.le_refl _

theorem readEscape_shift (octal : Bool) :
    readEscape octal (i.shift offset) = (readEscape octal i).map (placed offset) := by
  simp only [readEscape, Input.rest_shift, Input.pos_shift, Input.mk_add offset]
  split
  · rfl
  · split
    any_goals rfl
    · split <;> simp [placed]
    · simp [readHex_shift, placed, Function.comp_def]
    · simp [readUnicodeEscape_shift, placed, Function.comp_def]
    · simp only [readOctal_shift]
      repeat' split
      all_goals rfl

theorem length_readEscape {octal : Bool} {points : List Nat}
    (h : readEscape octal i = some (points, next)) : next.rest.length < i.rest.length := by
  unfold readEscape at h
  split at h
  · cases h
  · rename_i c rest hrest
    rw [hrest, List.length_cons, Nat.lt_succ_iff]
    split at h
    any_goals
      cases h
      exact Nat.le_refl _
    · cases h
      split
      · exact Input.length_skip_le _
      · exact Nat.le_refl _
    · obtain ⟨x, hx, hnext⟩ := Option.map_eq_some_iff.mp h
      cases hnext
      exact length_readHex hx
    · obtain ⟨x, hx, hnext⟩ := Option.map_eq_some_iff.mp h
      cases hnext
      exact length_readUnicodeEscape hx
    · repeat' split at h
      all_goals cases h
      · exact Nat.le_refl _
      · exact Nat.le_refl _
      · exact Nat.le_refl _
      · exact length_readOctal _

theorem readDigits_shift (isDigit : Char → Bool) :
    readDigits isDigit (i.shift offset) = placed offset (readDigits isDigit i) := by
  simp [readDigits, placed]

theorem readSign_shift : readSign (i.shift offset) = placed offset (readSign i) := by
  simp only [readSign, Input.rest_shift, Input.skip_shift]
  split <;> rfl

theorem readExponent_shift :
    readExponent (i.shift offset) = (readExponent i).map (placed offset) := by
  simp only [readExponent, readSign_shift, readDigits_shift, placed]
  split <;> rfl

theorem readRadix_shift (radix : Nat) :
    readRadix radix (i.shift offset) = placed offset (readRadix radix i) := by
  simp only [readRadix, readDigits_shift, placed, Input.rest_shift, Input.skip_shift]
  split
  · rfl
  · split <;> rfl

theorem readPlaces_shift : readPlaces (i.shift offset) = placed offset (readPlaces i) := by
  simp only [readPlaces, Input.rest_shift, Input.skip_shift, readDigits_shift]
  split <;> rfl

theorem readDecimal_shift : readDecimal (i.shift offset) = placed offset (readDecimal i) := by
  simp only [readDecimal, readDigits_shift, readPlaces_shift, readExponent_shift, placed,
    Input.rest_shift, Input.skip_shift]
  split
  · rfl
  · split
    · rfl
    · split
      · split
        · cases readExponent _ <;> rfl
        · rfl
      · rfl

theorem readNumeral_shift : readNumeral (i.shift offset) = placed offset (readNumeral i) := by
  simp only [readNumeral, Input.rest_shift, Input.skip_shift, readRadix_shift, readDecimal_shift]
  split
  · repeat' split
    all_goals rfl
  · rfl

theorem readNumber_shift : readNumber (i.shift offset) = placed offset (readNumber i) := by
  simp only [readNumber, readNumeral_shift, placed, Input.rest_shift]
  split
  · split <;> rfl
  · rfl

/-! ### Fuel

Reading takes a character at each step, so that any fuel past the length of the text is enough. -/

variable {fuel fuel' : Nat}

theorem readString_shift (quote : Char) {points recent : List Nat} (h : i.rest.length < fuel)
    (h' : i.rest.length < fuel') :
    readString quote fuel' (i.shift offset) points recent =
      (readString quote fuel i points recent).map (placed offset) := by
  induction fuel generalizing fuel' i points recent with
  | zero => omega
  | succ fuel ih =>
    obtain ⟨fuel', rfl⟩ : ∃ n, fuel' = n + 1 := ⟨fuel' - 1, by omega⟩
    simp only [readString, Input.rest_shift, Input.pos_shift, Input.mk_add offset]
    split
    · rfl
    · rename_i c rest hrest
      simp only [hrest, List.length_cons] at h h'
      split
      · rfl
      · split
        · rw [readEscape_shift]
          cases hescape : readEscape true ⟨rest, i.pos + c.utf8Size⟩ with
          | none => rfl
          | some found =>
            have hlength := length_readEscape hescape
            exact ih (by simp only at hlength; omega) (by simp only at hlength; omega)
        · split
          · rfl
          · exact ih (Nat.lt_of_succ_lt_succ h) (Nat.lt_of_succ_lt_succ h')

theorem readName_shift {read : List Char} {escaped : Bool} (h : i.rest.length < fuel)
    (h' : i.rest.length < fuel') :
    readName fuel' (i.shift offset) read escaped = (readName fuel i read escaped).map
      fun (name, escaped, next) => (name, escaped, next.shift offset) := by
  induction fuel generalizing fuel' i read escaped with
  | zero => omega
  | succ fuel ih =>
    obtain ⟨fuel', rfl⟩ : ∃ n, fuel' = n + 1 := ⟨fuel' - 1, by omega⟩
    simp only [readName, Input.rest_shift, Input.pos_shift, Input.skip_shift, Input.mk_add offset,
      readUnicodeEscape_shift]
    split
    · rename_i tail hrest
      cases hescape : readUnicodeEscape (i.skip 2) with
      | none => rfl
      | some found =>
        have hlength := length_readUnicodeEscape hescape
        have hskip : (i.skip 2).rest.length + 2 = i.rest.length := by
          simp [Input.skip, Input.advance, hrest]
        simp only [Option.map_some, placed, bind, Option.bind_some]
        by_cases hallowed : (if read.isEmpty = true then isNameStart (Char.ofNat found.1)
          else isNamePart (Char.ofNat found.1)) = true
        · simp only [guard, if_pos hallowed]
          exact ih (by omega) (by omega)
        · simp only [guard, if_neg hallowed]
          rfl
    · rename_i c rest _ hrest
      rw [hrest, List.length_cons] at h h'
      by_cases hallowed : (if read.isEmpty = true then isNameStart c else isNamePart c) = true
      · rw [if_pos hallowed, if_pos hallowed]
        exact ih (Nat.lt_of_succ_lt_succ h) (Nat.lt_of_succ_lt_succ h')
      · rw [if_neg hallowed, if_neg hallowed]
        rfl
    · rfl

theorem readWord_shift (h : i.rest.length < fuel) (h' : i.rest.length < fuel') :
    readWord fuel' (i.shift offset) = (readWord fuel i).map (placed offset) := by
  simp only [readWord, readName_shift h h', Input.rest_shift]
  cases readName fuel i [] false with
  | none => rfl
  | some found =>
    obtain ⟨name, escaped, next⟩ := found
    cases name with
    | nil => rfl
    | cons c name =>
      simp only [Option.map_some, bind, Option.bind_some, Input.rest_shift]
      simp only [guard, List.isEmpty_cons, Bool.not_false, if_true, pure, Option.bind_some]
      repeat' split
      all_goals rfl

theorem readPunct_shift : readPunct (i.shift offset) = (readPunct i).map (placed offset) := by
  simp [readPunct, placed, Option.map_bind, Function.comp_def]

theorem readToken_shift (h : i.rest.length < fuel) (h' : i.rest.length < fuel') :
    readToken fuel' (i.shift offset) = placed offset (readToken fuel i) := by
  have hskip := Nat.lt_of_le_of_lt (Input.length_skip_le (i := i) 1) h
  have hskip' := Nat.lt_of_le_of_lt (Input.length_skip_le (i := i) 1) h'
  simp only [readToken, Input.rest_shift, Input.skip_shift, readNumber_shift, readPunct_shift,
    readWord_shift h h', readName_shift hskip hskip']
  split
  · rfl
  · rename_i c rest _
    split
    · rw [readString_shift c hskip hskip']
      cases readString c fuel (i.skip 1) [] [] <;> rfl
    · split
      · rfl
      · split
        · cases readName fuel (i.skip 1) [] false with
          | none => rfl
          | some found =>
            obtain ⟨name, escaped, next⟩ := found
            cases name <;> rfl
        · cases readPunct i with
          | none => cases readWord fuel i <;> rfl
          | some found => rfl

/-! ### White space and comments -/

theorem skipLineComment_shift (offset : Nat) (text : List Char) (pos : Nat) :
    skipLineComment text (pos + offset) = (skipLineComment text pos).shift offset := by
  induction text generalizing pos with
  | nil => rfl
  | cons c rest ih =>
    simp only [skipLineComment, Nat.add_right_comm pos offset, ih]
    split <;> rfl

theorem length_skipLineComment (text : List Char) (pos : Nat) :
    (skipLineComment text pos).rest.length ≤ text.length := by
  induction text generalizing pos with
  | nil => exact Nat.le_refl _
  | cons c rest ih =>
    simp only [skipLineComment]
    split
    · exact Nat.le_refl _
    · exact Nat.le_succ_of_le (ih _)

theorem skipBlockComment_shift (offset : Nat) (text : List Char) (pos : Nat) (broken : Bool) :
    skipBlockComment text (pos + offset) broken =
      (skipBlockComment text pos broken).map fun (next, lines) => (next.shift offset, lines) := by
  fun_induction skipBlockComment text pos broken with
  | case1 => rfl
  | case2 rest pos broken => simp [skipBlockComment, Input.mk_add offset]
  | case3 c rest pos broken hclose ih =>
    rw [skipBlockComment, Nat.add_right_comm, ih]
    exact hclose

theorem length_skipBlockComment {text : List Char} {pos : Nat} {broken lines : Bool}
    (h : skipBlockComment text pos broken = some (next, lines)) :
    next.rest.length ≤ text.length := by
  fun_induction skipBlockComment text pos broken with
  | case1 => cases h
  | case2 rest pos broken =>
    cases h
    simp only [List.length_cons]
    omega
  | case3 c rest pos broken _ ih => exact Nat.le_succ_of_le (ih h)

theorem skipTrivia_shift {broken : Bool} (h : i.rest.length < fuel) (h' : i.rest.length < fuel') :
    skipTrivia fuel' (i.shift offset) broken =
      (skipTrivia fuel i broken).map fun (next, broken) => (next.shift offset, broken) := by
  induction fuel generalizing fuel' i broken with
  | zero => omega
  | succ fuel ih =>
    obtain ⟨fuel', rfl⟩ : ∃ n, fuel' = n + 1 := ⟨fuel' - 1, by omega⟩
    simp only [skipTrivia, Input.rest_shift, Input.pos_shift, Nat.add_right_comm i.pos offset,
      skipLineComment_shift offset, skipBlockComment_shift offset]
    split
    all_goals rename_i hrest
    all_goals simp only [hrest, List.length_cons] at h h'
    · rename_i rest
      have hlength := length_skipLineComment rest (i.pos + 2)
      exact ih (by omega) (by omega)
    · rename_i rest
      cases hblock : skipBlockComment rest (i.pos + 2) false with
      | none => rfl
      | some found =>
        have hlength := length_skipBlockComment hblock
        exact ih (by omega) (by omega)
    · rename_i rest
      have hlength := length_skipLineComment rest (i.pos + 4)
      exact ih (by omega) (by omega)
    · rename_i rest
      have hlength := length_skipLineComment rest (i.pos + 3)
      split
      · exact ih (by omega) (by omega)
      · rfl
    · split
      · exact ih (i := ⟨_, _⟩) (Nat.lt_of_succ_lt_succ h) (Nat.lt_of_succ_lt_succ h')
      · split
        · exact ih (i := ⟨_, _⟩) (Nat.lt_of_succ_lt_succ h) (Nat.lt_of_succ_lt_succ h')
        · rfl
    · rfl

/-! ### Nothing is read twice -/

theorem length_readDigits (isDigit : Char → Bool) :
    (readDigits isDigit i).2.rest.length ≤ i.rest.length :=
  Input.length_takeWhile_le _

theorem length_readSign : (readSign i).2.rest.length ≤ i.rest.length := by
  unfold readSign
  split
  · exact Input.length_skip_le 1
  · exact Input.length_skip_le 1
  · exact Nat.le_refl _

theorem length_readExponent {e : Int} (h : readExponent i = some (e, next)) :
    next.rest.length ≤ i.rest.length := by
  simp only [readExponent] at h
  split at h
  · cases h
  · cases h
    exact Nat.le_trans (length_readDigits _) length_readSign

theorem length_readRadix (radix : Nat) : (readRadix radix i).2.rest.length ≤ i.rest.length := by
  simp only [readRadix]
  split
  · exact length_readDigits _
  · split
    · exact Nat.le_trans (Input.length_skip_le 1) (length_readDigits _)
    · exact length_readDigits _

theorem length_readPlaces : (readPlaces i).2.rest.length ≤ i.rest.length := by
  unfold readPlaces
  split
  · exact Nat.le_trans (length_readDigits _) (Input.length_skip_le 1)
  · exact Nat.le_refl _

theorem length_readDecimal : (readDecimal i).2.rest.length ≤ i.rest.length := by
  have hwhole : (readDigits Char.isDigit i).2.rest.length ≤ i.rest.length := length_readDigits _
  have hplaces := Nat.le_trans (length_readPlaces (i := (readDigits Char.isDigit i).2)) hwhole
  simp only [readDecimal]
  split
  · exact hwhole
  · split
    · exact Nat.le_trans (Input.length_skip_le 1) hwhole
    · split
      · split
        · split
          · rename_i hexponent
            exact Nat.le_trans (length_readExponent hexponent)
              (Nat.le_trans (Input.length_skip_le 1) hplaces)
          · exact hplaces
        · exact hplaces
      · exact hplaces

theorem length_readNumeral : (readNumeral i).2.rest.length ≤ i.rest.length := by
  unfold readNumeral
  split
  · split
    · exact Nat.le_trans (length_readRadix 16) (Input.length_skip_le 2)
    · split
      · exact Nat.le_trans (length_readRadix 8) (Input.length_skip_le 2)
      · split
        · exact Nat.le_trans (length_readRadix 2) (Input.length_skip_le 2)
        · exact length_readDecimal
  · exact length_readDecimal

theorem length_readNumber : (readNumber i).2.rest.length ≤ i.rest.length := by
  simp only [readNumber]
  split
  · split <;> exact length_readNumeral
  · exact length_readNumeral

theorem length_readString {quote : Char} {points recent found : List Nat}
    (h : readString quote fuel i points recent = some (found, next)) :
    next.rest.length ≤ i.rest.length := by
  induction fuel generalizing i points recent with
  | zero => cases h
  | succ fuel ih =>
    simp only [readString] at h
    split at h
    · cases h
      exact Nat.le_refl _
    · rename_i c rest hrest
      have hless : rest.length ≤ i.rest.length := by simp [hrest]
      split at h
      · cases h
        exact hless
      · split at h
        · simp only [bind, Option.bind_eq_some_iff] at h
          obtain ⟨⟨more, after⟩, hescape, hmore⟩ := h
          exact Nat.le_trans (ih hmore)
            (Nat.le_trans (Nat.le_of_lt (length_readEscape hescape)) hless)
        · split at h
          · cases h
            exact Nat.le_refl _
          · exact Nat.le_trans (ih h) hless

theorem length_readName {read name : List Char} {escaped found : Bool}
    (h : readName fuel i read escaped = some (name, found, next)) :
    next.rest.length ≤ i.rest.length := by
  induction fuel generalizing i read escaped with
  | zero => cases h
  | succ fuel ih =>
    simp only [readName] at h
    split at h
    · simp only [bind, Option.bind_eq_some_iff] at h
      obtain ⟨⟨n, after⟩, hescape, -, -, hmore⟩ := h
      exact Nat.le_trans (ih hmore)
        (Nat.le_trans (length_readUnicodeEscape hescape) (Input.length_skip_le 2))
    · rename_i c rest _ hrest
      have hless : rest.length ≤ i.rest.length := by simp [hrest]
      by_cases hallowed : (if read.isEmpty = true then isNameStart c else isNamePart c) = true
      · rw [if_pos hallowed] at h
        exact Nat.le_trans (ih h) hless
      · rw [if_neg hallowed] at h
        cases h
        exact Nat.le_refl _
    · cases h
      exact Nat.le_refl _

theorem length_readWord {token : Token} (h : readWord fuel i = some (token, next)) :
    next.rest.length ≤ i.rest.length := by
  simp only [readWord, bind, Option.bind_eq_some_iff] at h
  obtain ⟨⟨name, escaped, after⟩, hname, -, -, h⟩ := h
  have hlength := length_readName hname
  repeat' split at h
  all_goals
    cases h
    exact hlength

theorem length_readToken : (readToken fuel i).2.rest.length ≤ i.rest.length := by
  simp only [readToken]
  split
  · exact Nat.le_refl _
  · split
    · split
      · rename_i hstring
        exact Nat.le_trans (length_readString hstring) (Input.length_skip_le 1)
      · exact Nat.le_refl _
    · split
      · exact length_readNumber
      · split
        · split
          · rename_i hname
            exact Nat.le_trans (length_readName hname) (Input.length_skip_le 1)
          · exact Nat.le_refl _
        · split
          · rename_i found hpunct
            simp only [readPunct, bind, Option.bind_eq_some_iff, pure, Option.some.injEq] at hpunct
            obtain ⟨text, -, rfl⟩ := hpunct
            exact Input.length_skip_le _
          · cases hword : readWord fuel i with
            | none => exact Nat.le_refl _
            | some found => exact length_readWord hword

theorem length_skipTrivia {broken lines : Bool}
    (h : skipTrivia fuel i broken = some (next, lines)) : next.rest.length ≤ i.rest.length := by
  induction fuel generalizing i broken with
  | zero => cases h
  | succ fuel ih =>
    simp only [skipTrivia] at h
    split at h
    all_goals rename_i hrest
    · rename_i rest
      have hcomment := length_skipLineComment rest (i.pos + 2)
      have hlength := ih h
      simp only [hrest, List.length_cons]
      omega
    · simp only [bind, Option.bind_eq_some_iff] at h
      obtain ⟨⟨after, spans⟩, hblock, hmore⟩ := h
      have hcomment := length_skipBlockComment hblock
      have hlength := ih hmore
      simp only [hrest, List.length_cons] at hlength ⊢
      omega
    · rename_i rest
      have hcomment := length_skipLineComment rest (i.pos + 4)
      have hlength := ih h
      simp only [hrest, List.length_cons]
      omega
    · rename_i rest
      split at h
      · have hcomment := length_skipLineComment rest (i.pos + 3)
        have hlength := ih h
        simp only [hrest, List.length_cons]
        omega
      · cases h
        exact Nat.le_refl _
    · split at h
      · have hlength := ih h
        simp only [hrest, List.length_cons] at hlength ⊢
        omega
      · split at h
        · have hlength := ih h
          simp only [hrest, List.length_cons] at hlength ⊢
          omega
        · cases h
          exact Nat.le_refl _
    · cases h
      exact Nat.le_refl _

/-! ### The same text in two places -/

theorem Input.eq_shift (i : Input) : i = shift i.pos ⟨i.rest, 0⟩ := by
  simp [shift]

variable {j : Input}

theorem skipTrivia_congr {broken : Bool} (hrest : j.rest = i.rest) (h : i.rest.length < fuel)
    (h' : i.rest.length < fuel') :
    (skipTrivia fuel' j broken).map (fun (next, broken) => (next.rest, broken)) =
      (skipTrivia fuel i broken).map fun (next, broken) => (next.rest, broken) := by
  have hi : skipTrivia fuel (Input.shift i.pos ⟨i.rest, 0⟩) broken = _ := skipTrivia_shift h h
  have hj : skipTrivia fuel' (Input.shift j.pos ⟨i.rest, 0⟩) broken = _ := skipTrivia_shift h h'
  rw [i.eq_shift, j.eq_shift, hrest, hi, hj]
  simp [Function.comp_def]

theorem readToken_congr (hrest : j.rest = i.rest) (h : i.rest.length < fuel)
    (h' : i.rest.length < fuel') :
    (readToken fuel' j).1 = (readToken fuel i).1 ∧
      (readToken fuel' j).2.rest = (readToken fuel i).2.rest := by
  have hi : readToken fuel (Input.shift i.pos ⟨i.rest, 0⟩) = _ := readToken_shift h h
  have hj : readToken fuel' (Input.shift j.pos ⟨i.rest, 0⟩) = _ := readToken_shift h h'
  rw [i.eq_shift, j.eq_shift, hrest, hi, hj]
  exact ⟨rfl, rfl⟩

end

/-! ### Trees further on -/

mutual

/-- The same tree, wherever it stands. -/
def Node.alike : Node → Node → Bool
  | .mk kind _ cs, .mk kind' _ cs' => kind == kind' && alikeAll cs cs'

def alikeAll : List Node → List Node → Bool
  | [], [] => true
  | n :: ns, m :: ms => n.alike m && alikeAll ns ms
  | _, _ => false

end

mutual

theorem Node.alike_shift (offset : Nat) : ∀ n : Node, n.alike (n.shift offset) = true
  | .mk kind span cs => by
    simp only [Node.shift, Node.alike, beq_self_eq_true, Bool.true_and, alikeAll_shiftAll offset cs]

theorem alikeAll_shiftAll (offset : Nat) : ∀ ns : List Node,
    alikeAll ns (Node.shiftAll offset ns) = true
  | [] => rfl
  | n :: ns => by
    simp only [Node.shiftAll, alikeAll, n.alike_shift offset, alikeAll_shiftAll offset ns,
      Bool.and_self]

end

end Phrasebook.Script
