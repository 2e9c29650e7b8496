import Phrasebook.Text.Target

/-!
Letters and digits by the ranges of their codes, and names that are made of them.
-/
namespace Phrasebook.Text

/-! ### Letters and digits -/

variable {c : Char}

theorem isUpper_iff : c.isUpper = true ↔ 0x41 ≤ c.toNat ∧ c.toNat ≤ 0x5a := decide_eq_true_iff

theorem isLower_iff : c.isLower = true ↔ 0x61 ≤ c.toNat ∧ c.toNat ≤ 0x7a :=
  Bool.and_eq_true_iff.trans (and_congr decide_eq_true_iff decide_eq_true_iff)

theorem isDigit_iff : c.isDigit = true ↔ 0x30 ≤ c.toNat ∧ c.toNat ≤ 0x39 :=
  Bool.and_eq_true_iff.trans (and_congr decide_eq_true_iff decide_eq_true_iff)

theorem isAlphanum_iff : c.isAlphanum = true ↔
    (0x41 ≤ c.toNat ∧ c.toNat ≤ 0x5a) ∨ (0x61 ≤ c.toNat ∧ c.toNat ≤ 0x7a) ∨
      (0x30 ≤ c.toNat ∧ c.toNat ≤ 0x39) := by
  rw [← isUpper_iff, ← isLower_iff, ← isDigit_iff, ← or_assoc]
  exact Bool.or_eq_true_iff.trans (or_congr_left Bool.or_eq_true_iff)

theorem toNat_toLower (h : c.isUpper = true) : c.toLower.toNat = c.toNat + 0x20 := by
  have hrange := isUpper_iff.mp h
  have hval : c.toLower = ⟨c.val + 0x20, _⟩ := dif_pos hrange
  rw [hval]
  exact (UInt32.toNat_add _ _).trans (Nat.mod_eq_of_lt (by simp; omega))

theorem toLower_of_not_isUpper (h : c.isUpper = false) : c.toLower = c :=
  dif_neg fun hrange => Bool.false_ne_true (h.symm.trans (isUpper_iff.mpr hrange))

theorem toNat_toUpper (h : c.isLower = true) : c.toUpper.toNat = c.toNat - 0x20 := by
  have hrange := isLower_iff.mp h
  have hval : c.toUpper = ⟨c.val + ('A'.val - 'a'.val), _⟩ := dif_pos hrange
  have hstep : ('A'.val - 'a'.val).toNat = 2 ^ 32 - 0x20 := by decide
  have hsum : c.toUpper.toNat = (c.toNat + ('A'.val - 'a'.val).toNat) % 2 ^ 32 := by
    rw [hval]
    exact UInt32.toNat_add _ _
  rw [hsum, hstep]
  omega

theorem toUpper_of_not_isLower (h : c.isLower = false) : c.toUpper = c :=
  dif_neg fun hrange => Bool.false_ne_true (h.symm.trans (isLower_iff.mpr hrange))

theorem isUpper_toLower (c : Char) : c.toLower.isUpper = false := by
  cases h : c.isUpper with
  | false => rw [toLower_of_not_isUpper h, h]
  | true =>
    have hrange := isUpper_iff.mp h
    rw [Bool.eq_false_iff, ne_eq, isUpper_iff, toNat_toLower h]
    omega

theorem isAlphanum_toLower (h : c.isAlphanum = true) : c.toLower.isAlphanum = true := by
  cases hupper : c.isUpper with
  | false => rwa [toLower_of_not_isUpper hupper]
  | true =>
    have hrange := isUpper_iff.mp hupper
    rw [isAlphanum_iff, toNat_toLower hupper]
    omega

theorem isAlphanum_toUpper (h : c.isAlphanum = true) : c.toUpper.isAlphanum = true := by
  cases hlower : c.isLower with
  | false => rwa [toUpper_of_not_isLower hlower]
  | true =>
    have hrange := isLower_iff.mp hlower
    rw [isAlphanum_iff, toNat_toUpper hlower]
    omega

/-! ### Names in lower camel case -/

theorem all_isAlphanum_camelFrom (started raised : Bool) (cs : List Char) :
    (camelFrom started raised cs).all Char.isAlphanum = true := by
  induction cs generalizing started raised with
  | nil => rfl
  | cons c cs ih =>
    unfold camelFrom
    split
    · exact ih started started
    · rename_i hc
      rw [Bool.not_eq_true, Bool.not_eq_false'] at hc
      split
      · rw [List.all_cons, isAlphanum_toLower hc, ih, Bool.and_self]
      · split
        · rw [List.all_cons, isAlphanum_toUpper hc, ih, Bool.and_self]
        · rw [List.all_cons, hc, ih, Bool.and_self]

theorem head?_camelFrom_not_isUpper (raised : Bool) (cs : List Char) :
    (camelFrom false raised cs).head?.any Char.isUpper = false := by
  induction cs generalizing raised with
  | nil => rfl
  | cons c cs ih =>
    unfold camelFrom
    split
    · exact ih false
    · exact isUpper_toLower c

/-- Inside a word nothing changes. -/
theorem camelFrom_of_isAlphanum {cs : List Char} (h : cs.all Char.isAlphanum = true) :
    camelFrom true false cs = cs := by
  induction cs with
  | nil => rfl
  | cons c cs ih =>
    rw [List.all_cons, Bool.and_eq_true] at h
    simp [camelFrom, h.1, ih h.2]

theorem lowerCamel_plain (name : String) :
    (lowerCamel name).toList.all Char.isAlphanum = true ∧
      isComponentName (lowerCamel name) = false := by
  rw [isComponentName, lowerCamel, String.toList_ofList]
  exact ⟨all_isAlphanum_camelFrom .., head?_camelFrom_not_isUpper ..⟩

/-- Names in lower camel case are those of letters and digits that start with no capital. -/
theorem lowerCamel_eq_self_iff (name : String) :
    lowerCamel name = name ↔
      name.toList.all Char.isAlphanum = true ∧ isComponentName name = false := by
  constructor
  · intro h
    rw [← h]
    exact lowerCamel_plain name
  · rintro ⟨hall, hhead⟩
    refine String.toList_injective ?_
    rw [lowerCamel, String.toList_ofList]
    unfold isComponentName at hhead
    cases hcs : name.toList with
    | nil => rfl
    | cons c cs =>
      rw [hcs, List.all_cons, Bool.and_eq_true] at hall
      rw [hcs] at hhead
      have hlower : c.toLower = c := toLower_of_not_isUpper (by simpa using hhead)
      simp [camelFrom, hall.1, hlower, camelFrom_of_isAlphanum hall.2]

theorem lowerCamel_lowerCamel (name : String) : lowerCamel (lowerCamel name) = lowerCamel name :=
  (lowerCamel_eq_self_iff _).mpr (lowerCamel_plain name)

end Phrasebook.Text
