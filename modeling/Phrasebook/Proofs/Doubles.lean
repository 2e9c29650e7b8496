import Mathlib.Data.Nat.Prime.Basic
import Mathlib.Tactic.Ring
import Phrasebook.Decimal.Scaled

/-!
Whole numbers as doubles. A whole number becomes a double by rounding to 53 bits, and the numbers
that become the same double are those in the interval around it.
-/
namespace Phrasebook.Decimal

/-! ### Rounding -/

/-- Rounding gives the nearest number, and of two the even one. -/
theorem Fraction.round_eq_iff {f : Fraction} (hden : 0 < f.den) {m : Nat} :
    f.round = m ↔ 2 * (m * f.den) ≤ 2 * f.num + f.den ∧ 2 * f.num ≤ 2 * (m * f.den) + f.den ∧
      (2 * (m * f.den) = 2 * f.num + f.den ∨ 2 * f.num = 2 * (m * f.den) + f.den → m % 2 = 0) := by
  obtain ⟨num, den⟩ := f
  simp only at hden ⊢
  have hnum := Nat.div_add_mod num den
  have hmod := Nat.mod_lt num hden
  simp only [round]
  generalize num / den = q at hnum
  generalize num % den = r at hnum hmod
  constructor
  · intro h
    have hm : m = q ∨ m = q + 1 := by split_ifs at h <;> omega
    rcases hm with rfl | rfl
    · have : m * den = den * m := Nat.mul_comm ..
      split_ifs at h <;> omega
    · have : (q + 1) * den = den * q + den := by ring
      split_ifs at h <;> omega
  · rintro ⟨hlo, hhi, htie⟩
    have hm : m = q ∨ m = q + 1 := by
      have hge : q ≤ m := by
        by_contra hlt
        have : (m + 1) * den ≤ q * den := Nat.mul_le_mul_right _ (by omega)
        have : q * den = den * q := Nat.mul_comm ..
        have : (m + 1) * den = m * den + den := by ring
        omega
      have hle : m ≤ q + 1 := by
        by_contra hlt
        have : (q + 2) * den ≤ m * den := Nat.mul_le_mul_right _ (by omega)
        have : (q + 2) * den = den * q + 2 * den := by ring
        omega
      omega
    rcases hm with rfl | rfl
    · have : m * den = den * m := Nat.mul_comm ..
      split_ifs <;> omega
    · have : (q + 1) * den = den * q + den := by ring
      split_ifs <;> omega

/-- A whole number shifted by a whole number of bits. -/
theorem Fraction.shift_natCast (a b k : Nat) : Fraction.shift ⟨a, b⟩ k = ⟨a * 2 ^ k, b⟩ := by
  simp [shift]

theorem Fraction.shift_neg_natCast (a b k : Nat) :
    Fraction.shift ⟨a, b⟩ (-k) = ⟨a, b * 2 ^ k⟩ := by
  cases k with
  | zero => simp [shift]
  | succ k =>
    have hneg : ¬0 ≤ -((k + 1 : Nat) : Int) := by omega
    rw [shift, if_neg hneg]
    rfl

/-- The first guess at the exponent always leaves a bit too many. -/
theorem two_pow_le_quotient {n : Nat} (hn : n ≠ 0) :
    2 ^ 53 ≤ (Fraction.shift ⟨n, 1⟩ (53 - (n.log2 : Int))).num /
      (Fraction.shift ⟨n, 1⟩ (53 - (n.log2 : Int))).den := by
  have hlow := Nat.log2_self_le hn
  rcases Nat.le_total n.log2 53 with hle | hle
  · obtain ⟨k, hk⟩ := Nat.exists_eq_add_of_le hle
    have hexp : (53 : Int) - n.log2 = k := by omega
    rw [hexp, Fraction.shift_natCast, Nat.div_one, hk, Nat.pow_add]
    exact Nat.mul_le_mul_right _ hlow
  · obtain ⟨k, hk⟩ := Nat.exists_eq_add_of_le hle
    have hexp : (53 : Int) - n.log2 = -(k : Int) := by omega
    rw [hexp, Fraction.shift_neg_natCast, Nat.one_mul, Nat.le_div_iff_mul_le (Nat.two_pow_pos k),
      ← Nat.pow_add, ← hk]
    exact hlow

theorem Double.ofNat_eq_toDouble {n : Nat} (hn : n ≠ 0) :
    Double.ofNat n = Fraction.toDouble ⟨n, 1⟩ := by
  have hscale : ¬(0 : Int) < -800 - (n.log2 : Int) := by omega
  rw [ofNat, Written.toDouble, if_neg hn, if_neg (show ¬(400 : Int) < 0 by decide), if_neg hscale,
    Written.fraction, if_pos (Int.le_refl 0)]
  exact congrArg (fun k => Fraction.toDouble ⟨k, 1⟩) (Nat.mul_one n)

/-- A whole number is rounded to its first 53 bits, and may get one more by that. -/
theorem Double.ofNat_eq {n : Nat} (hn : n ≠ 0) :
    Double.ofNat n =
      let e : Int := n.log2 - 52
      let m := (Fraction.shift ⟨n, 1⟩ (-e)).round
      let (m, e) := if m = 2 ^ 53 then (2 ^ 52, e + 1) else (m, e)
      if m = 0 then .zero else if highestExponent < e then .infinite else .finite m e := by
  have hguess : -((n.log2 : Int) - (Nat.log2 1 : Int) - 53) = 53 - n.log2 := by
    have hlog : Nat.log2 1 = 0 := by decide
    omega
  have hexponent : max lowestExponent ((n.log2 : Int) - (Nat.log2 1 : Int) - 53 + 1) =
      n.log2 - 52 := by
    have hlog : Nat.log2 1 = 0 := by decide
    unfold lowestExponent
    omega
  rw [ofNat_eq_toDouble hn, Fraction.toDouble, if_neg hn]
  simp only [hguess, Nat.pow_eq, two_pow_le_quotient hn, if_true, hexponent]

/-- Up to 53 bits a whole number is a double itself. -/
theorem Double.ofNat_small {n : Nat} (hn : n ≠ 0) (hlt : n < 2 ^ 53) :
    Double.ofNat n = .finite (n * 2 ^ (52 - n.log2)) (n.log2 - 52) := by
  have hlog : n.log2 ≤ 52 := Nat.lt_succ_iff.mp ((Nat.log2_lt hn).mpr hlt)
  obtain ⟨k, hk⟩ := Nat.exists_eq_add_of_le hlog
  have hexp : -((n.log2 : Int) - 52) = k := by omega
  have hsub : 52 - n.log2 = k := by omega
  have hround : (Fraction.shift ⟨n, 1⟩ (-((n.log2 : Int) - 52))).round = n * 2 ^ k := by
    rw [hexp, Fraction.shift_natCast, Fraction.round_eq_iff Nat.one_pos]
    simp
  have hbits : n * 2 ^ k < 2 ^ 53 := by
    have hself : n < 2 ^ (n.log2 + 1) := Nat.lt_log2_self
    have hpow : 2 ^ (n.log2 + 1) * 2 ^ k = 2 ^ 53 := by
      rw [← Nat.pow_add]
      congr 1
      omega
    rw [← hpow]
    exact Nat.mul_lt_mul_of_pos_right hself (Nat.two_pow_pos k)
  have hne : n * 2 ^ k ≠ 0 := Nat.mul_ne_zero hn (Nat.two_pow_pos k).ne'
  have hexponent : ¬highestExponent < (n.log2 : Int) - 52 := by
    unfold highestExponent
    omega
  rw [ofNat_eq hn]
  simp only [hround, hsub, if_neg hbits.ne, if_neg hne, if_neg hexponent]

/-- Past 53 bits the rest is rounded off. -/
theorem Double.ofNat_large {n k : Nat} (hlo : 2 ^ 52 * 2 ^ k ≤ n) (hhi : n < 2 ^ 53 * 2 ^ k) :
    Double.ofNat n =
      if Fraction.round ⟨n, 2 ^ k⟩ = 2 ^ 53 then
        if highestExponent < (k : Int) + 1 then .infinite else .finite (2 ^ 52) (k + 1)
      else if highestExponent < (k : Int) then .infinite
      else .finite (Fraction.round ⟨n, 2 ^ k⟩) k := by
  have hunit := Nat.two_pow_pos k
  have hn : n ≠ 0 := by
    rintro rfl
    omega
  have hlog : n.log2 = 52 + k := by
    rw [Nat.log2_eq_iff hn, Nat.pow_add]
    refine ⟨hlo, ?_⟩
    rw [show 52 + k + 1 = 53 + k by omega, Nat.pow_add]
    exact hhi
  have hexponent : (n.log2 : Int) - 52 = k := by omega
  have hshift : Fraction.shift ⟨n, 1⟩ (-(k : Int)) = ⟨n, 2 ^ k⟩ := by
    rw [Fraction.shift_neg_natCast, Nat.one_mul]
  have hround : Fraction.round ⟨n, 2 ^ k⟩ ≠ 0 := by
    intro hzero
    obtain ⟨-, hle, -⟩ := (Fraction.round_eq_iff hunit).mp hzero
    simp only at hle
    omega
  rw [ofNat_eq hn]
  simp only [hexponent, hshift]
  split_ifs <;> simp_all

/-! ### The interval around a double -/

/-- The interval around a large double in whole numbers: half a unit to both sides, or a quarter
below a power of two, and its ends if the mantissa is even. -/
theorem contains_rounding {m k n : Nat} (hm : 0 < m) :
    (rounding m k).contains ⟨n, 1⟩ = true ↔
      (if m = 2 ^ 52 then 4 * (m * 2 ^ k) ≤ 4 * n + 2 ^ k
        else if m % 2 = 0 then 2 * (m * 2 ^ k) ≤ 2 * n + 2 ^ k
        else 2 * (m * 2 ^ k) < 2 * n + 2 ^ k) ∧
      (if m % 2 = 0 then 2 * n ≤ 2 * (m * 2 ^ k) + 2 ^ k else 2 * n < 2 * (m * 2 ^ k) + 2 ^ k) := by
  have hlowest : lowestExponent < (k : Int) := by
    unfold lowestExponent
    omega
  have hfour : (4 * m - 1) * 2 ^ k + 2 ^ k = 4 * (m * 2 ^ k) := by
    obtain ⟨p, rfl⟩ := Nat.exists_eq_add_of_le' hm
    have : 4 * (p + 1) - 1 = 4 * p + 3 := by omega
    rw [this]
    ring
  have htwo : (2 * m - 1) * 2 ^ k + 2 ^ k = 2 * (m * 2 ^ k) := by
    obtain ⟨p, rfl⟩ := Nat.exists_eq_add_of_le' hm
    have : 2 * (p + 1) - 1 = 2 * p + 1 := by omega
    rw [this]
    ring
  have hup : (2 * m + 1) * 2 ^ k = 2 * (m * 2 ^ k) + 2 ^ k := by ring
  have heven : (2 ^ 52) % 2 = 0 := by decide
  simp only [Interval.contains, rounding, Nat.pow_eq, hlowest, and_true, Fraction.shift_natCast,
    decide_eq_true_eq]
  by_cases hpow : m = 2 ^ 52
  · subst hpow
    simp only [if_true, heven, Fraction.le, Bool.and_eq_true, decide_eq_true_eq]
    omega
  · by_cases hparity : m % 2 = 0
    · simp only [if_neg hpow, if_pos hparity, Fraction.le, Bool.and_eq_true, decide_eq_true_eq]
      omega
    · simp only [if_neg hpow, if_neg hparity, Fraction.lt, Bool.and_eq_true, decide_eq_true_eq]
      omega

/-- Where the first 53 bits of a large number end. -/
theorem exists_unit {n : Nat} (hn : 2 ^ 53 ≤ n) :
    ∃ k, 0 < k ∧ 2 ^ 52 * 2 ^ k ≤ n ∧ n < 2 ^ 53 * 2 ^ k := by
  have hne : n ≠ 0 := by
    rintro rfl
    omega
  have hlog : 53 ≤ n.log2 := (Nat.le_log2 hne).mpr hn
  obtain ⟨k, hk⟩ := Nat.exists_eq_add_of_le (show 52 ≤ n.log2 by omega)
  refine ⟨k, by omega, ?_, ?_⟩
  · rw [← Nat.pow_add, ← hk]
    exact Nat.log2_self_le hne
  · rw [← Nat.pow_add, show 53 + k = n.log2 + 1 by omega]
    exact Nat.lt_log2_self

/-- What a large double is read from lies in its interval. -/
theorem contains_of_ofNat {m k n : Nat} (hk : 0 < k) (hn : n ≠ 0)
    (h : Double.ofNat n = .finite m k) : (rounding m k).contains ⟨n, 1⟩ = true := by
  have hlarge : 2 ^ 53 ≤ n := by
    by_contra hlt
    rw [Double.ofNat_small hn (by omega)] at h
    have hlog : n.log2 < 53 := (Nat.log2_lt hn).mpr (by omega)
    injection h with _ hexp
    omega
  obtain ⟨j, -, hlo, hhi⟩ := exists_unit hlarge
  have hunit := Nat.two_pow_pos j
  rw [Double.ofNat_large hlo hhi] at h
  split_ifs at h with hcarry
  · obtain ⟨hbelow, -, -⟩ := (Fraction.round_eq_iff hunit).mp hcarry
    injection h with hm hexp
    obtain rfl : k = j + 1 := by omega
    subst hm
    have hdouble : 2 ^ (j + 1) = 2 * 2 ^ j := by ring
    rw [contains_rounding (by decide), hdouble, if_pos rfl, if_pos (by decide)]
    simp only at hbelow
    omega
  · injection h with hm hexp
    obtain rfl : k = j := by omega
    obtain ⟨hbelow, habove, htie⟩ := (Fraction.round_eq_iff hunit).mp hm
    simp only at hbelow habove htie
    have hpos : 0 < m := by
      by_contra hzero
      obtain rfl : m = 0 := by omega
      omega
    rw [contains_rounding hpos]
    refine ⟨?_, ?_⟩
    · split_ifs with hpow heven
      · rw [hpow]
        omega
      · exact hbelow
      · exact lt_of_le_of_ne hbelow fun heq => heven (htie (.inl heq))
    · split_ifs with heven
      · exact habove
      · exact lt_of_le_of_ne habove fun heq => heven (htie (.inr heq))

/-- Every whole number in the interval of a large double is read as it. -/
theorem ofNat_of_contains {m k n : Nat} (hlo : 2 ^ 52 ≤ m) (hhi : m < 2 ^ 53) (hk : 0 < k)
    (hmax : (k : Int) ≤ highestExponent) (h : (rounding m k).contains ⟨n, 1⟩ = true) :
    Double.ofNat n = .finite m k := by
  rw [contains_rounding (by omega)] at h
  obtain ⟨hbelow, habove⟩ := h
  have hunit := Nat.two_pow_pos k
  have hmunit : m * 2 ^ k ≤ (2 ^ 53 - 1) * 2 ^ k := Nat.mul_le_mul_right _ (by omega)
  have hupper : n < 2 ^ 53 * 2 ^ k := by split_ifs at habove <;> omega
  rcases Nat.lt_or_ge n (2 ^ 52 * 2 ^ k) with hless | hfull
  · -- Below the power of two the unit is half as large, and rounding leads back up to it.
    have hpow : m = 2 ^ 52 := by
      by_contra hne
      have hmore : (2 ^ 52 + 1) * 2 ^ k ≤ m * 2 ^ k := Nat.mul_le_mul_right _ (by omega)
      rw [if_neg hne] at hbelow
      split_ifs at hbelow <;> omega
    subst hpow
    rw [if_pos rfl] at hbelow
    obtain ⟨j, rfl⟩ := Nat.exists_eq_add_of_le' hk
    have hdouble : 2 ^ (j + 1) = 2 * 2 ^ j := by ring
    rw [hdouble] at hbelow hless hupper
    have hcarry : Fraction.round ⟨n, 2 ^ j⟩ = 2 ^ 53 := by
      rw [Fraction.round_eq_iff (Nat.two_pow_pos j)]
      simp only
      omega
    have hfits : ¬highestExponent < (j : Int) + 1 := by omega
    rw [Double.ofNat_large (k := j) (by omega) (by omega), if_pos hcarry, if_neg hfits]
    rfl
  · have hround : Fraction.round ⟨n, 2 ^ k⟩ = m := by
      rw [Fraction.round_eq_iff hunit]
      simp only
      by_cases heven : m % 2 = 0
      · rw [if_pos heven] at habove
        refine ⟨?_, habove, fun _ => heven⟩
        split_ifs at hbelow with hpow
        · rw [hpow]
          omega
        · exact hbelow
      · have hodd : m ≠ 2 ^ 52 := by
          rintro rfl
          exact heven (by decide)
        rw [if_neg hodd, if_neg heven] at hbelow
        rw [if_neg heven] at habove
        omega
    rw [Double.ofNat_large hfull hupper, hround, if_neg hhi.ne, if_neg (by omega)]

/-! ### Doubles that are whole numbers -/

/-- The double `m · 2 ^ e` is the whole number `v`. It is read from the whole numbers in its
interval, and what differs from it by half of the seventeenth digit or less is one of them. -/
structure Whole (m : Nat) (e : Int) (v : Nat) : Prop where
  pos : 0 < v
  fraction : ∃ den, 0 < den ∧ Fraction.shift ⟨m, 1⟩ e = ⟨v * den, den⟩
  reads : ∀ n, n ≠ 0 → (Double.ofNat n = .finite m e ↔ (rounding m e).contains ⟨n, 1⟩ = true)
  self : (rounding m e).contains ⟨v, 1⟩ = true
  precise : ∀ n, 2 * 10 ^ 16 * (v - n) ≤ v → 2 * 10 ^ 16 * (n - v) ≤ v →
    (rounding m e).contains ⟨n, 1⟩ = true
  /-- It is not halfway between two numbers with the same number of zeros at the end. -/
  noTie : ∀ c j, (rounding m e).contains ⟨(c + 1) * 10 ^ j, 1⟩ = true →
    2 * v ≠ (2 * c + 1) * 10 ^ j

/-- The interval of a number of at most 53 bits holds no other whole number. -/
theorem contains_small {n k p : Nat} (hn : n ≠ 0) :
    (rounding (n * 2 ^ k) (-k)).contains ⟨p, 1⟩ = true ↔ p = n := by
  have hunit := Nat.two_pow_pos k
  have hpos : 0 < n * 2 ^ k := Nat.mul_pos (Nat.pos_of_ne_zero hn) hunit
  have hless : p < n → p * 2 ^ k + 2 ^ k ≤ n * 2 ^ k := fun h => by
    have := Nat.mul_le_mul_right (2 ^ k) h
    rwa [Nat.succ_mul] at this
  have hmore : n < p → n * 2 ^ k + 2 ^ k ≤ p * 2 ^ k := fun h => by
    have := Nat.mul_le_mul_right (2 ^ k) h
    rwa [Nat.succ_mul] at this
  have hequal : p = n → p * 2 ^ k = n * 2 ^ k := fun h => by rw [h]
  have htwo : p * (2 * 2 ^ k) = 2 * (p * 2 ^ k) := by ring
  have hfour : p * (4 * 2 ^ k) = 4 * (p * 2 ^ k) := by ring
  simp only [Interval.contains, rounding, Fraction.shift_neg_natCast, decide_eq_true_eq]
  generalize n * 2 ^ k = m at *
  generalize p * 2 ^ k = q at *
  split_ifs <;>
    simp only [Fraction.le, Fraction.lt, Bool.and_eq_true, decide_eq_true_eq, htwo, hfour] <;>
    omega

theorem whole_small {n : Nat} (hn : n ≠ 0) (hlt : n < 2 ^ 53) :
    Whole (n * 2 ^ (52 - n.log2)) ((n.log2 : Int) - 52) n := by
  have hlog : n.log2 < 53 := (Nat.log2_lt hn).mpr hlt
  obtain ⟨k, hk⟩ := Nat.exists_eq_add_of_le (show n.log2 ≤ 52 by omega)
  have hexp : (n.log2 : Int) - 52 = -k := by omega
  have hsub : 52 - n.log2 = k := by omega
  have hread := Double.ofNat_small hn hlt
  rw [hexp, hsub] at hread ⊢
  refine ⟨Nat.pos_of_ne_zero hn, ⟨2 ^ k, Nat.two_pow_pos k, ?_⟩, ?_, ?_, ?_, ?_⟩
  · rw [Fraction.shift_neg_natCast, Nat.one_mul]
  · intro p hp
    rw [contains_small hn]
    refine ⟨?_, fun h => by rw [h, hread]⟩
    intro h
    rcases Nat.lt_or_ge p (2 ^ 53) with hsmall | hlarge
    · rw [Double.ofNat_small hp hsmall] at h
      have hplog : p.log2 < 53 := (Nat.log2_lt hp).mpr hsmall
      injection h with hm he
      have hshift : 52 - p.log2 = k := by omega
      rw [hshift] at hm
      exact Nat.eq_of_mul_eq_mul_right (Nat.two_pow_pos k) hm
    · obtain ⟨j, hj, hlo, hhi⟩ := exists_unit hlarge
      rw [Double.ofNat_large hlo hhi] at h
      split_ifs at h
      · injection h with _ he
        omega
      · injection h with _ he
        omega
  · exact (contains_small hn).mpr rfl
  · intro p hbelow habove
    rw [contains_small hn]
    omega
  · intro c j hc
    rw [contains_small hn] at hc
    rw [← hc]
    intro heq
    have hpos : 0 < 10 ^ j := Nat.pow_pos (by decide)
    have : 2 * ((c + 1) * 10 ^ j) = (2 * c + 1) * 10 ^ j + 10 ^ j := by ring
    omega

theorem whole_large {m k : Nat} (hlo : 2 ^ 52 ≤ m) (hhi : m < 2 ^ 53) (hk : 0 < k)
    (hmax : (k : Int) ≤ highestExponent) : Whole m k (m * 2 ^ k) := by
  have hunit := Nat.two_pow_pos k
  have hmpos : 0 < m := by omega
  have hle : m * 2 ^ k ≤ (2 ^ 53 - 1) * 2 ^ k := Nat.mul_le_mul_right _ (by omega)
  refine ⟨Nat.mul_pos hmpos hunit, ⟨1, Nat.one_pos, ?_⟩, ?_, ?_, ?_, ?_⟩
  · rw [Fraction.shift_natCast, Nat.mul_one]
  · intro n hn
    exact ⟨contains_of_ofNat hk hn, ofNat_of_contains hlo hhi hk hmax⟩
  · rw [contains_rounding hmpos]
    split_ifs <;> omega
  · intro n hbelow habove
    rw [contains_rounding hmpos]
    by_cases hpow : m = 2 ^ 52
    · rw [hpow] at hbelow habove ⊢
      simp only [if_true, show 2 ^ 52 % 2 = 0 by decide]
      omega
    · rw [if_neg hpow]
      split_ifs <;> omega
  · intro c j hc heq
    obtain ⟨-, habove⟩ := (contains_rounding hmpos).mp hc
    have hstep : 2 * ((c + 1) * 10 ^ j) = (2 * c + 1) * 10 ^ j + 10 ^ j := by ring
    have hpower : 10 ^ j ≤ 2 ^ k := by split_ifs at habove <;> omega
    -- The power of two in the double is larger than that in the number of zeros.
    have hfactor : (2 * c + 1) * 5 ^ j * 2 ^ j = m * 2 ^ (k + 1) := by
      have hten : (10 : Nat) ^ j = 5 ^ j * 2 ^ j := by rw [← Nat.mul_pow]
      rw [Nat.mul_assoc, ← hten, ← heq]
      ring
    have hodd : Nat.Coprime (2 ^ (k + 1)) ((2 * c + 1) * 5 ^ j) := by
      refine Nat.Coprime.pow_left _ (Nat.Coprime.mul_right ?_ (Nat.Coprime.pow_right _ (by decide)))
      rw [Nat.coprime_two_left, Nat.odd_iff]
      omega
    have hdvd : 2 ^ (k + 1) ∣ 2 ^ j :=
      hodd.dvd_of_dvd_mul_left (hfactor ▸ Nat.dvd_mul_left _ _)
    have htwo : 2 ^ (k + 1) ≤ 2 ^ j := Nat.le_of_dvd (Nat.two_pow_pos j) hdvd
    have hten : 2 ^ j ≤ 10 ^ j := Nat.pow_le_pow_left (by decide) j
    have hdouble : 2 ^ (k + 1) = 2 * 2 ^ k := by ring
    omega

/-- A double that a whole number is read as is a whole number. -/
theorem exists_whole {n m : Nat} {e : Int} (hn : n ≠ 0) (h : Double.ofNat n = .finite m e) :
    ∃ v, Whole m e v := by
  rcases Nat.lt_or_ge n (2 ^ 53) with hsmall | hlarge
  · rw [Double.ofNat_small hn hsmall] at h
    injection h with hm he
    rw [← hm, ← he]
    exact ⟨n, whole_small hn hsmall⟩
  · obtain ⟨k, hk, hlo, hhi⟩ := exists_unit hlarge
    have hunit := Nat.two_pow_pos k
    rw [Double.ofNat_large hlo hhi] at h
    split_ifs at h with hcarry hmax hmax
    · injection h with hm he
      rw [← hm, ← he]
      exact ⟨_, whole_large (k := k + 1) (by decide) (by decide) (by omega) (by omega)⟩
    · injection h with hm he
      obtain ⟨hbelow, habove, -⟩ := (Fraction.round_eq_iff hunit).mp hm
      simp only at hbelow habove
      have hmlo : 2 ^ 52 ≤ m := by
        by_contra hlt
        have : m * 2 ^ k ≤ (2 ^ 52 - 1) * 2 ^ k := Nat.mul_le_mul_right _ (by omega)
        omega
      have hmhi : m < 2 ^ 53 := by
        by_contra hge
        have : (2 ^ 53 + 1) * 2 ^ k ≤ m * 2 ^ k :=
          Nat.mul_le_mul_right _ (Nat.succ_le_of_lt (lt_of_le_of_ne (by omega) (by omega)))
        omega
      rw [← he]
      exact ⟨_, whole_large hmlo hmhi hk (by omega)⟩

theorem Double.exists_finite {n : Nat} (hn : n ≠ 0) (hlt : n < 10 ^ 21) :
    ∃ m e, Double.ofNat n = .finite m e := by
  rcases Nat.lt_or_ge n (2 ^ 53) with hsmall | hlarge
  · exact ⟨_, _, Double.ofNat_small hn hsmall⟩
  · obtain ⟨k, -, hlo, hhi⟩ := exists_unit hlarge
    have hk : k < 70 := by
      refine (Nat.pow_lt_pow_iff_right (a := 2) (by decide)).mp ?_
      omega
    have hmax : ¬highestExponent < (k : Int) + 1 := by
      unfold highestExponent
      omega
    rw [Double.ofNat_large hlo hhi]
    split_ifs with hcarry hover
    · exact ⟨_, _, rfl⟩
    · exact absurd hover (by omega)
    · exact ⟨_, _, rfl⟩

theorem Double.ofNat_ne_zero {n : Nat} (hn : n ≠ 0) : Double.ofNat n ≠ .zero := by
  rcases Nat.lt_or_ge n (2 ^ 53) with hsmall | hlarge
  · rw [Double.ofNat_small hn hsmall]
    exact Double.noConfusion
  · obtain ⟨k, -, hlo, hhi⟩ := exists_unit hlarge
    rw [Double.ofNat_large hlo hhi]
    split_ifs <;> exact Double.noConfusion

/-- Nothing else is read as the double of a number of at most 53 bits. -/
theorem Double.eq_of_ofNat_eq {n p : Nat} (hlt : n < 2 ^ 53) (h : Double.ofNat p = Double.ofNat n) :
    p = n := by
  by_cases hp : p = 0
  · subst hp
    by_contra hn
    exact Double.ofNat_ne_zero (Ne.symm hn) h.symm
  · have hn : n ≠ 0 := by
      rintro rfl
      exact Double.ofNat_ne_zero hp h
    have hlog : n.log2 < 53 := (Nat.log2_lt hn).mpr hlt
    have hexp : (n.log2 : Int) - 52 = -(52 - n.log2 : Nat) := by omega
    have hwithin := ((whole_small hn hlt).reads p hp).mp (h.trans (Double.ofNat_small hn hlt))
    rw [hexp] at hwithin
    exact (contains_small hn).mp hwithin

end Phrasebook.Decimal
