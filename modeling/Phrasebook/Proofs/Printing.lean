import Mathlib.Algebra.Order.Field.Rat
import Mathlib.Tactic.FieldSimp
import Mathlib.Tactic.Linarith
import Phrasebook.Proofs.Doubles

/-!
The text of a number that is whole. Of the whole numbers that are read as the same double, the one
that is printed needs the fewest digits before its zeros, and of these it is nearest to the double.
-/
namespace Phrasebook.Decimal

/-- The number is `k` digits or fewer with zeros after them. -/
def WrittenWith (n k : Nat) : Prop := ∃ s j, n = s * 10 ^ j ∧ s < 10 ^ k

def Fraction.value (f : Fraction) : ℚ := f.num / f.den

/-- The value of a finite double. -/
def Double.value (d : Double) : ℚ := (d.fraction?.map Fraction.value).getD 0

/-- The whole number `n`, of 21 digits or fewer, is what the double is printed as: it is read as the
double, with the fewest digits before its zeros, and no other number with so few is nearer. -/
structure Double.Prints (d : Double) (n : Nat) : Prop where
  plain : n < 10 ^ 21
  reads : Double.ofNat n = d
  shortest : ∃ k, WrittenWith n k ∧ ∀ p, Double.ofNat p = d →
    (∀ l, WrittenWith p l → k ≤ l) ∧ (WrittenWith p k → |d.value - n| ≤ |d.value - p|)

/-! ### Digits -/

theorem lt_pow_digitCount (n : Nat) : n < 10 ^ digitCount n :=
  (Nat.length_toDigits_le_iff (by decide) Nat.length_toDigits_pos).mp (Nat.le_refl _)

theorem pow_digitCount_le {n : Nat} (hn : n ≠ 0) : 10 ^ (digitCount n - 1) ≤ n := by
  by_contra hlt
  rcases Nat.eq_zero_or_pos (digitCount n - 1) with hzero | hpos
  · rw [hzero] at hlt
    omega
  · have hle : digitCount n ≤ digitCount n - 1 :=
      (Nat.length_toDigits_le_iff (by decide) hpos).mpr (by omega)
    omega

theorem writtenWith_digitCount (n : Nat) : WrittenWith n (digitCount n) :=
  ⟨n, 0, by simp, lt_pow_digitCount n⟩

theorem toDigits_mul_pow {n : Nat} (hn : n ≠ 0) (j : Nat) :
    Nat.toDigits 10 (n * 10 ^ j) = Nat.toDigits 10 n ++ List.replicate j '0' := by
  induction j with
  | zero => simp
  | succ j ih =>
    have hpos : 0 < n * 10 ^ j := Nat.mul_pos (Nat.pos_of_ne_zero hn) (Nat.pow_pos (by decide))
    have happend := Nat.toDigits_append_toDigits (b := 10) (d := 0) (by decide) hpos (by decide)
    have hnext : 10 * (n * 10 ^ j) + 0 = n * 10 ^ (j + 1) := by ring
    rw [hnext, ih] at happend
    rw [← happend, List.append_assoc, List.replicate_succ']
    rfl

/-- Zeros at the end of the digits can be divided off. -/
theorem pow_zeros_dvd (n : Nat) :
    10 ^ ((Nat.toDigits 10 n).reverse.takeWhile (· == '0')).length ∣ n := by
  have hdigit : ∀ r < 10, (Nat.digitChar r == '0') = (r == 0) := by decide
  induction n using Nat.strongRecOn with
  | ind n ih =>
    rcases Nat.lt_or_ge n 10 with hlt | hge
    · rw [Nat.toDigits_of_lt_base hlt]
      by_cases hzero : n = 0 <;> simp [hdigit n hlt, hzero]
    · have hrest := Nat.div_add_mod n 10
      rw [Nat.toDigits_of_base_le (by decide) hge, List.reverse_append, List.reverse_singleton,
        List.singleton_append, List.takeWhile_cons, hdigit _ (Nat.mod_lt n (by decide))]
      by_cases hzero : n % 10 = 0
      · obtain ⟨q, hq⟩ := ih (n / 10) (by omega)
        simp only [hzero, BEq.rfl, if_true, List.length_cons]
        refine ⟨q, ?_⟩
        calc n = 10 * (n / 10) := by omega
          _ = 10 * (_ * q) := congrArg (10 * ·) hq
          _ = _ := by rw [Nat.pow_succ]; ring
      · simp [hzero]

/-- A whole number is printed with all its zeros, wherever they are counted. -/
theorem Written.positional_reduced {c : Nat} (hc : c ≠ 0) (j : Nat) :
    (Written.reduced ⟨c, j⟩).positional = toString (c * 10 ^ j) := by
  obtain ⟨q, hq⟩ := pow_zeros_dvd c
  unfold reduced
  simp only [Nat.pow_eq]
  generalize ((Nat.toDigits 10 c).reverse.takeWhile (· == '0')).length = z at hq
  have hdiv : c / 10 ^ z = q := by
    rw [hq]
    exact Nat.mul_div_cancel_left _ (Nat.pow_pos (by decide))
  have hscale : (j : Int) + z = (j + z : Nat) := by omega
  have hq0 : q ≠ 0 := by
    rintro rfl
    exact hc hq
  have hvalue : c * 10 ^ j = q * 10 ^ (j + z) := by
    rw [hq]
    ring
  have hdigits := toDigits_mul_pow hq0 (j + z)
  rw [hdiv, hscale, hvalue]
  simp only [positional, Int.natCast_nonneg, if_true, Int.toNat_natCast, ← hdigits]
  rw [← Nat.toList_repr, String.ofList_toList]
  rfl

/-! ### The search for digits -/

theorem Interval.contains_between {i : Interval} {a n b : Nat} (ha : i.contains ⟨a, 1⟩ = true)
    (hb : i.contains ⟨b, 1⟩ = true) (han : a ≤ n) (hnb : n ≤ b) : i.contains ⟨n, 1⟩ = true := by
  have hlo : a * i.lo.den ≤ n * i.lo.den := Nat.mul_le_mul_right _ han
  have hhi : n * i.hi.den ≤ b * i.hi.den := Nat.mul_le_mul_right _ hnb
  unfold contains at ha hb ⊢
  split_ifs at ha hb ⊢ <;>
    simp only [Fraction.le, Fraction.lt, Bool.and_eq_true, decide_eq_true_eq] at ha hb ⊢ <;>
    omega

/-- With `p` of the digits of `v` there are two numbers to try, one on each side. -/
theorem nearestWith_eq (i : Interval) {v den p j : Nat} (hv : v ≠ 0) (hden : 0 < den)
    (hj : p + j = digitCount v) :
    nearestWith i ⟨v * den, den⟩ p =
      match i.contains ⟨v / 10 ^ j * 10 ^ j, 1⟩, i.contains ⟨(v / 10 ^ j + 1) * 10 ^ j, 1⟩ with
      | true, true =>
        if (v / 10 ^ j + 1) * 10 ^ j - v < v - v / 10 ^ j * 10 ^ j then some ⟨v / 10 ^ j + 1, j⟩
        else some ⟨v / 10 ^ j, j⟩
      | true, false => some ⟨v / 10 ^ j, j⟩
      | false, true => some ⟨v / 10 ^ j + 1, j⟩
      | false, false => none := by
  have hmagnitude : Fraction.magnitude ⟨v * den, den⟩ - ((p : Int) - 1) = j := by
    have hle : den ≤ v * den := Nat.le_mul_of_pos_left _ (Nat.pos_of_ne_zero hv)
    simp only [Fraction.magnitude, hle, if_true, Nat.mul_div_cancel _ hden]
    omega
  have hfraction : ∀ c, Written.fraction ⟨c, j⟩ = ⟨c * 10 ^ j, 1⟩ := by
    intro c
    simp [Written.fraction]
  have hquotient : v * den * 1 / (den * (1 * 10 ^ j)) = v / 10 ^ j := by
    rw [Nat.mul_one, Nat.one_mul, Nat.mul_comm v den, Nat.mul_div_mul_left _ _ hden]
  have hdistance : ∀ c, Fraction.distance ⟨v * den, den⟩ c j =
      ((v - c * 10 ^ j) + (c * 10 ^ j - v)) * den := by
    intro c
    simp only [Fraction.distance, hfraction, Nat.mul_one, Nat.add_mul, Nat.sub_mul]
  have hbelow : v / 10 ^ j * 10 ^ j - v = 0 := Nat.sub_eq_zero_of_le (Nat.div_mul_le_self v _)
  have habove : v - (v / 10 ^ j + 1) * 10 ^ j = 0 :=
    Nat.sub_eq_zero_of_le (Nat.lt_mul_of_div_lt (Nat.lt_succ_self _) (Nat.pow_pos (by decide))).le
  simp only [nearestWith, hmagnitude, hfraction, hquotient, hdistance]
  cases i.contains ⟨v / 10 ^ j * 10 ^ j, 1⟩ <;>
    cases i.contains ⟨(v / 10 ^ j + 1) * 10 ^ j, 1⟩ <;>
    simp only [hbelow, habove, Nat.zero_add, Nat.add_zero, Nat.mul_lt_mul_right hden]

/-- The number `n` with `k` digits is what the search around `v` has to find. -/
structure Picks (i : Interval) (v n k : Nat) : Prop where
  ne_zero : n ≠ 0
  within : i.contains ⟨n, 1⟩ = true
  written : WrittenWith n k
  fewest : ∀ p l, p ≠ 0 → i.contains ⟨p, 1⟩ = true → WrittenWith p l → k ≤ l
  nearest : ∀ p, p ≠ 0 → i.contains ⟨p, 1⟩ = true → WrittenWith p k →
    (v - n) + (n - v) ≤ (v - p) + (p - v)

section Search
variable {i : Interval} {v n k p j : Nat}

theorem div_pow_pos (hv : v ≠ 0) (hp : 0 < p) (hj : p + j = digitCount v) : 0 < v / 10 ^ j := by
  have hle : 10 ^ j ≤ v :=
    (Nat.pow_le_pow_right (by decide) (by omega)).trans (pow_digitCount_le hv)
  exact Nat.div_pos hle (Nat.pow_pos (by decide))

theorem writtenWith_below (hj : p + j = digitCount v) : WrittenWith (v / 10 ^ j * 10 ^ j) p := by
  refine ⟨_, _, rfl, (Nat.div_lt_iff_lt_mul (Nat.pow_pos (by decide))).mpr ?_⟩
  rw [← Nat.pow_add, hj]
  exact lt_pow_digitCount v

theorem writtenWith_above (hp : 0 < p) (hj : p + j = digitCount v) :
    WrittenWith ((v / 10 ^ j + 1) * 10 ^ j) p := by
  have hlt : v / 10 ^ j < 10 ^ p := by
    rw [Nat.div_lt_iff_lt_mul (Nat.pow_pos (by decide)), ← Nat.pow_add, hj]
    exact lt_pow_digitCount v
  rcases Nat.lt_or_ge (v / 10 ^ j + 1) (10 ^ p) with hless | hge
  · exact ⟨_, _, rfl, hless⟩
  · -- One more than all nines.
    have hround : v / 10 ^ j + 1 = 10 ^ p := by omega
    refine ⟨1, p + j, ?_, Nat.one_lt_pow (by omega) (by decide)⟩
    rw [hround, Nat.pow_add, Nat.one_mul]

theorem below_le (v j : Nat) : v / 10 ^ j * 10 ^ j ≤ v := Nat.div_mul_le_self v _

theorem lt_above (v j : Nat) : v < (v / 10 ^ j + 1) * 10 ^ j :=
  Nat.lt_mul_of_div_lt (Nat.lt_succ_self _) (Nat.pow_pos (by decide))

namespace Picks

theorem pos (h : Picks i v n k) : 0 < k := by
  rcases Nat.eq_zero_or_pos k with rfl | hpos
  · obtain ⟨s, j, hn, hs⟩ := h.written
    have : s = 0 := by omega
    exact absurd (by rw [hn, this, Nat.zero_mul]) h.ne_zero
  · exact hpos

theorem le_digitCount (h : Picks i v n k) (hv : v ≠ 0) (hself : i.contains ⟨v, 1⟩ = true) :
    k ≤ digitCount v :=
  h.fewest v _ hv hself (writtenWith_digitCount v)

/-- With fewer digits nothing is found. -/
theorem nearestWith_eq_none (h : Picks i v n k) {den : Nat} (hv : v ≠ 0) (hden : 0 < den)
    (hp : 0 < p) (hpk : p < k) (hj : p + j = digitCount v) :
    nearestWith i ⟨v * den, den⟩ p = none := by
  have hten : 0 < 10 ^ j := Nat.pow_pos (by decide)
  have hmissed : ∀ x, x ≠ 0 → WrittenWith x p → i.contains ⟨x, 1⟩ = false := by
    intro x hx hwritten
    rw [Bool.eq_false_iff]
    intro hwithin
    exact absurd (h.fewest x p hx hwithin hwritten) (by omega)
  have hbelow := hmissed _ (Nat.mul_pos (div_pow_pos hv hp hj) hten).ne' (writtenWith_below hj)
  have habove := hmissed _ (Nat.mul_pos (Nat.succ_pos _) hten).ne' (writtenWith_above hp hj)
  rw [nearestWith_eq i hv hden hj, hbelow, habove]

/-- The number has as many digits as `v`, or it is the next power of ten. -/
theorem exists_digits (h : Picks i v n k) (hv : v ≠ 0) (hself : i.contains ⟨v, 1⟩ = true)
    (hj : k + j = digitCount v) : ∃ t, n = t * 10 ^ j := by
  obtain ⟨s, z, hn, hs⟩ := h.written
  rcases Nat.lt_or_ge z j with hless | hge
  · -- Then it is below the power of ten that `v` starts with, which would be nearer.
    have hk := h.pos
    have hpower := pow_digitCount_le hv
    have hsmall : n < 10 ^ (digitCount v - 1) := by
      calc n = s * 10 ^ z := hn
        _ < 10 ^ k * 10 ^ z := Nat.mul_lt_mul_of_pos_right hs (Nat.pow_pos (by decide))
        _ = 10 ^ (k + z) := (Nat.pow_add 10 k z).symm
        _ ≤ 10 ^ (digitCount v - 1) := Nat.pow_le_pow_right (by decide) (by omega)
    have hnear := h.nearest _ (Nat.pow_pos (by decide)).ne'
      (Interval.contains_between h.within hself hsmall.le hpower)
      ⟨1, _, (Nat.one_mul _).symm, Nat.one_lt_pow hk.ne' (by decide)⟩
    omega
  · refine ⟨s * 10 ^ (z - j), ?_⟩
    rw [hn, Nat.mul_assoc, ← Nat.pow_add, Nat.sub_add_cancel hge]

/-- The number is one of the two that are tried. -/
theorem digits_cases (h : Picks i v n k) (hv : v ≠ 0) (hself : i.contains ⟨v, 1⟩ = true)
    (hj : k + j = digitCount v) :
    n = v / 10 ^ j * 10 ^ j ∨ n = (v / 10 ^ j + 1) * 10 ^ j := by
  obtain ⟨t, ht⟩ := h.exists_digits hv hself hj
  have hten : 0 < 10 ^ j := Nat.pow_pos (by decide)
  have hbelow := below_le v j
  have habove := lt_above v j
  rcases Nat.lt_or_ge v n with hmore | hless
  · right
    have hle : (v / 10 ^ j + 1) * 10 ^ j ≤ n := by
      rw [ht] at hmore ⊢
      exact Nat.mul_le_mul_right _ ((Nat.div_lt_iff_lt_mul hten).mpr hmore)
    have hnear := h.nearest _ (by omega) (Interval.contains_between hself h.within habove.le hle)
      (writtenWith_above h.pos hj)
    omega
  · left
    have hle : n ≤ v / 10 ^ j * 10 ^ j := by
      rw [ht] at hless ⊢
      exact Nat.mul_le_mul_right _ ((Nat.le_div_iff_mul_le hten).mpr hless)
    have hpos := Nat.mul_pos (div_pow_pos hv h.pos hj) hten
    have hnear := h.nearest _ hpos.ne' (Interval.contains_between h.within hself hle hbelow)
      (writtenWith_below hj)
    omega

/-- With as many digits as it needs the number is found. -/
theorem nearestWith_eq_some (h : Picks i v n k) {den : Nat} (hv : v ≠ 0) (hden : 0 < den)
    (hself : i.contains ⟨v, 1⟩ = true) (hj : k + j = digitCount v)
    (htie : ∀ c j, i.contains ⟨(c + 1) * 10 ^ j, 1⟩ = true → 2 * v ≠ (2 * c + 1) * 10 ^ j) :
    ∃ t, t ≠ 0 ∧ n = t * 10 ^ j ∧ nearestWith i ⟨v * den, den⟩ k = some ⟨t, j⟩ := by
  have hten : 0 < 10 ^ j := Nat.pow_pos (by decide)
  have hc := div_pow_pos hv h.pos hj
  have hbelow := below_le v j
  have habove := lt_above v j
  have hwithin := h.within
  rw [nearestWith_eq i hv hden hj]
  rcases h.digits_cases hv hself hj with hn | hn
  · refine ⟨v / 10 ^ j, hc.ne', hn, ?_⟩
    rw [hn] at hwithin
    cases hother : i.contains ⟨(v / 10 ^ j + 1) * 10 ^ j, 1⟩ with
    | false => simp only [hwithin]
    | true =>
      have hnear := h.nearest _ (by omega) hother (writtenWith_above h.pos hj)
      simp only [hwithin]
      rw [if_neg (by omega)]
  · refine ⟨v / 10 ^ j + 1, Nat.succ_ne_zero _, hn, ?_⟩
    rw [hn] at hwithin
    cases hother : i.contains ⟨v / 10 ^ j * 10 ^ j, 1⟩ with
    | false => simp only [hwithin]
    | true =>
      have hnear := h.nearest _ (Nat.mul_pos hc hten).ne' hother (writtenWith_below hj)
      have hmid := htie _ _ hwithin
      have hdouble : (2 * (v / 10 ^ j) + 1) * 10 ^ j =
          v / 10 ^ j * 10 ^ j + (v / 10 ^ j + 1) * 10 ^ j := by ring
      simp only [hwithin]
      rw [if_pos (by omega)]

end Picks

end Search

/-! ### The text -/

/-- Seventeen digits are enough. -/
theorem Picks.le_seventeen {m v n k : Nat} {e : Int} (hwhole : Whole m e v)
    (h : Picks (rounding m e) v n k) : k ≤ 17 := by
  have hv := hwhole.pos.ne'
  rcases Nat.lt_or_ge 17 (digitCount v) with hlong | hshort
  · obtain ⟨j, hj⟩ := Nat.exists_eq_add_of_le hlong.le
    have hten : 0 < 10 ^ j := Nat.pow_pos (by decide)
    have hbelow := below_le v j
    have habove := lt_above v j
    have hpos := Nat.mul_pos (div_pow_pos hv (by decide) hj.symm) hten
    have hstep : (v / 10 ^ j + 1) * 10 ^ j = v / 10 ^ j * 10 ^ j + 10 ^ j := Nat.succ_mul _ _
    have hlarge : 10 ^ 16 * 10 ^ j ≤ v := by
      have := pow_digitCount_le hv
      rwa [hj, show 17 + j - 1 = 16 + j by omega, Nat.pow_add] at this
    -- The nearer of the two candidates is less than half a unit off.
    rcases Nat.lt_or_ge (2 * (v - v / 10 ^ j * 10 ^ j)) (10 ^ j) with hnear | hfar
    · exact h.fewest _ _ hpos.ne' (hwhole.precise _ (by omega) (by omega))
        (writtenWith_below hj.symm)
    · exact h.fewest _ _ (by omega) (hwhole.precise _ (by omega) (by omega))
        (writtenWith_above (by decide) hj.symm)
  · exact (h.le_digitCount hv hwhole.self).trans hshort

theorem findSome?_range {α : Type} {f : Nat → Option α} {n a : Nat} {b : α} (ha : a < n)
    (hfirst : ∀ i < a, f i = none) (hf : f a = some b) : (List.range n).findSome? f = some b := by
  obtain ⟨r, rfl⟩ := Nat.exists_eq_add_of_lt ha
  rw [Nat.add_assoc, List.range_add, List.range_succ_eq_map, List.map_cons, Nat.add_zero]
  exact List.findSome?_eq_some_iff.mpr
    ⟨_, _, _, rfl, hf, fun i hi => hfirst i (List.mem_range.mp hi)⟩

theorem Picks.shortest_positional {m v n k : Nat} {e : Int} (hwhole : Whole m e v)
    (h : Picks (rounding m e) v n k) :
    (shortest m e).map Written.positional = some (toString n) := by
  obtain ⟨den, hden, hfraction⟩ := hwhole.fraction
  have hv := hwhole.pos.ne'
  have hk := h.pos
  have hcount := h.le_digitCount hv hwhole.self
  obtain ⟨t, ht, hn, hfound⟩ := h.nearestWith_eq_some hv hden hwhole.self
    (Nat.add_sub_cancel' hcount) hwhole.noTie
  have hsearch : (List.range 17).findSome?
      (fun p => nearestWith (rounding m e) ⟨v * den, den⟩ (p + 1)) =
        some ⟨t, (digitCount v - k : Nat)⟩ := by
    refine findSome?_range (a := k - 1) (by have := h.le_seventeen hwhole; omega) ?_ ?_
    · intro p hp
      exact h.nearestWith_eq_none (j := digitCount v - (p + 1)) hv hden (Nat.succ_pos p) (by omega)
        (by omega)
    · rw [Nat.sub_add_cancel hk]
      exact hfound
  simp only [shortest, hfraction, hsearch, Option.map_some, Written.positional_reduced ht, hn]

theorem cast_distance (a b : Nat) : |(a : ℚ) - b| = ((a - b) + (b - a) : Nat) := by
  rcases Nat.le_total a b with hle | hle
  · rw [abs_of_nonpos (sub_nonpos.mpr (Nat.cast_le.mpr hle)), Nat.sub_eq_zero_of_le hle,
      Nat.zero_add, Nat.cast_sub hle, neg_sub]
  · rw [abs_of_nonneg (sub_nonneg.mpr (Nat.cast_le.mpr hle)), Nat.sub_eq_zero_of_le hle,
      Nat.add_zero, Nat.cast_sub hle]

theorem Whole.value_eq {m v : Nat} {e : Int} (h : Whole m e v) : (Double.finite m e).value = v := by
  obtain ⟨den, hden, hfraction⟩ := h.fraction
  have hne : (den : ℚ) ≠ 0 := Nat.cast_ne_zero.mpr hden.ne'
  simp only [Double.value, Double.fraction?, hfraction, Option.map_some, Option.getD_some,
    Fraction.value, Nat.cast_mul]
  field_simp

theorem Double.Prints.exists_picks {m v n : Nat} {e : Int} (hwhole : Whole m e v)
    (h : (Double.finite m e).Prints n) : ∃ k, Picks (rounding m e) v n k := by
  obtain ⟨k, hwritten, hbest⟩ := h.shortest
  have hn : n ≠ 0 := by
    rintro rfl
    exact Double.noConfusion h.reads
  refine ⟨k, hn, (hwhole.reads n hn).mp h.reads, hwritten, ?_, ?_⟩
  · intro p l hp hwithin hpl
    exact (hbest p ((hwhole.reads p hp).mpr hwithin)).1 l hpl
  · intro p hp hwithin hpk
    have hnear := (hbest p ((hwhole.reads p hp).mpr hwithin)).2 hpk
    rw [hwhole.value_eq, cast_distance, cast_distance] at hnear
    exact Nat.cast_le.mp hnear

/-- A number that prints as a whole number has its digits as its text. -/
theorem Written.text_of_prints {w : Written} {n : Nat} (h : w.toDouble.Prints n) :
    w.text = toString n := by
  unfold text
  cases hd : w.toDouble with
  | zero =>
    rw [hd] at h
    have hn : n = 0 := by
      by_contra hn
      exact Double.ofNat_ne_zero hn h.reads
    rw [hn]
    rfl
  | infinite =>
    rw [hd] at h
    have hn : n ≠ 0 := by
      rintro rfl
      exact Double.noConfusion h.reads
    obtain ⟨m, e, hfinite⟩ := Double.exists_finite hn h.plain
    exact Double.noConfusion (hfinite.symm.trans h.reads)
  | finite m e =>
    rw [hd] at h
    obtain ⟨v, hwhole⟩ := exists_whole (by rintro rfl; exact Double.noConfusion h.reads) h.reads
    obtain ⟨k, hpicks⟩ := h.exists_picks hwhole
    simp only [hpicks.shortest_positional hwhole, Option.getD_some]

/-- A whole number of at most 53 bits is printed as it is. -/
theorem Double.prints_of_lt {n : Nat} (hlt : n < 2 ^ 53) : (Double.ofNat n).Prints n := by
  classical
  have hexists : ∃ k, WrittenWith n k := ⟨_, writtenWith_digitCount n⟩
  refine ⟨by omega, rfl, Nat.find hexists, Nat.find_spec hexists, ?_⟩
  intro p hp
  rw [Double.eq_of_ofNat_eq hlt hp]
  exact ⟨fun l hl => Nat.find_min' hexists hl, fun _ => le_rfl⟩

end Phrasebook.Decimal
