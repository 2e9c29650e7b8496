import Phrasebook.Decimal.Binary

/-!
The fewest decimal digits that read back as a given double, written without an exponent.
-/
namespace Phrasebook.Decimal

/-- The reals that round to a double: from `lo` to `hi`, the ends included when `closed`. -/
structure Interval where
  lo : Fraction
  hi : Fraction
  closed : Bool

def Fraction.lt (a b : Fraction) : Bool := a.num * b.den < b.num * a.den

def Fraction.le (a b : Fraction) : Bool := a.num * b.den ≤ b.num * a.den

/-- Below a power of two the neighbouring doubles are half as far apart. -/
def rounding (m : Nat) (e : Int) : Interval where
  lo :=
    if m = Nat.pow 2 52 ∧ lowestExponent < e then Fraction.shift ⟨4 * m - 1, 4⟩ e
    else Fraction.shift ⟨2 * m - 1, 2⟩ e
  hi := Fraction.shift ⟨2 * m + 1, 2⟩ e
  closed := m % 2 = 0

def Interval.contains (i : Interval) (f : Fraction) : Bool :=
  if i.closed then i.lo.le f && f.le i.hi else i.lo.lt f && f.lt i.hi

def digitCount (n : Nat) : Nat := (Nat.toDigits 10 n).length

/-- The exponent of the largest power of ten that is at most `f`. -/
def Fraction.magnitude (f : Fraction) : Int :=
  if f.den ≤ f.num then (digitCount (f.num / f.den) : Int) - 1
  else
    let d := digitCount (f.den / f.num)
    if f.den ≤ f.num * Nat.pow 10 (d - 1) then -((d : Int) - 1) else -(d : Int)

/-- How far `f` is from `c · 10 ^ k`, as a numerator over a denominator shared by all `c`. -/
def Fraction.distance (f : Fraction) (c : Nat) (k : Int) : Nat :=
  let g := Written.fraction ⟨c, k⟩
  let a := f.num * g.den
  let b := g.num * f.den
  (a - b) + (b - a)

/-- The decimal with at most `n` digits in the interval around `f` that is nearest to `f`. -/
def nearestWith (i : Interval) (f : Fraction) (n : Nat) : Option Written :=
  let k := f.magnitude - ((n : Int) - 1)
  let unit := Written.fraction ⟨1, k⟩
  let c := f.num * unit.den / (f.den * unit.num)
  let below : Written := ⟨c, k⟩
  let above : Written := ⟨c + 1, k⟩
  match i.contains below.fraction, i.contains above.fraction with
  | true, true => if f.distance (c + 1) k < f.distance c k then some above else some below
  | true, false => some below
  | false, true => some above
  | false, false => none

/-- The same number without trailing zeros among its digits. -/
def Written.reduced (w : Written) : Written :=
  let zeros := ((Nat.toDigits 10 w.digits).reverse.takeWhile (· == '0')).length
  ⟨w.digits / Nat.pow 10 zeros, w.scale + zeros⟩

/-- Seventeen digits always suffice. -/
def shortest (m : Nat) (e : Int) : Option Written :=
  let f := Fraction.shift ⟨m, 1⟩ e
  ((List.range 17).findSome? fun n => nearestWith (rounding m e) f (n + 1)).map Written.reduced

/-- Digits and point only. -/
def Written.positional (w : Written) : String :=
  let digits := Nat.toDigits 10 w.digits
  if 0 ≤ w.scale then String.ofList (digits ++ List.replicate w.scale.toNat '0')
  else
    let places := (-w.scale).toNat
    let padded := List.replicate (places + 1 - digits.length) '0' ++ digits
    let whole := padded.length - places
    String.ofList (padded.take whole ++ '.' :: padded.drop whole)

/-- A written number as its double is printed. -/
def Written.text (w : Written) : String :=
  match w.toDouble with
  | .zero => "0"
  | .infinite => "inf"
  | .finite m e => ((shortest m e).map Written.positional).getD ""

end Phrasebook.Decimal
