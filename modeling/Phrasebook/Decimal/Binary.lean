/-!
Double-precision values in exact arithmetic: a finite positive double is `mantissa · 2 ^ exponent`
with a mantissa below `2 ^ 53` and an exponent from `-1074` to `971`.
-/
namespace Phrasebook.Decimal

/-- A number as written: `digits · 10 ^ scale`. -/
structure Written where
  digits : Nat
  scale : Int
deriving DecidableEq, Repr, Inhabited

/-- A positive fraction. -/
structure Fraction where
  num : Nat
  den : Nat
deriving Repr

def Written.fraction (w : Written) : Fraction :=
  if 0 ≤ w.scale then ⟨w.digits * Nat.pow 10 w.scale.toNat, 1⟩
  else ⟨w.digits, Nat.pow 10 (-w.scale).toNat⟩

/-- `num / den · 2 ^ e`. -/
def Fraction.shift (f : Fraction) (e : Int) : Fraction :=
  if 0 ≤ e then ⟨f.num * Nat.pow 2 e.toNat, f.den⟩
  else ⟨f.num, f.den * Nat.pow 2 (-e).toNat⟩

/-- The nearest natural number, a half going to the even neighbour. -/
def Fraction.round (f : Fraction) : Nat :=
  let q := f.num / f.den
  let r := f.num % f.den
  if 2 * r < f.den then q
  else if f.den < 2 * r then q + 1
  else if q % 2 = 0 then q else q + 1

inductive Double where
  | zero
  | finite (mantissa : Nat) (exponent : Int)
  | infinite
deriving DecidableEq, Repr

def lowestExponent : Int := -1074

def highestExponent : Int := 971

/-- The double nearest to a positive fraction. -/
def Fraction.toDouble (f : Fraction) : Double :=
  if f.num = 0 then .zero else
  let guess : Int := (f.num.log2 : Int) - (f.den.log2 : Int) - 53
  let quotient := f.shift (-guess)
  let e := max lowestExponent
    (if Nat.pow 2 53 ≤ quotient.num / quotient.den then guess + 1 else guess)
  let m := (f.shift (-e)).round
  let (m, e) := if m = Nat.pow 2 53 then (Nat.pow 2 52, e + 1) else (m, e)
  if m = 0 then .zero else if highestExponent < e then .infinite else .finite m e

/-- The natural number with 53 significant bits nearest to `n`. -/
def roundBits (n : Nat) : Nat :=
  if n < Nat.pow 2 53 then n
  else
    let unit := Nat.pow 2 (n.log2 - 52)
    Fraction.round ⟨n, unit⟩ * unit

/-- The double a written number stands for. -/
def Written.toDouble (w : Written) : Double :=
  if w.digits = 0 then .zero
  -- Far outside the range of doubles the powers of ten need not be formed.
  else if 400 < w.scale then .infinite
  else if w.scale < -800 - (w.digits.log2 : Int) then .zero
  else w.fraction.toDouble

end Phrasebook.Decimal
