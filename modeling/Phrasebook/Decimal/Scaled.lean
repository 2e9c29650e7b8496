import Phrasebook.Decimal.Shortest

/-!
Doubles from a number of at most 64 bits and a power of ten, with each step rounded on its own, and
their text with a point or an exponent.
-/
namespace Phrasebook.Decimal

namespace Double

/-- The value as a fraction; infinity has none. -/
def fraction? : Double → Option Fraction
  | .zero => some ⟨0, 1⟩
  | .finite m e => some (Fraction.shift ⟨m, 1⟩ e)
  | .infinite => none

def ofNat (n : Nat) : Double := Written.toDouble ⟨n, 0⟩

/-- The double nearest to a power of ten. -/
def pow10 (k : Nat) : Double := Written.toDouble ⟨1, k⟩

def mul (a b : Double) : Double :=
  match a.fraction?, b.fraction? with
  | some x, some y => Fraction.toDouble ⟨x.num * y.num, x.den * y.den⟩
  | _, _ => .infinite

/-- The quotient by a divisor that is not zero. -/
def div (a b : Double) : Double :=
  match a.fraction?, b.fraction? with
  | some x, some y => Fraction.toDouble ⟨x.num * y.den, x.den * y.num⟩
  | _, _ => .infinite

end Double

/-- The largest power of ten that is a double. -/
def highestPower : Nat := 308

/-- Divides by powers of ten until the exponent is used up. -/
def divideDown : Nat → Double → Nat → Double
  | 0, f, _ => f
  | fuel + 1, f, k =>
    if k ≤ highestPower then f.div (.pow10 k)
    else if f == .zero then f
    else divideDown fuel (f.div (.pow10 highestPower)) (k - highestPower)

/-- The double for `digits · 10 ^ exponent`; none when it is too large. A number of 64 bits is gone
after three divisions. -/
def scaled? (digits : Nat) (exponent : Int) : Option Double :=
  let f := Double.ofNat digits
  if exponent < 0 then some (divideDown 4 f exponent.natAbs)
  else if exponent.natAbs ≤ highestPower then
    let product := f.mul (.pow10 exponent.natAbs)
    if product == .infinite then none else some product
  else if f == .zero then some f
  else none

/-- Between `10 ^ -5` and `10 ^ 16` with a point, otherwise with an exponent. -/
def Written.pointed (w : Written) : String :=
  let digits := Nat.toDigits 10 w.digits
  let top : Int := digits.length + w.scale
  if 0 ≤ w.scale && top ≤ 16 then w.positional ++ ".0"
  else if -5 < top && top ≤ 16 then w.positional
  else
    let fraction := if digits.length == 1 then [] else '.' :: digits.drop 1
    String.ofList (digits.take 1 ++ fraction) ++ "e" ++ toString (top - 1)

def Double.text : Double → String
  | .zero => "0.0"
  | .infinite => "inf"
  | .finite m e => ((shortest m e).map Written.pointed).getD ""

end Phrasebook.Decimal
