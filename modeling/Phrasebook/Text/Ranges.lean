/-!
Sets of characters given by inclusive ranges of code points in increasing order.
-/
namespace Phrasebook.Text

abbrev Ranges := List (Nat × Nat)

/-- The search stops at the first range that starts past the code point. -/
def Ranges.contains : Ranges → Nat → Bool
  | [], _ => false
  | (lo, hi) :: rest, n => lo ≤ n && (n ≤ hi || contains rest n)

end Phrasebook.Text
