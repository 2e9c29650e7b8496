/-!
White space around a text.
-/
namespace Phrasebook.Text

/-- Characters with the Unicode property White_Space. -/
def isWhite (c : Char) : Bool :=
  let n := c.toNat
  (0x09 ≤ n && n ≤ 0x0d) || n == 0x20 || n == 0x85 || n == 0xa0 || n == 0x1680 ||
    (0x2000 ≤ n && n ≤ 0x200a) || n == 0x2028 || n == 0x2029 || n == 0x202f || n == 0x205f ||
    n == 0x3000

def dropEndWhile (p : Char → Bool) (text : List Char) : List Char :=
  (text.reverse.dropWhile p).reverse

def takeEndWhile (p : Char → Bool) (text : List Char) : List Char :=
  (text.reverse.takeWhile p).reverse

def trimStart (text : String) : String := String.ofList (text.toList.dropWhile isWhite)

def trimEnd (text : String) : String := String.ofList (dropEndWhile isWhite text.toList)

def trim (text : String) : String :=
  String.ofList (dropEndWhile isWhite (text.toList.dropWhile isWhite))

end Phrasebook.Text
