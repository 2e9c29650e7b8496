import Phrasebook.Text.Emoji
import Phrasebook.Text.Width

/-!
Columns of a text. Some characters share columns with those around them: letters that are written
as one sign, pictographs joined into one picture, and selectors that make a picture of a character.
The text is therefore read from its end, each character in view of what follows it.
-/
namespace Phrasebook.Text

/-- What stands after a character, as far as the two may share columns. `joined` letters and
pictures come after a joiner. -/
inductive Neighbour where
  | plain
  | lineFeed
  | alef
  | lamed (joined : Bool)
  | coengLetter
  | ya (joined : Bool)
  | vowelYa
  | tifinagh (joined : Bool)
  | joinerTifinagh
  | lisuTone
  | orkhonI (joined : Bool)
  | kiratE
  | kiratAi
  | picture
  | skinTone
  | flagLetter
  | flagLetters
  | joinedPicture
  | keycap
  | joinedFlagLetter
  | evenFlagLetters
  | oddFlagLetters
  /-- The end of a tag sequence: so many letters, and before them so many digits. -/
  | tagEnd (letters digits : Nat)
deriving DecidableEq, Repr

/-- Shows the character before it as a picture or as text. -/
inductive Selector where
  | picture
  | text
deriving DecidableEq, Repr

structure Following where
  neighbour : Neighbour
  selector : Option Selector
deriving DecidableEq, Repr

namespace Neighbour

/-- Marks that are not seen may stand inside the sign these belong to. -/
def isLigature : Neighbour → Bool
  | .lamed _ | .coengLetter | .ya _ | .vowelYa | .tifinagh _ | .joinerTifinagh | .lisuTone
  | .orkhonI _ | .kiratE | .kiratAi => true
  | _ => false

/-- The same sign with a joiner before it. -/
def join : Neighbour → Neighbour
  | .lamed _ => .lamed true
  | .ya _ => .ya true
  | .tifinagh _ => .tifinagh true
  | .orkhonI _ => .orkhonI true
  | n => n

/-- A picture selector before these leaves them as they are. -/
def survivesSelector (n : Neighbour) : Bool :=
  n.isLigature || n == .alef || n == .joinedPicture || n == .keycap

end Neighbour

/-- Marks that are not seen. -/
def unseenMarks : Ranges :=
  [(0x34f, 0x34f), (0x17b4, 0x17b5), (0x180b, 0x180d), (0x180f, 0x180f), (0xfe00, 0xfe0f),
   (0xe0100, 0xe01ef)]

/-- Characters without columns that part the letters on their two sides. -/
def partingRanges : Ranges :=
  [(0x605, 0x605), (0x890, 0x891), (0x8e2, 0x8e2), (0x9be, 0x9be), (0x9d7, 0x9d7), (0xb3e, 0xb3e),
   (0xb57, 0xb57), (0xbbe, 0xbbe), (0xbd7, 0xbd7), (0xcc0, 0xcc0), (0xcc2, 0xcc2), (0xcc7, 0xcc8),
   (0xcca, 0xccb), (0xcd5, 0xcd6), (0xd3e, 0xd3e), (0xd4e, 0xd4e), (0xd57, 0xd57), (0xdcf, 0xdcf),
   (0xddf, 0xddf), (0x1160, 0x11ff), (0x1715, 0x1715), (0x1734, 0x1734), (0x180e, 0x180e),
   (0x1b35, 0x1b35), (0x1b3b, 0x1b3b), (0x1b3d, 0x1b3d), (0x1b43, 0x1b44), (0x1baa, 0x1baa),
   (0x1bf2, 0x1bf3), (0x200c, 0x200d), (0x2065, 0x2069), (0x302e, 0x302f), (0x3164, 0x3164),
   (0xa8fa, 0xa8fa), (0xa953, 0xa953), (0xa9c0, 0xa9c0), (0xd7b0, 0xd7c6), (0xd7cb, 0xd7fb),
   (0xffa0, 0xffa0), (0xfff0, 0xfff8), (0x111c0, 0x111c0), (0x111c2, 0x111c3), (0x11235, 0x11235),
   (0x1133e, 0x1133e), (0x1134d, 0x1134d), (0x11357, 0x11357), (0x113b8, 0x113b8),
   (0x113c2, 0x113c2), (0x113c5, 0x113c5), (0x113c7, 0x113c9), (0x113cf, 0x113cf),
   (0x113d1, 0x113d1), (0x114b0, 0x114b0), (0x114bd, 0x114bd), (0x115af, 0x115af),
   (0x116b6, 0x116b6), (0x11930, 0x11930), (0x1193d, 0x1193d), (0x1193f, 0x1193f),
   (0x11941, 0x11941), (0x11a84, 0x11a89), (0x11d46, 0x11d46), (0x11f02, 0x11f02),
   (0x11f41, 0x11f41), (0x16ff0, 0x16ff1), (0x1d165, 0x1d166), (0x1d16d, 0x1d172),
   (0xe0000, 0xe0000), (0xe0002, 0xe001f), (0xe0080, 0xe00ff), (0xe01f0, 0xe0fff)]

/-- Letters between which these stand are joined all the same. -/
def isTransparent (c : Char) : Bool := columns c == 0 && !partingRanges.contains c.toNat

def lams : Ranges :=
  [(0x644, 0x644), (0x6b5, 0x6b8), (0x76a, 0x76a), (0x8a6, 0x8a6), (0x8c7, 0x8c7)]

def alefs : Ranges :=
  [(0x622, 0x623), (0x625, 0x625), (0x627, 0x627), (0x671, 0x673), (0x675, 0x675), (0x773, 0x774),
   (0x870, 0x882)]

/-- Letters that are written below another one. -/
def coengLetters : Ranges :=
  [(0x1780, 0x1782), (0x1784, 0x1787), (0x1789, 0x178c), (0x178e, 0x1793), (0x1795, 0x1798),
   (0x179b, 0x179d), (0x17a0, 0x17a0), (0x17a2, 0x17a2), (0x17a7, 0x17a7), (0x17ab, 0x17ac),
   (0x17af, 0x17af)]

def tifinaghConsonants : Ranges := [(0x2d31, 0x2d65), (0x2d6f, 0x2d6f)]

/-- What a character is to the one before it. -/
def neighbour (c : Char) : Neighbour :=
  let n := c.toNat
  if n == 0x5dc then .lamed false
  else if alefs.contains n then .alef
  else if coengLetters.contains n then .coengLetter
  else if n == 0x1a10 then .ya false
  else if tifinaghConsonants.contains n then .tifinagh false
  else if n == 0xa4fc || n == 0xa4fd then .lisuTone
  else if n == 0x10c03 then .orkhonI false
  else if n == 0x16d67 then .kiratE
  else if n == 0x16d68 then .kiratAi
  else if isFlagLetter c then .flagLetter
  else if isSkinTone c then .skinTone
  else if isPicture c then .picture
  else .plain

def isTagLetter (c : Char) : Bool := 0xe0061 ≤ c.toNat && c.toNat ≤ 0xe007a

def isTagDigit (c : Char) : Bool := 0xe0030 ≤ c.toNat && c.toNat ≤ 0xe0039

/-- The columns that `c` adds where it forms a sign or picture with what follows, and what the two
are to the character before. -/
def joinColumns (c : Char) (next : Neighbour) : Option (Int × Neighbour) :=
  let n := c.toNat
  match next with
  | .plain | .lineFeed => none
  | .alef =>
    if lams.contains n then some (0, .plain)
    else if isTransparent c then some (0, .alef) else none
  | .lamed joined => if joined && n == 0x5d0 then some (0, .plain) else none
  | .coengLetter => if n == 0x17d2 then some (-1, .plain) else none
  | .ya joined => if joined && n == 0x1a17 then some (0, .vowelYa) else none
  | .vowelYa => if n == 0x1a15 then some (0, .plain) else none
  | .tifinagh joined =>
    if n == 0x2d7f then some (1, .joinerTifinagh)
    else if joined && tifinaghConsonants.contains n then some (0, .plain) else none
  | .joinerTifinagh => if tifinaghConsonants.contains n then some (-1, .plain) else none
  | .lisuTone => if 0xa4f8 ≤ n && n ≤ 0xa4fb then some (0, .plain) else none
  | .orkhonI joined => if joined && n == 0x10c32 then some (0, .plain) else none
  | .kiratE =>
    if n == 0x16d63 || n == 0x16d69 then some (0, .plain)
    else if n == 0x16d67 then some (0, .kiratAi) else none
  | .kiratAi => if n == 0x16d63 then some (0, .plain) else none
  | .picture => if n == 0x200d then some (0, .joinedPicture) else none
  | .skinTone =>
    if n == 0x200d then some (0, .joinedPicture)
    else if takesTone c then some (0, .picture) else none
  | .flagLetter => if isFlagLetter c then some (1, .flagLetters) else none
  | .flagLetters =>
    if n == 0x200d then some (0, .joinedPicture)
    else if isFlagLetter c then some (1, .flagLetters) else none
  | .joinedPicture =>
    if n == 0x20e3 then some (0, .keycap)
    else if isFlagLetter c then some (1, .joinedFlagLetter)
    else if isSkinTone c then some (0, .skinTone)
    else if n == 0xe007f then some (0, .tagEnd 0 0)
    else if isPicture c then some (0, .picture) else none
  | .keycap => none
  | .joinedFlagLetter => if isFlagLetter c then some (-1, .evenFlagLetters) else none
  | .evenFlagLetters =>
    if n == 0x200d then some (0, .joinedPicture)
    else if isFlagLetter c then some (3, .oddFlagLetters) else none
  | .oddFlagLetters =>
    if n == 0x200d then some (0, .joinedPicture)
    else if isFlagLetter c then some (-1, .evenFlagLetters) else none
  | .tagEnd letters digits =>
    if digits == 0 && letters < 6 && isTagLetter c then some (0, .tagEnd (letters + 1) 0)
    else if digits < 3 && letters < 4 && isTagDigit c then some (0, .tagEnd letters (digits + 1))
    else if n == 0x1f3f4 && (3 ≤ letters || digits == 3) then some (0, .picture)
    else none

/-- The columns that `c` adds before a neighbour that no selector speaks about. -/
def neighbourColumns (c : Char) (next : Neighbour) : Int × Following :=
  let n := c.toNat
  if n ≤ 0xa0 then
    if c == '\n' then (1, ⟨.lineFeed, none⟩)
    else (if c == '\r' && next == .lineFeed then 0 else 1, ⟨.plain, none⟩)
  else if n == 0xfe0f then
    (0, ⟨if next.survivesSelector then next else .plain, some .picture⟩)
  else if n == 0xfe0e then
    (0, ⟨if next.isLigature || next == .alef then next else .plain, some .text⟩)
  else if next.isLigature && n == 0x200d then (0, ⟨next.join, none⟩)
  else if next.isLigature && unseenMarks.contains n then (0, ⟨next, none⟩)
  else
    match joinColumns c next with
    | some (columns, next) => (columns, ⟨next, none⟩)
    | none => (columns c, ⟨neighbour c, none⟩)

/-- The columns that `c` adds to those of what follows it. -/
def addedColumns (c : Char) (next : Following) : Int × Following :=
  match next.selector with
  | none => neighbourColumns c next.neighbour
  | some .picture =>
    if isSelectable c then
      let inPicture := next.neighbour == .joinedPicture || next.neighbour == .keycap
      (if inPicture then 0 else 2, ⟨.picture, none⟩)
    else neighbourColumns c next.neighbour
  | some .text =>
    if 0xa0 < c.toNat && c.toNat != 0xfe0f && c.toNat != 0xfe0e && narrowsAsText c then
      (1, ⟨.plain, none⟩)
    else neighbourColumns c next.neighbour

/-- Columns of a text, and what its first character is to one before it. -/
def scanColumns (text : List Char) : Int × Following :=
  text.foldr
    (fun c (total, next) =>
      let (added, here) := addedColumns c next
      (total + added, here))
    (0, ⟨.plain, none⟩)

/-- Columns of a text. Here a control character takes one column, and so does a line break of two
characters. -/
def textColumns (text : List Char) : Nat := (scanColumns text).1.toNat

end Phrasebook.Text
