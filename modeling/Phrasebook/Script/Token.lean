import Phrasebook.Script.NameChar
import Phrasebook.Script.Node
import Phrasebook.Text.Bytes

/-!
Tokens of a module and how they are read off its text. Template text, regular expressions and
markup text depend on where they stand, so the grammar asks for them explicitly.
-/
namespace Phrasebook.Script

inductive Token where
  | eof
  /-- Identifiers and reserved words. A word the grammar knows has a `role`, which escapes in it do
  not hide; its text is then as written. -/
  | word (text : String) (role : Option String)
  | hidden (name : String)
  | punct (text : String)
  | string (value : Option String)
  | number (value : Decimal.Written)
  | bigint
  /-- No token starts here. -/
  | bad
deriving DecidableEq, Repr, Inhabited

/-- The text not yet read and the byte offset it starts at. -/
structure Input where
  rest : List Char
  pos : Nat
deriving Repr, Inhabited

namespace Input

def advance (i : Input) (read : List Char) (rest : List Char) : Input :=
  ⟨rest, i.pos + Text.byteLength read⟩

/-- Skips `n` characters. -/
def skip (i : Input) (n : Nat) : Input := i.advance (i.rest.take n) (i.rest.drop n)

def takeWhile (i : Input) (p : Char → Bool) : List Char × Input :=
  let read := i.rest.takeWhile p
  (read, i.advance read (i.rest.dropWhile p))

end Input

/-! ### White space and comments -/

def isLineBreak (c : Char) : Bool :=
  c == '\n' || c == '\r' || c.toNat == 0x2028 || c.toNat == 0x2029

def isBlank (c : Char) : Bool :=
  let n := c.toNat
  n == 0x20 || n == 0x09 || n == 0x0b || n == 0x0c || n == 0x85 || n == 0xa0 || n == 0xfeff ||
    n == 0x1680 || (0x2000 ≤ n && n ≤ 0x200b) || n == 0x202f || n == 0x205f || n == 0x3000

/-- The text after a block comment and whether the comment spans lines. -/
def skipBlockComment : List Char → Nat → Bool → Option (Input × Bool)
  | [], _, _ => none
  | '*' :: '/' :: rest, pos, broken => some (⟨rest, pos + 2⟩, broken)
  | c :: rest, pos, broken => skipBlockComment rest (pos + c.utf8Size) (broken || isLineBreak c)

def skipLineComment : List Char → Nat → Input
  | [], pos => ⟨[], pos⟩
  | c :: rest, pos =>
    if isLineBreak c then ⟨c :: rest, pos⟩ else skipLineComment rest (pos + c.utf8Size)

/-- The next token's start, and whether a line break comes before it. A comment without an end
yields nothing. The marks of comments in markup make the rest of a line a comment, the closing one
only at the start of a line. -/
def skipTrivia (fuel : Nat) (i : Input) (broken : Bool) : Option (Input × Bool) :=
  match fuel with
  | 0 => none
  | fuel + 1 =>
    match i.rest with
    | '/' :: '/' :: rest => skipTrivia fuel (skipLineComment rest (i.pos + 2)) broken
    | '/' :: '*' :: rest => do
      let (next, lines) ← skipBlockComment rest (i.pos + 2) false
      skipTrivia fuel next (broken || lines)
    | '<' :: '!' :: '-' :: '-' :: rest =>
      skipTrivia fuel (skipLineComment rest (i.pos + 4)) broken
    | '-' :: '-' :: '>' :: rest =>
      if broken then skipTrivia fuel (skipLineComment rest (i.pos + 3)) broken
      else some (i, broken)
    | c :: rest =>
      if isLineBreak c then skipTrivia fuel ⟨rest, i.pos + c.utf8Size⟩ true
      else if isBlank c then skipTrivia fuel ⟨rest, i.pos + c.utf8Size⟩ broken
      else some (i, broken)
    | [] => some (i, broken)

/-! ### Escapes -/

def hexDigit? (c : Char) : Option Nat :=
  if '0' ≤ c ∧ c ≤ '9' then some (c.toNat - '0'.toNat)
  else if 'a' ≤ c ∧ c ≤ 'f' then some (c.toNat - 'a'.toNat + 10)
  else if 'A' ≤ c ∧ c ≤ 'F' then some (c.toNat - 'A'.toNat + 10)
  else none

/-- The number written by hexadecimal digits, of which there is at least one. -/
def hexValue? : List Char → Option Nat
  | [] => none
  | digits => digits.foldlM (fun n c => (hexDigit? c).map (n * 16 + ·)) 0

/-- Exactly `n` hexadecimal digits. -/
def readHex (n : Nat) (i : Input) : Option (Nat × Input) := do
  let digits := i.rest.take n
  guard (digits.length = n)
  return (← hexValue? digits, i.skip n)

/-- The code point after `\u`: four digits, or any number of them in braces. -/
def readUnicodeEscape (i : Input) : Option (Nat × Input) :=
  match i.rest with
  | '\x7b' :: _ => do
    let (digits, after) := (i.skip 1).takeWhile fun c => (hexDigit? c).isSome
    let n ← hexValue? digits
    guard (n ≤ 0x10ffff)
    guard (after.rest.head? = some '\x7d')
    return (n, after.skip 1)
  | _ => readHex 4 i

def isOctal (c : Char) : Bool := '0' ≤ c && c ≤ '7'

/-- The character given by up to three octal digits, none past 255, of which `first` is read. -/
def readOctal (first : Char) (i : Input) : Nat × Input :=
  let value (c : Char) : Nat := c.toNat - '0'.toNat
  match i.rest with
  | c :: d :: _ =>
    if !isOctal c then (value first, i)
    else
      let two := value first * 8 + value c
      if isOctal d && two < 32 then (two * 8 + value d, i.skip 2) else (two, i.skip 1)
  | [c] => if isOctal c then (value first * 8 + value c, i.skip 1) else (value first, i)
  | [] => (value first, i)

/-- The code points an escape stands for, read after its backslash. Templates have no octal
escapes. -/
def readEscape (octal : Bool) (i : Input) : Option (List Nat × Input) :=
  match i.rest with
  | [] => none
  | c :: rest =>
    let after : Input := ⟨rest, i.pos + c.utf8Size⟩
    match c with
    | 'n' => some ([0x0a], after)
    | 't' => some ([0x09], after)
    | 'r' => some ([0x0d], after)
    | 'b' => some ([0x08], after)
    | 'v' => some ([0x0b], after)
    | 'f' => some ([0x0c], after)
    | '\r' => some ([], if rest.head? = some '\n' then after.skip 1 else after)
    | 'x' => (readHex 2 after).map fun (n, next) => ([n], next)
    | 'u' => (readUnicodeEscape after).map fun (n, next) => ([n], next)
    | _ =>
      if isLineBreak c then some ([], after)
      else if !isOctal c then some ([c.toNat], after)
      else if c == '0' && !rest.head?.any isOctal then some ([0], after)
      else if octal then
        let (n, next) := readOctal c after
        some ([n], next)
      else none

def isHighSurrogate (n : Nat) : Bool := 0xd800 ≤ n && n ≤ 0xdbff

def isLowSurrogate (n : Nat) : Bool := 0xdc00 ≤ n && n ≤ 0xdfff

/-- The text of code points, in which an escaped surrogate pair is one character. Half a pair
leaves no text. -/
def joinSurrogates : List Nat → Option (List Char)
  | [] => some []
  | [n] => if isHighSurrogate n || isLowSurrogate n then none else some [Char.ofNat n]
  | n :: m :: rest =>
    if isHighSurrogate n && isLowSurrogate m then
      (joinSurrogates rest).map (Char.ofNat (0x10000 + (n - 0xd800) * 0x400 + (m - 0xdc00)) :: ·)
    else if isHighSurrogate n || isLowSurrogate n then none
    else (joinSurrogates (m :: rest)).map (Char.ofNat n :: ·)

def textOfPoints (points : List Nat) : Option String := (joinSurrogates points).map String.ofList

/-! ### Literals -/

/-- The code points up to the closing quote. A string without one ends with its line, and holds
only what stands after its last escape. -/
def readString (quote : Char) : Nat → Input → List Nat → List Nat → Option (List Nat × Input)
  | 0, _, _, _ => none
  | fuel + 1, i, points, recent =>
    match i.rest with
    | [] => some (recent.reverse, i)
    | c :: rest =>
      let after : Input := ⟨rest, i.pos + c.utf8Size⟩
      if c == quote then some (points.reverse, after)
      else if c == '\\' then do
        let (more, next) ← readEscape true after
        readString quote fuel next (more.reverse ++ points) []
      else if c == '\n' || c == '\r' then some (recent.reverse, i)
      else readString quote fuel after (c.toNat :: points) (c.toNat :: recent)

/-- How a stretch of template text ends. -/
inductive TemplateEnd where
  | closed
  | substitution
deriving DecidableEq, Repr

/-- Template text up to the closing backquote or the next substitution. An escape that stands for
nothing is refused, or with `lenient` leaves the piece without a cooked text. -/
def readTemplate (lenient : Bool) :
    Nat → Input → List Nat → Bool → List Char → Option (Piece × TemplateEnd × Input)
  | 0, _, _, _, _ => none
  | fuel + 1, i, points, valid, raw =>
    let piece : Piece :=
      ⟨if valid then textOfPoints points.reverse else none, String.ofList raw.reverse⟩
    match i.rest with
    | [] => none
    | '\x60' :: rest => some (piece, .closed, ⟨rest, i.pos + 1⟩)
    | '$' :: '\x7b' :: rest => some (piece, .substitution, ⟨rest, i.pos + 2⟩)
    | '\\' :: rest =>
      match readEscape false ⟨rest, i.pos + 1⟩ with
      | some (more, next) =>
        let read := rest.take (rest.length - next.rest.length)
        readTemplate lenient fuel next (more.reverse ++ points) valid (read.reverse ++ '\\' :: raw)
      | none =>
        match lenient, rest with
        | true, c :: rest =>
          readTemplate lenient fuel ⟨rest, i.pos + 1 + c.utf8Size⟩ points false (c :: '\\' :: raw)
        | _, _ => none
    | '\r' :: '\n' :: rest =>
      readTemplate lenient fuel ⟨rest, i.pos + 2⟩ (0x0a :: points) valid ('\n' :: '\r' :: raw)
    | '\r' :: rest =>
      readTemplate lenient fuel ⟨rest, i.pos + 1⟩ (0x0a :: points) valid ('\r' :: raw)
    | c :: rest =>
      readTemplate lenient fuel ⟨rest, i.pos + c.utf8Size⟩ (c.toNat :: points) valid (c :: raw)

/-- The text after the closing slash of a regular expression, read after the opening one. -/
def skipRegex : List Char → Nat → Bool → Option Input
  | [], _, _ => none
  | '\\' :: c :: rest, pos, inClass =>
    if isLineBreak c then none else skipRegex rest (pos + 1 + c.utf8Size) inClass
  | c :: rest, pos, inClass =>
    if isLineBreak c then none
    else if c == '/' && !inClass then some ⟨rest, pos + 1⟩
    else
      skipRegex rest (pos + c.utf8Size)
        (if c == '[' then true else if c == ']' then false else inClass)

def digitValue (c : Char) : Nat := (hexDigit? c).getD 0

def naturalOf (radix : Nat) (digits : List Char) : Nat :=
  digits.foldl (fun n c => n * radix + digitValue c) 0

/-- Digits with separators between them. -/
def readDigits (isDigit : Char → Bool) (i : Input) : List Char × Input :=
  let (read, next) := i.takeWhile fun c => isDigit c || c == '_'
  (read.filter (· != '_'), next)

/-- Whether a sign before digits is a minus, and the text after it. -/
def readSign (i : Input) : Bool × Input :=
  match i.rest with
  | '-' :: _ => (true, i.skip 1)
  | '+' :: _ => (false, i.skip 1)
  | _ => (false, i)

/-- An exponent with its sign, read after the `e`. -/
def readExponent (i : Input) : Option (Int × Input) :=
  let (negative, start) := readSign i
  let (digits, next) := readDigits Char.isDigit start
  if digits.isEmpty then none
  else
    let n : Int := naturalOf 10 digits
    some (if negative then -n else n, next)

/-- The number written by digits in a radix that is a power of two, in double precision after each
digit. -/
def radixValue (radix : Nat) (digits : List Char) : Nat :=
  digits.foldl (fun n c => Decimal.roundBits (n * radix + digitValue c)) 0

def readRadix (radix : Nat) (i : Input) : Token × Input :=
  let (digits, next) := readDigits (fun c => (hexDigit? c).any (· < radix)) i
  if digits.isEmpty then (.bad, next)
  else match next.rest with
    | 'n' :: _ => (.bigint, next.skip 1)
    | _ => (.number ⟨radixValue radix digits, 0⟩, next)

/-- The digits after a decimal point, if there is one. -/
def readPlaces (i : Input) : List Char × Input :=
  match i.rest with
  | '.' :: _ => readDigits Char.isDigit (i.skip 1)
  | _ => ([], i)

/-- A decimal number. One that starts with a zero and has no digit past seven is octal. -/
def readDecimal (i : Input) : Token × Input :=
  let (whole, afterWhole) := readDigits Char.isDigit i
  let padded := whole.length > 1 && whole.head? == some '0'
  if padded && whole.all isOctal then (.number ⟨radixValue 8 whole, 0⟩, afterWhole) else
  match padded, afterWhole.rest with
  | false, 'n' :: _ => (if whole.isEmpty then .bad else .bigint, afterWhole.skip 1)
  | _, _ =>
    let (places, afterPlaces) := readPlaces afterWhole
    let value : Decimal.Written := ⟨naturalOf 10 (whole ++ places), -(places.length : Int)⟩
    match afterPlaces.rest with
    | c :: _ =>
      if c == 'e' || c == 'E' then
        match readExponent (afterPlaces.skip 1) with
        | some (e, next) => (.number ⟨value.digits, value.scale + e⟩, next)
        | none => (.bad, afterPlaces)
      else (.number value, afterPlaces)
    | [] => (.number value, afterPlaces)

/-- A number, whatever follows it. -/
def readNumeral (i : Input) : Token × Input :=
  match i.rest with
  | '0' :: c :: _ =>
    if c == 'x' || c == 'X' then readRadix 16 (i.skip 2)
    else if c == 'o' || c == 'O' then readRadix 8 (i.skip 2)
    else if c == 'b' || c == 'B' then readRadix 2 (i.skip 2)
    else readDecimal i
  | _ => readDecimal i

/-- A number, which no identifier may follow directly. -/
def readNumber (i : Input) : Token × Input :=
  let (token, next) := readNumeral i
  match next.rest with
  | c :: _ => if isNamePart c || c == '\\' then (.bad, next) else (token, next)
  | [] => (token, next)

/-! ### Words -/

/-- Words the grammar knows. -/
def knownWords : List String :=
  ["abstract", "accessor", "any", "as", "assert", "asserts", "async", "await", "bigint", "boolean",
   "break", "case", "catch", "class", "const", "constructor", "continue", "debugger", "declare",
   "default", "delete", "do", "else", "enum", "export", "extends", "false", "finally", "for",
   "from", "function", "get", "global", "if", "implements", "import", "in", "infer", "instanceof",
   "interface", "intrinsic", "is", "keyof", "let", "meta", "namespace", "never", "new", "null",
   "number", "object", "of", "out", "override", "package", "private", "protected", "public",
   "readonly", "require", "return", "satisfies", "set", "static", "string", "super", "switch",
   "symbol", "target", "this", "throw", "true", "try", "type", "typeof", "undefined", "unique",
   "unknown", "using", "var", "void", "while", "with", "yield"]

/-- Words that name nothing anywhere. -/
def keywords : List String :=
  ["break", "case", "catch", "class", "const", "continue", "debugger", "default", "delete", "do",
   "else", "enum", "export", "extends", "false", "finally", "for", "function", "if", "import", "in",
   "instanceof", "new", "null", "return", "super", "switch", "throw", "true", "try", "typeof",
   "var", "void", "while", "with"]

/-- Words that are no expressions of their own in a module. -/
def reservedWords : List String :=
  keywords ++
    ["this", "await", "yield", "let", "static", "implements", "interface", "package", "private",
     "protected", "public"]

/-- The characters of an identifier, whether any was escaped, and what follows. -/
def readName : Nat → Input → List Char → Bool → Option (List Char × Bool × Input)
  | 0, _, _, _ => none
  | fuel + 1, i, read, escaped =>
    let allowed (c : Char) := if read.isEmpty then isNameStart c else isNamePart c
    match i.rest with
    | '\\' :: 'u' :: _ => do
      let (n, next) ← readUnicodeEscape (i.skip 2)
      guard (allowed (Char.ofNat n))
      readName fuel next (Char.ofNat n :: read) true
    | c :: rest =>
      if allowed c then readName fuel ⟨rest, i.pos + c.utf8Size⟩ (c :: read) escaped
      else some (read.reverse, escaped, i)
    | [] => some (read.reverse, escaped, i)

/-- A word. Escapes do not free a reserved word unless it starts with one. -/
def readWord (fuel : Nat) (i : Input) : Option (Token × Input) := do
  let (name, escaped, next) ← readName fuel i [] false
  guard (!name.isEmpty)
  let text := String.ofList name
  if i.rest.head? == some '\\' || !knownWords.contains text then return (.word text none, next)
  else if !escaped then return (.word text (some text), next)
  else if reservedWords.contains text then return (.bad, next)
  else
    let written := i.rest.take (i.rest.length - next.rest.length)
    return (.word (String.ofList written) (some text), next)

/-! ### Punctuation -/

/-- Punctuators, longest first. Angle brackets are always read one by one: inside types they
close type arguments. -/
def punctuators : List String :=
  ["...", "===", "!==", "**=", "&&=", "||=", "??=",
   "=>", "==", "!=", "++", "--", "**", "&&", "||", "??", "+=", "-=", "*=", "/=", "%=", "&=", "|=",
   "^=",
   "\x7b", "\x7d", "(", ")", "[", "]", ";", ",", "<", ">", "+", "-", "*", "/", "%", "&", "|", "^",
   "!", "~", "?", ":", "=", ".", "@", "\x60"]

def startsWith : List Char → List Char → Bool
  | [], _ => true
  | _ :: _, [] => false
  | c :: cs, d :: ds => c == d && startsWith cs ds

def readPunct (i : Input) : Option (Token × Input) := do
  let text ← punctuators.find? fun p => startsWith p.toList i.rest
  return (.punct text, i.skip text.length)

/-! ### Tokens -/

/-- The token at `i`, which is not white space. -/
def readToken (fuel : Nat) (i : Input) : Token × Input :=
  match i.rest with
  | [] => (.eof, i)
  | c :: rest =>
    if c == '\x22' || c == '\x27' then
      match readString c fuel (i.skip 1) [] [] with
      | some (points, next) => (.string (textOfPoints points), next)
      | none => (.bad, i)
    else if c.isDigit || (c == '.' && rest.head?.any Char.isDigit) then readNumber i
    else if c == '#' then
      match readName fuel (i.skip 1) [] false with
      | some (c :: name, _, next) => (.hidden (String.ofList (c :: name)), next)
      | _ => (.bad, i)
    else
      match readPunct i with
      | some found => found
      | none => (readWord fuel i).getD (.bad, i)

/-! ### Tokens inside markup tags -/

def isTagNamePart (c : Char) : Bool := isNamePart c || c == '-'

/-- The token at `i` inside a tag: names may hold hyphens, and texts are not tokens yet. -/
def readTagToken (i : Input) : Token × Input :=
  match i.rest with
  | [] => (.eof, i)
  | c :: _ =>
    if isNameStart c then
      let (name, next) := i.takeWhile isTagNamePart
      (.word (String.ofList name) none, next)
    else if c == '\x22' || c == '\x27' then (.punct (String.ofList [c]), i.skip 1)
    else if c == '/' then (.punct "/", i.skip 1)
    else if c == '=' then (.punct "=", i.skip 1)
    else (readPunct i).getD (.bad, i)

end Phrasebook.Script
