import Phrasebook.Text.Space

/-!
Markup text as it is rendered.
-/
namespace Phrasebook.Markup

/-- White space that markup text may lose at the ends of its lines. -/
def isSpace (c : Char) : Bool := c == ' ' || c == '\t' || c == '\n' || c == '\r'

/-- The lines of a text, which line feeds separate; there is at least one. -/
def splitLines : List Char → List (List Char)
  | [] => [[]]
  | c :: rest =>
    if c == '\n' then [] :: splitLines rest
    else match splitLines rest with
      | line :: lines => (c :: line) :: lines
      | [] => [[c]]

/-- A line with its tabs as spaces, without white space before it unless it is the first and
without white space after it unless it is the last. -/
def cleanLine (first last : Bool) (line : List Char) : List Char :=
  let spaced := line.map fun c => if c == '\t' then ' ' else c
  let started := if first then spaced else spaced.dropWhile isSpace
  if last then started else Text.dropEndWhile isSpace started

def cleanLines (first : Bool) : List (List Char) → List (List Char)
  | [] => []
  | line :: rest => cleanLine first rest.isEmpty line :: cleanLines false rest

/-- The rendered text: cleaned lines that are not empty, joined by single spaces. -/
def cleanChars (raw : List Char) : List Char :=
  [' '].intercalate ((cleanLines true (splitLines raw)).filter (!·.isEmpty))

def clean (raw : String) : String := String.ofList (cleanChars raw.toList)

/-- White space before and after what is visible in a source text. -/
def leading (raw : String) : String := String.ofList (raw.toList.takeWhile isSpace)

def trailing (raw : String) : String := String.ofList (Text.takeEndWhile isSpace raw.toList)

end Phrasebook.Markup
