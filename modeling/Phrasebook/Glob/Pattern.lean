/-!
Patterns for paths. A star matches any text and a question mark any character, slashes included;
two stars as a whole path component match any number of components.
-/
namespace Phrasebook.Glob

inductive CharRange where
  | single (c : Char)
  | between (first last : Char)
deriving DecidableEq, Repr

def CharRange.contains (r : CharRange) (c : Char) : Bool :=
  match r with
  | .single d => c == d
  | .between first last => first ≤ c && c ≤ last

inductive Token where
  | char (c : Char)
  | anyChar
  | anyText
  /-- Any number of whole components. -/
  | anyComponents
  | within (ranges : List CharRange)
  | except (ranges : List CharRange)
deriving DecidableEq, Repr

structure Pattern where
  tokens : List Token
deriving DecidableEq, Repr

inductive PatternFault where
  /-- More than two stars in a row. -/
  | tooManyStars (pos : Nat)
  /-- Two stars next to something else than slashes. -/
  | partialComponent (pos : Nat)
  /-- A bracket that is not closed. -/
  | openRange (pos : Nat)
deriving DecidableEq, Repr

namespace PatternFault

def position : PatternFault → Nat
  | tooManyStars pos | partialComponent pos | openRange pos => pos

def reason : PatternFault → String
  | tooManyStars _ => "wildcards are either regular \x60*\x60 or recursive \x60**\x60"
  | partialComponent _ => "recursive wildcards must form a single path component"
  | openRange _ => "invalid range pattern"

def message (f : PatternFault) : String :=
  "Pattern syntax error near position " ++ toString f.position ++ ": " ++ f.reason

end PatternFault

/-! ### Reading -/

/-- What stands between brackets: single characters and ranges such as `a-z`. -/
def readRanges : List Char → List CharRange
  | first :: '-' :: last :: rest => .between first last :: readRanges rest
  | c :: rest => .single c :: readRanges rest
  | [] => []

/-- The text up to a closing bracket and the text after it. At least one character comes first,
which may be a bracket itself. -/
def splitBracket : List Char → Option (List Char × List Char)
  | [] => none
  | c :: cs =>
    let inside := cs.takeWhile (· != ']')
    match cs.drop inside.length with
    | [] => none
    | _ :: rest => some (c :: inside, rest)

/-- The class after an opening bracket. -/
def readClass : List Char → Option (Token × List Char)
  | '!' :: cs => (splitBracket cs).map fun (inside, rest) => (.except (readRanges inside), rest)
  | cs => (splitBracket cs).map fun (inside, rest) => (.within (readRanges inside), rest)

theorem splitBracket_length {cs inside rest : List Char}
    (h : splitBracket cs = some (inside, rest)) :
    rest.length < cs.length := by
  cases cs with
  | nil => simp [splitBracket] at h
  | cons c cs =>
    simp only [splitBracket] at h
    split at h
    · simp at h
    · rename_i d tail hd
      have := congrArg List.length hd
      simp only [Option.some.injEq, Prod.mk.injEq] at h
      simp at this
      obtain ⟨_, rfl⟩ := h
      simp
      omega

theorem readClass_length {cs rest : List Char} {t : Token} (h : readClass cs = some (t, rest)) :
    rest.length < cs.length := by
  unfold readClass at h
  split at h
  · rw [Option.map_eq_some_iff] at h
    obtain ⟨⟨a, b⟩, h1, h2⟩ := h
    have := splitBracket_length h1
    simp only [Prod.mk.injEq] at h2
    simp [← h2.2]
    omega
  · rw [Option.map_eq_some_iff] at h
    obtain ⟨⟨a, b⟩, h1, h2⟩ := h
    have := splitBracket_length h1
    simp_all

/-- Two runs of components in a row are one, unless they open the pattern. -/
def pushComponents (tokens : List Token) : List Token :=
  if 1 < tokens.length && tokens.getLast? == some .anyComponents then tokens
  else tokens ++ [.anyComponents]

/-- Whether a component may begin after this character. -/
def startsComponent (before : Option Char) : Bool := before.all (· == '/')

/-- Reads from position `pos` on, after the given character and tokens. -/
def readFrom (pos : Nat) (before : Option Char) (tokens : List Token) (cs : List Char) :
    Except PatternFault (List Token) :=
  match cs with
  | [] => .ok tokens
  | '?' :: rest => readFrom (pos + 1) (some '?') (tokens ++ [.anyChar]) rest
  | '*' :: '*' :: '*' :: _ => .error (.tooManyStars (pos + 2))
  | '*' :: '*' :: rest =>
    if !startsComponent before then .error (.partialComponent (pos - 1))
    else
      match rest with
      | [] => .ok (pushComponents tokens)
      | c :: after =>
        if c == '/' then readFrom (pos + 3) (some '/') (pushComponents tokens) after
        else .error (.partialComponent (pos + 2))
  | '*' :: rest => readFrom (pos + 1) (some '*') (tokens ++ [.anyText]) rest
  | '[' :: rest =>
    match _h : readClass rest with
    | none => .error (.openRange pos)
    | some (token, after) =>
      readFrom (pos + 1 + (rest.length - after.length)) (some ']') (tokens ++ [token]) after
  | c :: rest => readFrom (pos + 1) (some c) (tokens ++ [.char c]) rest
termination_by cs.length
decreasing_by
  all_goals simp only [List.length_cons]
  all_goals first | omega | exact Nat.lt_succ_of_lt (readClass_length ‹_›)

def Pattern.read (text : String) : Except PatternFault Pattern :=
  (readFrom 0 none [] text.toList).map Pattern.mk

/-! ### Matching -/

/-- Whether a token that stands for one character matches it. -/
def Token.matchesChar : Token → Char → Bool
  | .char d, c => c == d
  | .anyChar, _ => true
  | .within ranges, c => ranges.any (·.contains c)
  | .except ranges, c => !ranges.any (·.contains c)
  | .anyText, _ | .anyComponents, _ => false

/-- The rest of a pattern matches some end of the text. -/
def matchesEnd (matchesRest : List Char → Bool) : List Char → Bool
  | [] => matchesRest []
  | c :: cs => matchesRest (c :: cs) || matchesEnd matchesRest cs

/-- The rest of a pattern matches the text after some slash, or the end of it. -/
def matchesAfterSlash (matchesRest : List Char → Bool) : List Char → Bool
  | [] => matchesRest []
  | c :: cs => (c == '/' && matchesRest cs) || matchesAfterSlash matchesRest cs

def matchTokens : List Token → List Char → Bool
  | [], cs => cs.isEmpty
  | .anyText :: rest, cs => matchesEnd (matchTokens rest) cs
  | .anyComponents :: rest, cs => matchTokens rest cs || matchesAfterSlash (matchTokens rest) cs
  | _ :: _, [] => false
  | token :: rest, c :: cs => token.matchesChar c && matchTokens rest cs

namespace Pattern

def accepts (p : Pattern) (text : String) : Bool := matchTokens p.tokens text.toList

/-- The text of a pattern without wildcards. -/
def literal? (p : Pattern) : Option String :=
  (p.tokens.mapM fun
    | Token.char c => some c
    | _ => none).map String.ofList

def isRecursive (p : Pattern) : Bool := p.tokens.contains .anyComponents

end Pattern

/-- Texts without a star or question mark are plain paths. -/
def hasWildcard (text : String) : Bool := text.toList.any fun c => c == '*' || c == '?'

end Phrasebook.Glob
