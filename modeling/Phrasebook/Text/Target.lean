/-!
The script whose text is extracted, and small rules on names.
-/
namespace Phrasebook.Text

/-- Han ideographs of the basic block and of extension A. -/
def isTarget (c : Char) : Bool :=
  (0x4e00 ≤ c.toNat && c.toNat ≤ 0x9fff) || (0x3400 ≤ c.toNat && c.toNat ≤ 0x4dbf)

def hasTarget (text : String) : Bool := text.toList.any isTarget

def isIdentifierStart (c : Char) : Bool := c.isAlpha || c == '_' || c == '$'

def isIdentifierPart (c : Char) : Bool := c.isAlphanum || c == '_' || c == '$'

/-- An identifier of ASCII letters, digits, `_` and `$`. -/
def isIdentifier (name : String) : Bool :=
  match name.toList with
  | [] => false
  | c :: cs => isIdentifierStart c && cs.all isIdentifierPart

/-- Components are named with an upper-case letter first. -/
def isComponentName (name : String) : Bool := name.toList.head?.any Char.isUpper

/-- Letters and digits of a name, with the start of each further word in upper case. -/
def camelFrom (started raised : Bool) : List Char → List Char
  | [] => []
  | c :: cs =>
    if !c.isAlphanum then camelFrom started started cs
    else if !started then c.toLower :: camelFrom true false cs
    else if raised then c.toUpper :: camelFrom true false cs
    else c :: camelFrom true false cs

/-- A name such as `user-profile` or `UserProfile` as `userProfile`. -/
def lowerCamel (name : String) : String := String.ofList (camelFrom false false name.toList)

end Phrasebook.Text
