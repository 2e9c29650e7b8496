/-!
Paths as texts. What a path means is decided by its components: repeated slashes and single dots
inside it do not count, while its text is kept as written.
-/
namespace Phrasebook.Path

/-- The pieces of a text between slashes. -/
def splitSlashes : List Char → List (List Char)
  | [] => [[]]
  | '/' :: cs => [] :: splitSlashes cs
  | c :: cs =>
    match splitSlashes cs with
    | [] => [[c]]
    | piece :: rest => (c :: piece) :: rest

def segments (path : String) : List String := (splitSlashes path.toList).map String.ofList

inductive Component where
  | root
  | current
  | parent
  | name (name : String)
deriving DecidableEq, Repr

def Component.text : Component → String
  | .root => "/"
  | .current => "."
  | .parent => ".."
  | .name n => n

/-- A path as its start and the segments after it. -/
structure Parts where
  /-- A slash or dot that the path begins with. -/
  head : Option Component
  body : List String
deriving DecidableEq, Repr

namespace Parts

def ofPath (path : String) : Parts :=
  match segments path with
  | [] | [""] => ⟨none, []⟩
  | "" :: rest => ⟨some .root, rest⟩
  | "." :: rest => ⟨some .current, rest⟩
  | body => ⟨none, body⟩

def text (p : Parts) : String :=
  let body := "/".intercalate p.body
  match p.head with
  | some .root => "/" ++ body
  | some c => if p.body.isEmpty then c.text else c.text ++ "/" ++ body
  | none => body

end Parts

/-- Empty segments and single dots lead nowhere. -/
def isStep (segment : String) : Bool := segment != "" && segment != "."

def componentOf (segment : String) : Component :=
  if segment == ".." then .parent else .name segment

def Parts.components (p : Parts) : List Component :=
  p.head.toList ++ (p.body.filter isStep).map componentOf

def components (path : String) : List Component := (Parts.ofPath path).components

def isAbsolute (path : String) : Bool := (Parts.ofPath path).head == some .root

/-- The last component, if it is a name. -/
def fileName (path : String) : Option String :=
  match (components path).getLast? with
  | some (.name name) => some name
  | _ => none

/-- A file name before and after its last dot. A dot in front does not count. -/
def splitExtension (name : String) : String × Option String :=
  let cs := name.toList
  let after := (cs.reverse.takeWhile (· != '.')).reverse
  let before := cs.take (cs.length - after.length - 1)
  if after.length == cs.length || before.isEmpty then (name, none)
  else (String.ofList before, some (String.ofList after))

def fileStem (path : String) : Option String := (fileName path).map (splitExtension · |>.1)

def extension (path : String) : Option String := (fileName path).bind (splitExtension · |>.2)

def dropTrailing (body : List String) : List String :=
  (body.reverse.dropWhile (!isStep ·)).reverse

/-- The path without its last component; the root and the empty path have no parent. -/
def parent (path : String) : Option String :=
  let p := Parts.ofPath path
  match p.components.getLast? with
  | none | some .root => none
  | some .current => some ""
  | _ => some { p with body := dropTrailing (dropTrailing p.body).dropLast }.text

/-- A path seen from a directory; an absolute path stays as it is. -/
def join (base path : String) : String :=
  if isAbsolute path then path
  else if base == "" || base.endsWith "/" then base ++ path
  else base ++ "/" ++ path

/-- The segments after the first `n` steps. -/
def dropSteps : Nat → List String → List String
  | 0, body => body
  | n + 1, body => dropSteps n ((body.dropWhile (!isStep ·)).drop 1)

/-- What remains of a path below a directory that it starts with. -/
def stripPrefix (base path : String) : Option String :=
  let p := Parts.ofPath path
  let b := components base
  if b.isPrefixOf p.components then
    if b.isEmpty then some { p with body := dropTrailing p.body }.text
    else
      let rest := dropSteps (b.length - p.head.toList.length) p.body
      some ("/".intercalate (dropTrailing (rest.dropWhile (!isStep ·))))
  else none

/-- The path is the directory or lies below it. -/
def startsWith (base path : String) : Bool := (components base).isPrefixOf (components path)

end Phrasebook.Path
