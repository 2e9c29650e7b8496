import Phrasebook.FileTree
import Phrasebook.Glob.Pattern

/-!
The paths below a directory that match a pattern, found component by component.
-/
namespace Phrasebook.Glob

/-- A pattern split at its slashes. -/
structure PathPattern where
  /-- Where the search starts: the top of the file system or the directory itself. -/
  start : String
  components : List Pattern
  /-- A slash at the end asks for directories. -/
  onlyDirs : Bool

/-- Components between slashes; one slash at the end adds none. -/
def splitComponents (text : String) : List String :=
  let segments := Path.segments text
  if segments.getLast? == some "" then segments.dropLast else segments

def PathPattern.read (text : String) : Except PatternFault PathPattern := do
  let _ ← Pattern.read text
  let isAbsolute := Path.isAbsolute text
  let body := String.ofList (if isAbsolute then text.toList.dropWhile (· == '/') else text.toList)
  let components ← (splitComponents body).mapM Pattern.read
  return {
    start := if isAbsolute then "/" else "."
    components := if body == "" then [⟨[]⟩] else components
    onlyDirs := text.endsWith "/" }

/-- The path of an entry; below the starting directory it is the name alone. -/
def entryPath (path name : String) : String :=
  if Path.components path == [.current] then name else Path.join path name

/-- Dots are matched only by a pattern that starts with one. -/
def specialNames (pattern : Pattern) : List String :=
  if pattern.tokens.head? == some (.char '.') then [".", ".."].filter pattern.accepts else []

/-- The pattern from its last component in a row that stands for any number of them. -/
def lastRecursive : List Pattern → List Pattern
  | p :: q :: rest => if q.isRecursive then lastRecursive (q :: rest) else p :: q :: rest
  | ps => ps

variable (t : FileTree) (onlyDirs : Bool)

/-- A path that is known to match, if it is of the right kind. -/
def accepted (path : String) : List String :=
  if !onlyDirs || t.isDir path then [path] else []

mutual

/-- Paths below `path` that match the components. -/
def below : Nat → List Pattern → String → List String
  | 0, _, _ => []
  | _, [], _ => []
  | fuel + 1, p :: rest, path =>
    match p.literal? with
    | some name =>
      let next := entryPath path name
      let isThere := if name == "." || name == ".." then t.isDir path else t.pathExists next
      if !isThere then []
      else if rest.isEmpty then accepted t onlyDirs next
      else below fuel rest next
    | none =>
      if !t.isDir path then []
      else
        (t.children path).flatMap (fun name => entry fuel (p :: rest) (entryPath path name))
        ++ (specialNames p).flatMap fun name =>
          let next := Path.join path name
          if rest.isEmpty then accepted t onlyDirs next else below fuel rest next

/-- Paths at or below an entry that match the components, the first of which is for the entry. -/
def entry : Nat → List Pattern → String → List String
  | 0, _, _ => []
  | _, [], _ => []
  | fuel + 1, p :: rest, path =>
    if !p.isRecursive then matching fuel (p :: rest) path
    else
      match lastRecursive (p :: rest) with
      | [] => []
      | [last] => if t.isDir path then path :: below fuel [last] path else []
      | last :: after =>
        (if t.isDir path then below fuel (last :: after) path else [])
        ++ matching fuel after path

/-- The entry's own name against the first component. -/
def matching : Nat → List Pattern → String → List String
  | 0, _, _ => []
  | _, [], _ => []
  | fuel + 1, p :: rest, path =>
    match Path.fileName path with
    | none => []
    | some name =>
      if !p.accepts name then []
      else if rest.isEmpty then accepted t onlyDirs path
      else below fuel rest path

end

/-- All paths that match. Every step goes down the tree or on in the pattern. -/
def expand (p : PathPattern) : List String :=
  below t p.onlyDirs (3 * (p.components.length + 1) * (t.root.height + 2)) p.components p.start

end Phrasebook.Glob
