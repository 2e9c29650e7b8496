import Phrasebook.Extract
import Phrasebook.Glob.Expand

/-!
The search for source files.
-/
namespace Phrasebook

def testFilePatterns : List String :=
  ["**/*.test.tsx", "**/*.test.ts", "**/*.test.jsx", "**/*.test.js", "**/*.spec.tsx",
    "**/*.spec.ts", "**/*.spec.jsx", "**/*.spec.js", "**/__tests__/**"]

/-- Where to search, and what to leave out. -/
structure ScanRequest where
  base : String
  includes : List String
  ignores : List String
  ignoreTestFiles : Bool
deriving DecidableEq, Repr

/-- What is left out: paths with everything below them, and patterns. -/
structure Ignored where
  paths : List String
  patterns : List Glob.Pattern
deriving DecidableEq, Repr

def Ignored.covers (i : Ignored) (path : String) : Bool :=
  i.paths.any (Path.startsWith · path) || i.patterns.any (·.accepts path)

namespace ScanRequest

def ignored (r : ScanRequest) : Ignored where
  paths := (r.ignores.filter (!Glob.hasWildcard ·)).map (Path.join r.base)
  patterns :=
    validPatterns (r.ignores.filter Glob.hasWildcard)
      ++ (if r.ignoreTestFiles then validPatterns testFilePatterns else [])

def ignoreLog (r : ScanRequest) : List LogLine :=
  (r.ignores.filter Glob.hasWildcard).filterMap fun p =>
    match Glob.Pattern.read p with
    | .ok _ => none
    | .error cause =>
      some (.warning ("invalid ignore pattern '" ++ p ++ "': " ++ cause.message))

/-- Where one include leads. -/
def includeRoots (r : ScanRequest) (t : FileTree) (wanted : String) :
    List String × List LogLine :=
  let path := Path.join r.base wanted
  if Glob.hasWildcard wanted then
    match Glob.PathPattern.read path with
    | .ok p => ((Glob.expand t p).filter t.isDir, [])
    | .error cause =>
      ([], [.warning ("invalid glob pattern '" ++ wanted ++ "': " ++ cause.message)])
  else if t.pathExists path then ([path], [])
  else ([], [.debug ("include path does not exist: " ++ path)])

/-- The directories to search; without includes the base itself. -/
def roots (r : ScanRequest) (t : FileTree) : List String × List LogLine :=
  if r.includes.isEmpty then ([r.base], [])
  else
    let found := r.includes.map (r.includeRoots t)
    (found.flatMap (·.1), found.flatMap (·.2))

end ScanRequest

structure ScanResult where
  /-- Paths in increasing order. -/
  files : List String
  /-- Paths that could not be entered. -/
  skipped : Nat
  log : List LogLine
deriving DecidableEq, Repr

def isWanted (i : Ignored) (path : String) (node : FileNode) : Bool :=
  !node.isDir && !i.covers path && isScannable path

/-- Source files at or below a directory. -/
def filesBelow (t : FileTree) (i : Ignored) (root : String) : List String :=
  match t.get root with
  | .ok node => ((node.walk root).filter fun (path, n) => isWanted i path n).map (·.1)
  | .error _ => []

def accessLog (t : FileTree) (root : String) : List LogLine :=
  match t.get root with
  | .ok _ => []
  | .error cause =>
    [.debug ("cannot access path: IO error for operation on " ++ root ++ ": " ++ cause.message)]

/-- The source files of a project. -/
def scan (t : FileTree) (r : ScanRequest) : ScanResult :=
  let (roots, log) := r.roots t
  let denied := roots.flatMap (accessLog t)
  { files := Text.sortTexts (roots.flatMap (filesBelow t r.ignored)).eraseDups
    skipped := denied.length
    log := r.ignoreLog ++ log ++ denied }

end Phrasebook
