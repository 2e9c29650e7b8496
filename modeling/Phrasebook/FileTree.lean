import Phrasebook.Path
import Phrasebook.Text.Sorted

/-!
Files and directories from the root on, and where paths lead: absolute ones from the root, others
from the working directory. There are no links, so no path leads elsewhere than its text says.
-/
namespace Phrasebook

inductive Content where
  | text (text : String)
  /-- Bytes that are no text. -/
  | binary (bytes : List UInt8)
deriving DecidableEq, Repr

/-- Bytes as text if they are one. -/
def Content.ofBytes (bytes : ByteArray) : Content :=
  match String.fromUTF8? bytes with
  | some s => .text s
  | none => .binary bytes.toList

def Content.toBytes : Content → ByteArray
  | .text s => s.toUTF8
  | .binary bytes => ⟨bytes.toArray⟩

/-- A file, or a directory with everything below it. -/
inductive FileNode where
  | file (content : Content)
  | dir (entries : List (String × FileNode))
deriving Repr

inductive FileFault where
  | notFound
  | alreadyExists
  | notDirectory
  | isDirectory
  | nameTooLong
  | nulInName
  | notText
deriving DecidableEq, Repr

def FileFault.message : FileFault → String
  | .notFound => "No such file or directory (os error 2)"
  | .alreadyExists => "File exists (os error 17)"
  | .notDirectory => "Not a directory (os error 20)"
  | .isDirectory => "Is a directory (os error 21)"
  | .nameTooLong => "File name too long (os error 36)"
  | .nulInName => "file name contained an unexpected NUL byte"
  | .notText => "stream did not contain valid UTF-8"

namespace FileNode

def isDir : FileNode → Bool
  | .dir _ => true
  | .file _ => false

/-- What a list of names from the top leads to. -/
def at? : FileNode → List String → Option FileNode
  | t, [] => some t
  | .file _, _ :: _ => none
  | .dir entries, name :: names =>
    match entries.lookup name with
    | some t => at? t names
    | none => none

/-- Puts a node under a list of names; the directories on the way are there already. -/
def put (new : FileNode) : FileNode → List String → FileNode
  | _, [] => new
  | .file c, _ :: _ => .file c
  | .dir entries, name :: names =>
    match entries.lookup name with
    | some t => .dir (Text.putKey name (put new t names) entries)
    | none => if names.isEmpty then .dir (Text.putKey name new entries) else .dir entries

/-- A node under a list of names, with nothing beside the way to it. -/
def under (t : FileNode) : List String → FileNode
  | [] => t
  | name :: names => .dir [(name, under t names)]

mutual

/-- The number of levels. -/
def height : FileNode → Nat
  | .file _ => 0
  | .dir entries => heightAll entries + 1

def heightAll : List (String × FileNode) → Nat
  | [] => 0
  | (_, t) :: rest => max t.height (heightAll rest)

end

mutual

/-- A path with everything below it. -/
def walk (path : String) : FileNode → List (String × FileNode)
  | .file c => [(path, .file c)]
  | .dir entries => (path, .dir entries) :: walkAll path entries

def walkAll (path : String) : List (String × FileNode) → List (String × FileNode)
  | [] => []
  | (name, t) :: rest => walk (Path.join path name) t ++ walkAll path rest

end

/-- All files with their paths from the top. -/
def files (t : FileNode) : List (String × Content) :=
  (t.walk "").filterMap fun (path, node) =>
    match node with
    | .file content => some (path, content)
    | .dir _ => none

/-- Files that are new or differ from those of an earlier node. -/
def changesSince (t old : FileNode) : List (String × Content) :=
  t.files.filter fun (path, content) =>
    match old.at? (Path.segments path) with
    | some (.file before) => before != content
    | _ => true

/-- A directory holds no name of more bytes than this. -/
def isTooLong (name : String) : Bool := name.utf8ByteSize > 255

/-- One segment further. There must be a directory to go on from; the root has no other parent than
itself. -/
def follow (t : FileNode) (names : List String) (segment : String) :
    Except FileFault (List String) :=
  match t.at? names with
  | none => .error .notFound
  | some (.file _) => .error .notDirectory
  | some (.dir entries) =>
    if !Path.isStep segment then .ok names
    else if segment == ".." then .ok names.dropLast
    else if isTooLong segment then .error .nameTooLong
    else if (entries.lookup segment).isSome then .ok (names ++ [segment])
    else .error .notFound

end FileNode

/-- A file system as a program sees it. -/
structure FileTree where
  root : FileNode
  /-- The names that lead from the root to the working directory. -/
  cwd : List String
deriving Repr

namespace FileTree

/-- The working directory with everything below it. -/
def here (t : FileTree) : FileNode := (t.root.at? t.cwd).getD (.dir [])

/-- A path must be one that can be asked for at all. -/
def checkPath (path : String) : Except FileFault Unit :=
  if path.toList.contains '\x00' then .error .nulInName
  else if path.utf8ByteSize > 4095 then .error .nameTooLong
  else .ok ()

/-- Where the segments of a path lead, as names from the root. -/
def locateAll (t : FileTree) (segments : List String) : Except FileFault (List String) :=
  match segments with
  | [] | [""] => .error .notFound
  | "" :: rest => rest.foldlM t.root.follow []
  | segments => segments.foldlM t.root.follow t.cwd

def locate (t : FileTree) (path : String) : Except FileFault (List String) := do
  checkPath path
  t.locateAll (Path.segments path)

def get (t : FileTree) (path : String) : Except FileFault FileNode := do
  match t.root.at? (← t.locate path) with
  | some node => return node
  | none => .error .notFound

def pathExists (t : FileTree) (path : String) : Bool := (t.get path).isOk

def isDir (t : FileTree) (path : String) : Bool :=
  match t.get path with
  | .ok node => node.isDir
  | .error _ => false

/-- Names in a directory. -/
def children (t : FileTree) (path : String) : List String :=
  match t.get path with
  | .ok (.dir entries) => entries.map (·.1)
  | _ => []

def readText (t : FileTree) (path : String) : Except FileFault String := do
  match ← t.get path with
  | .dir _ => .error .isDirectory
  | .file (.binary _) => .error .notText
  | .file (.text text) => return text

/-- A name in a directory that is there. -/
structure Target where
  parent : List String
  name : String

def Target.names (t : Target) : List String := t.parent ++ [t.name]

/-- The segments before slashes at the end. -/
def trimSlashes (segments : List String) : List String :=
  (segments.reverse.dropWhile (· == "")).reverse

/-- Where the segments before the last one lead. -/
def locateParent (t : FileTree) (segments : List String) : Except FileFault (List String) :=
  match segments.dropLast with
  | [] => .ok t.cwd
  | [""] => .ok []
  | before => t.locateAll before

/-- Where a new entry of this path goes. Dots and a path of slashes alone are no names for it. -/
def target? (t : FileTree) (path : String) : Except FileFault (Option Target) := do
  let segments := trimSlashes (Path.segments path)
  match segments.getLast? with
  | none => if path == "" then .error .notFound else return none
  | some name =>
    let parent ← t.locateParent segments
    match t.root.at? parent with
    | none => .error .notFound
    | some (.file _) => .error .notDirectory
    | some (.dir _) =>
      return if Path.isStep name && name != ".." then some ⟨parent, name⟩ else none

/-- Writes a file, which may be there already. A slash at the end asks for a directory. -/
def writeContent (t : FileTree) (path : String) (content : Content) :
    Except FileFault FileTree := do
  checkPath path
  match ← t.target? path with
  | none => .error .isDirectory
  | some target =>
    if (Path.segments path).getLast? == some "" then .error .isDirectory
    else if FileNode.isTooLong target.name then .error .nameTooLong
    else
      match t.root.at? target.names with
      | some (.dir _) => .error .isDirectory
      | _ => return { t with root := .put (.file content) t.root target.names }

def write (t : FileTree) (path text : String) : Except FileFault FileTree :=
  t.writeContent path (.text text)

/-- Makes one directory. -/
def makeDir (t : FileTree) (path : String) : Except FileFault FileTree := do
  checkPath path
  match ← t.target? path with
  | none => .error .alreadyExists
  | some target =>
    if FileNode.isTooLong target.name then .error .nameTooLong
    else if (t.root.at? target.names).isSome then .error .alreadyExists
    else return { t with root := .put (.dir []) t.root target.names }

/-- Makes a directory and those above it that are missing. -/
def makeDirsFrom : Nat → FileTree → String → Except FileFault FileTree
  | 0, _, _ => .error .notFound
  | fuel + 1, t, path =>
    if path == "" then .ok t
    else
      match t.makeDir path with
      | .ok t => .ok t
      | .error .notFound =>
        match Path.parent path with
        | none => .error .notFound
        | some parent => do
          let t ← makeDirsFrom fuel t parent
          match t.makeDir path with
          | .ok t => return t
          | .error fault => if t.isDir path then return t else .error fault
      | .error fault => if t.isDir path then .ok t else .error fault

def makeDirs (t : FileTree) (path : String) : Except FileFault FileTree :=
  makeDirsFrom ((Path.segments path).length + 1) t path

/-- Adds a file together with the directories above it. -/
def addFile (t : FileTree) (path : String) (content : Content) : Except FileFault FileTree := do
  let t ← t.makeDirs ((Path.parent path).getD "")
  t.writeContent path content

/-- A directory as the working directory, with nothing else around it. -/
def ofNode (here : FileNode) (cwd : List String) : FileTree := ⟨here.under cwd, cwd⟩

/-- These directories and files in a new working directory. -/
def ofFiles (dirs : List String) (files : List (String × Content)) : Except FileFault FileTree := do
  let t ← dirs.foldlM makeDirs (ofNode (.dir []) ["tmp", "project"])
  files.foldlM (fun t (path, content) => t.addFile path content) t

/-- Files of the working directory that are new or differ from those of an earlier tree. -/
def changesSince (t old : FileTree) : List (String × Content) := t.here.changesSince old.here

end FileTree

/-! ### Disks -/

/-- A place to read files from and to write them to. Each operation may fail, and what is there
afterwards is up to it. -/
structure Disk (δ : Type) where
  readText (path : String) : δ → Except FileFault String × δ
  write (path text : String) : δ → Except FileFault Unit × δ
  makeDirs (path : String) : δ → Except FileFault Unit × δ

namespace FileTree

/-- A change that fails leaves the tree as it was. -/
def change (t : FileTree) : Except FileFault FileTree → Except FileFault Unit × FileTree
  | .ok new => (.ok (), new)
  | .error cause => (.error cause, t)

def disk : Disk FileTree where
  readText path t := (t.readText path, t)
  write path text t := t.change (t.write path text)
  makeDirs path t := t.change (t.makeDirs path)

end FileTree

end Phrasebook
