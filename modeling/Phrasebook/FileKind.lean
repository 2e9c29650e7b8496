import Phrasebook.Glob.Pattern
import Phrasebook.Path

/-!
Files by their role in a project.
-/
namespace Phrasebook

inductive FileKind where
  | component
  | data
  | router
  | constants
  | utils
deriving DecidableEq, Repr

def FileKind.text : FileKind → String
  | .component => "component"
  | .data => "data"
  | .router => "router"
  | .constants => "constants"
  | .utils => "utils"

structure FileInfo where
  /-- The path shown in reports and stored with messages. -/
  path : String
  kind : FileKind
deriving DecidableEq, Repr

namespace FileInfo

/-- Files of pure data keep their markup text. -/
def isData (f : FileInfo) : Bool := f.kind == .data

/-- Markup is allowed everywhere but in plain `.ts` files. -/
def hasMarkup (f : FileInfo) : Bool := !f.path.endsWith ".ts"

end FileInfo

/-- The role that a directory or file of this name has. -/
def roleOf (names : List String) : FileKind :=
  let hasAny (known : List String) : Bool := names.any known.contains
  if hasAny ["router", "routes", "routers"] then .router
  else if hasAny ["constants", "constant", "const", "enums"] then .constants
  else if hasAny ["utils", "util", "helpers", "helper", "lib"] then .utils
  else .component

def lowerAscii (text : String) : String := String.ofList (text.toList.map Char.toLower)

/-- Names in a path that tell its role: its components, and the file name without extension. -/
def roleNames (path : String) : List String :=
  ((Path.components path).map (·.text) ++ [(Path.fileStem path).getD ""]).map lowerAscii

/-- The role of a file; those that match a data pattern are data. -/
def FileInfo.classify (dataPatterns : List Glob.Pattern) (path : String) : FileInfo :=
  ⟨path, if dataPatterns.any (·.accepts path) then .data else roleOf (roleNames path)⟩

/-- The patterns among texts; a text that is none is left out. -/
def validPatterns (texts : List String) : List Glob.Pattern :=
  texts.filterMap fun text => (Glob.Pattern.read text).toOption

/-- Source files that texts are extracted from; declaration files are not among them. -/
def isScannable (path : String) : Bool :=
  let name := (Path.fileName path).getD ""
  !name.endsWith ".d.ts" && ["tsx", "ts", "jsx", "js"].any (Path.extension path == some ·)

/-- Where data is kept unless told otherwise. -/
def defaultDataFiles : List String :=
  ["**/data/**", "**/mock/**", "**/mocks/**", "**/*.data.ts", "**/*.data.js"]

end Phrasebook
