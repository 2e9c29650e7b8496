import Phrasebook.FileKind
import Phrasebook.FileTree
import Phrasebook.Json.Decode
import Phrasebook.Options
import Phrasebook.Text.Space
import Phrasebook.Text.Target

/-!
The settings of a project, which a file in its directory or above may give.
-/
namespace Phrasebook

structure Settings where
  /-- Paths and patterns of files that are left out. -/
  ignores : List String := []
  /-- Directories and patterns of directories that are searched. -/
  includes : List String := ["src"]
  sourceRoot : String := "./"
  ignoreTestFiles : Bool := true
  lookupFunction : String := "t"
  /-- The module that the lookup function is imported from. -/
  lookupImportSource : String := "@/i18n"
  /-- Calls whose arguments are never extracted. -/
  skipFunctions : List String := ["console", "logger", "debug"]
  /-- Patterns of files of pure data. -/
  dataFiles : List String := defaultDataFiles
  translationsFile : String := "./i18n/translations.json"
  /-- A second file with the texts alone. -/
  messagesFile : Option String := none
  reportFile : String := "./i18n/extract-report.json"
deriving DecidableEq, Repr

inductive SettingsFault where
  | unreadable (path : String) (cause : FileFault)
  | malformed (path : String) (cause : Json.Fault)
  | badPattern (field pattern : String) (cause : Glob.PatternFault)
  | badLookupFunction (name : String)
  | noImportSource
deriving DecidableEq, Repr

def SettingsFault.message : SettingsFault → String
  | .unreadable path cause =>
    "Failed to read config file: " ++ Text.showQuoted path ++ ": " ++ cause.message
  | .malformed path cause =>
    "Failed to parse config file: " ++ Text.showQuoted path ++ ": " ++ cause.message
  | .badPattern field pattern cause =>
    "Invalid glob pattern in '" ++ field ++ "': \"" ++ pattern ++ "\": " ++ cause.message
  | .badLookupFunction name => "Invalid 'lookupFunction': \"" ++ name ++ "\" is not an identifier"
  | .noImportSource => "'lookupImportSource' must not be empty"

namespace Settings

def options (s : Settings) : Options where
  lookupFunction := s.lookupFunction
  importSource := s.lookupImportSource
  skipFunctions := s.skipFunctions

def toJson (s : Settings) : Json.Value :=
  .object ([("ignores", .texts s.ignores), ("includes", .texts s.includes),
    ("sourceRoot", .text s.sourceRoot), ("ignoreTestFiles", .bool s.ignoreTestFiles),
    ("lookupFunction", .text s.lookupFunction),
    ("lookupImportSource", .text s.lookupImportSource),
    ("skipFunctions", .texts s.skipFunctions), ("dataFiles", .texts s.dataFiles),
    ("translationsFile", .text s.translationsFile)]
    ++ (s.messagesFile.map fun path => ("messagesFile", .text path)).toList
    ++ [("reportFile", .text s.reportFile)])

/-! ### Reading -/

/-- Settings as far as they are given. -/
structure Draft where
  ignores : Option (List String) := none
  includes : Option (List String) := none
  sourceRoot : Option String := none
  ignoreTestFiles : Option Bool := none
  lookupFunction : Option String := none
  lookupImportSource : Option String := none
  skipFunctions : Option (List String) := none
  dataFiles : Option (List String) := none
  translationsFile : Option String := none
  messagesFile : Option (Option String) := none
  reportFile : Option String := none

namespace Draft

open Json (RecordField readText readTexts readBool readOptionalText)

def fields : List (RecordField Draft) :=
  [⟨"ignores", (·.ignores.isSome), fun d => do return { d with ignores := ← readTexts }⟩,
    ⟨"includes", (·.includes.isSome), fun d => do return { d with includes := ← readTexts }⟩,
    ⟨"sourceRoot", (·.sourceRoot.isSome), fun d => do return { d with sourceRoot := ← readText }⟩,
    ⟨"ignoreTestFiles", (·.ignoreTestFiles.isSome),
      fun d => do return { d with ignoreTestFiles := ← readBool }⟩,
    ⟨"lookupFunction", (·.lookupFunction.isSome),
      fun d => do return { d with lookupFunction := ← readText }⟩,
    ⟨"lookupImportSource", (·.lookupImportSource.isSome),
      fun d => do return { d with lookupImportSource := ← readText }⟩,
    ⟨"skipFunctions", (·.skipFunctions.isSome),
      fun d => do return { d with skipFunctions := ← readTexts }⟩,
    ⟨"dataFiles", (·.dataFiles.isSome), fun d => do return { d with dataFiles := ← readTexts }⟩,
    ⟨"translationsFile", (·.translationsFile.isSome),
      fun d => do return { d with translationsFile := ← readText }⟩,
    ⟨"messagesFile", (·.messagesFile.isSome),
      fun d => do return { d with messagesFile := ← readOptionalText }⟩,
    ⟨"reportFile", (·.reportFile.isSome), fun d => do return { d with reportFile := ← readText }⟩]

/-- What is not given has its default. -/
def settings (d : Draft) : Settings :=
  let s : Settings := {}
  { ignores := d.ignores.getD s.ignores
    includes := d.includes.getD s.includes
    sourceRoot := d.sourceRoot.getD s.sourceRoot
    ignoreTestFiles := d.ignoreTestFiles.getD s.ignoreTestFiles
    lookupFunction := d.lookupFunction.getD s.lookupFunction
    lookupImportSource := d.lookupImportSource.getD s.lookupImportSource
    skipFunctions := d.skipFunctions.getD s.skipFunctions
    dataFiles := d.dataFiles.getD s.dataFiles
    translationsFile := d.translationsFile.getD s.translationsFile
    messagesFile := d.messagesFile.getD s.messagesFile
    reportFile := d.reportFile.getD s.reportFile }

end Draft

def read (text : String) : Except Json.Fault Settings :=
  ((Json.readRecord "Config" Draft.fields {}).run text).map Draft.settings

/-! ### Checks -/

def checkPatterns (field : String) (patterns : List String) : Except SettingsFault Unit :=
  patterns.forM fun p =>
    match Glob.Pattern.read p with
    | .ok _ => .ok ()
    | .error cause => .error (.badPattern field p cause)

/-- Patterns must be well formed, and the lookup must be callable and importable. -/
def validate (s : Settings) : Except SettingsFault Unit := do
  checkPatterns "ignores" s.ignores
  checkPatterns "includes" (s.includes.filter Glob.hasWildcard)
  checkPatterns "dataFiles" s.dataFiles
  if !Text.isIdentifier s.lookupFunction then .error (.badLookupFunction s.lookupFunction)
  if Text.trim s.lookupImportSource == "" then .error .noImportSource

/-! ### The settings file -/

def fileName : String := ".glotmodrc.json"

/-- The settings file of a directory or of one above it. The search ends at the top of a
repository. -/
def findFrom (t : FileTree) : Nat → String → Option String
  | 0, _ => none
  | fuel + 1, dir =>
    let path := Path.join dir fileName
    if t.pathExists path then some path
    else if t.pathExists (Path.join dir ".git") then none
    else (Path.parent dir).bind (findFrom t fuel)

def find (t : FileTree) (dir : String) : Option String :=
  findFrom t ((Path.components dir).length + 2) dir

structure Loaded where
  settings : Settings
  fromFile : Bool
deriving DecidableEq, Repr

/-- The settings for a directory. -/
def load (t : FileTree) (dir : String) : Except SettingsFault Loaded := do
  match find t dir with
  | none => return ⟨{}, false⟩
  | some path =>
    match t.readText path with
    | .error cause => .error (.unreadable path cause)
    | .ok text =>
      match read text with
      | .error cause => .error (.malformed path cause)
      | .ok s =>
        s.validate
        return ⟨s, true⟩

end Settings

end Phrasebook
