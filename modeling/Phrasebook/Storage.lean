import Phrasebook.FileTree
import Phrasebook.Json.Decode
import Phrasebook.Report
import Phrasebook.Text.Space

/-!
The files that a run reads and writes besides sources: the table, the texts alone, and the report.
-/
namespace Phrasebook

open Json (Value Problem)

inductive StorageFault where
  | unreadable (path : String) (cause : FileFault)
  | malformed (path : String) (cause : Json.Fault)
  | noObject (path : String)
  | badEntry (path : String) (cause : Problem)
  | noDirectory (path : String) (cause : FileFault)
  | unwritable (path : String) (cause : FileFault)
deriving DecidableEq, Repr

def StorageFault.message : StorageFault → String
  | .unreadable path cause => "Failed to read translation table: " ++ path ++ ": " ++ cause.message
  | .malformed path cause => "Failed to parse translation table: " ++ path ++ ": " ++ cause.message
  | .noObject path => "Root of translation table must be an object: " ++ path
  | .badEntry path cause => "Invalid translation entry in " ++ path ++ ": " ++ cause.message
  | .noDirectory path cause => "Failed to create directory: " ++ path ++ ": " ++ cause.message
  | .unwritable path cause => "Failed to write file: " ++ path ++ ": " ++ cause.message

/-! ### Entries -/

namespace Entry

def toJson (e : Entry) : Value :=
  .object [("text", .text e.text), ("sourceFile", .text e.sourceFile),
    ("interpolations", .texts e.interpolations)]

/-- An entry as far as it is given. -/
structure Draft where
  text : Option String := none
  sourceFile : Option String := none
  interpolations : Option (List String) := none

def Draft.add (d : Draft) (key : String) (v : Value) : Except Problem Draft := do
  match key with
  | "text" => return { d with text := some (← v.toText) }
  | "sourceFile" => return { d with sourceFile := some (← v.toText) }
  | "interpolations" => return { d with interpolations := some (← v.toTexts) }
  | _ => return d

def Draft.entry (d : Draft) : Except Problem Entry := do
  match d.text, d.sourceFile with
  | none, _ => .error (.missingField "text")
  | some _, none => .error (.missingField "sourceFile")
  | some text, some file => return ⟨text, file, d.interpolations.getD []⟩

/-- What a list of items must hold. -/
def listed : String := "struct TranslationEntry with 3 elements"

def ofItems : List Value → Except Problem Entry
  | [] => .error (.wrongLength 0 listed)
  | [text] => do
    let _ ← text.toText
    .error (.wrongLength 1 listed)
  | [text, file] => do return ⟨← text.toText, ← file.toText, []⟩
  | [text, file, vars] => do return ⟨← text.toText, ← file.toText, ← vars.toTexts⟩
  | items@(text :: file :: vars :: _) => do
    let _ ← text.toText
    let _ ← file.toText
    let _ ← vars.toTexts
    .error (.wrongLength items.length "fewer elements in array")

/-- An entry is an object or a list. -/
def ofJson (v : Value) : Except Problem Entry :=
  match v with
  | .object members => do (← members.foldlM (fun d (key, v) => d.add key v) ({} : Draft)).entry
  | .list items => ofItems items
  | v => .error (.wrongType v.describe "struct TranslationEntry")

end Entry

/-! ### The table -/

namespace Table

def toJson (t : Table) : Value := .object (t.entries.map fun (key, e) => (key, e.toJson))

def messagesJson (t : Table) : Value :=
  .object (t.messages.map fun (key, text) => (key, .text text))

def ofMembers (members : List (String × Value)) : Except Problem Table := do
  let entries ← members.mapM fun (key, v) => do return (key, ← Entry.ofJson v)
  return ofEntries (Text.sortKeys entries)

/-- Reads a table. A file without text is an empty one. -/
def read (path text : String) : Except StorageFault Table :=
  if Text.trim text == "" then .ok {}
  else
    match Json.parse text with
    | .error cause => .error (.malformed path cause)
    | .ok (.object members) =>
      match ofMembers members with
      | .error cause => .error (.badEntry path cause)
      | .ok t => .ok t
    | .ok _ => .error (.noObject path)

/-- Loads a table; it need not be there yet. -/
def load (tree : FileTree) (path : String) : Except StorageFault Table :=
  if !tree.pathExists path then .ok {}
  else
    match tree.readText path with
    | .error cause => .error (.unreadable path cause)
    | .ok text => read path text

end Table

/-! ### Writing -/

/-- A value as the text of a file. -/
def jsonFile (v : Value) : String := v.print ++ "\n"

section

variable {δ : Type} (disk : Disk δ)

/-- Makes the directory that a file goes into. -/
def makeParent (files : δ) (path : String) : Except StorageFault Unit × δ :=
  match Path.parent path with
  | none | some "" => (.ok (), files)
  | some dir =>
    match disk.makeDirs dir files with
    | (.ok _, files) => (.ok (), files)
    | (.error cause, files) => (.error (.noDirectory dir cause), files)

/-- Writes a value to a file, in a directory that is made if need be. -/
def writeJson (files : δ) (path : String) (v : Value) : Except StorageFault Unit × δ :=
  match makeParent disk files path with
  | (.error fault, files) => (.error fault, files)
  | (.ok _, files) =>
    match disk.write path (jsonFile v) files with
    | (.ok _, files) => (.ok (), files)
    | (.error cause, files) => (.error (.unwritable path cause), files)

/-- Writes files one after another until one fails. -/
def writeAll (files : δ) : List (String × Value) → Except StorageFault Unit × δ
  | [] => (.ok (), files)
  | (path, v) :: rest =>
    match writeJson disk files path v with
    | (.ok _, files) => writeAll files rest
    | (.error fault, files) => (.error fault, files)

end

end Phrasebook
