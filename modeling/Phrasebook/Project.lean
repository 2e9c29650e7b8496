import Phrasebook.Scan
import Phrasebook.Settings
import Phrasebook.Storage

/-!
A project and a run over its files.
-/
namespace Phrasebook

structure Project where
  settings : Settings
  /-- The directory that paths of the settings are seen from. -/
  root : String
  /-- Source files in increasing order. -/
  files : List String
  table : Table

inductive ProjectFault where
  | settings (cause : SettingsFault)
  | storage (cause : StorageFault)
deriving DecidableEq, Repr

def ProjectFault.message : ProjectFault → String
  | .settings cause => cause.message
  | .storage cause => cause.message

/-- A path of the settings, seen from the project's root. -/
def resolvePath (root path : String) : String :=
  if Path.isAbsolute path then path
  else if (Path.components root).all (· == .current) then path
  else Path.join root ((Path.stripPrefix "." path).getD path)

/-- A path as it is shown in reports and stored in the table. -/
def displayPath (root path : String) : String :=
  let relative := (Path.stripPrefix root path).getD path
  let relative := (Path.stripPrefix "." relative).getD relative
  String.ofList (relative.toList.map fun c => if c == '\\' then '/' else c)

/-! ### Opening -/

/-- What the user asks for over the settings. -/
structure Request where
  sourceRoot : Option String := none
  translationsFile : Option String := none
deriving DecidableEq, Repr

/-- A project with what was noticed while it was opened. -/
structure Opened where
  project : Except ProjectFault Project
  /-- Whether the settings come from a file. -/
  fromFile : Bool := false
  skipped : Nat := 0
  log : List LogLine := []

def Request.root (r : Request) : String := r.sourceRoot.getD "."

def Request.apply (r : Request) (s : Settings) : Settings :=
  { s with translationsFile := r.translationsFile.getD s.translationsFile }

def scanRequest (root : String) (s : Settings) : ScanRequest where
  base := resolvePath root s.sourceRoot
  includes := s.includes
  ignores := s.ignores
  ignoreTestFiles := s.ignoreTestFiles

/-- Loads the settings, finds the files and loads the table. -/
def Project.open (t : FileTree) (r : Request) : Opened :=
  match Settings.load t r.root with
  | .error cause => { project := .error (.settings cause) }
  | .ok loaded =>
    let s := r.apply loaded.settings
    let found := scan t (scanRequest r.root s)
    let project :=
      match Table.load t (resolvePath r.root s.translationsFile) with
      | .error cause => .error (.storage cause)
      | .ok table => .ok ⟨s, r.root, found.files, table⟩
    { project, fromFile := loaded.fromFile, skipped := found.skipped, log := found.log }

/-! ### Running -/

/-- A run as far as it has come. -/
structure Run (γ δ : Type) where
  /-- What is on the disk. -/
  stored : δ
  table : Table
  state : γ
  report : Report := {}
  log : List LogLine := []

namespace Run

variable {γ δ : Type}

def note (r : Run γ δ) (lines : List LogLine) : Run γ δ := { r with log := r.log ++ lines }

/-- A file that could not be processed. -/
def fail (r : Run γ δ) (shown message : String) : Run γ δ :=
  { r with report := r.report.addError shown message }.note [.warning message]

variable (disk : Disk δ)

/-- Puts the new text of a file in its place. If that fails, its keys leave the table again. -/
def store (r : Run γ δ) (path shown : String) (o : FileOutcome) (isApply : Bool) : Run γ δ :=
  match o.newText, isApply with
  | some text, true =>
    match disk.write path text r.stored with
    | (.ok _, stored) => { r with stored, report := r.report.addOutcome shown o }
    | (.error cause, stored) =>
      { r with stored, table := r.table.rollback o.inserted }.fail shown
        ("Failed to write " ++ shown ++ ": " ++ cause.message)
  | _, _ => { r with report := r.report.addOutcome shown o }

variable (p : Project) (generate : KeyGenerator γ) (isApply : Bool)

/-- Processes one file. -/
def file (r : Run γ δ) (path : String) : Run γ δ :=
  let shown := displayPath p.root path
  let info := FileInfo.classify (validPatterns p.settings.dataFiles) shown
  let r := r.note [.debug ("processing " ++ shown ++ " (" ++ info.kind.text ++ ")")]
  match disk.readText path r.stored with
  | (.error cause, stored) =>
    { r with stored }.fail shown ("Failed to read " ++ shown ++ ": " ++ cause.message)
  | (.ok code, stored) =>
    let x := extract code info p.settings.options generate r.table r.state
    let r := { r with stored, table := x.table, state := x.state }.note x.log
    match x.result with
    | .error fault => r.fail shown fault.message
    | .ok o => r.store disk path shown o isApply

def files (r : Run γ δ) (paths : List String) : Run γ δ :=
  paths.foldl (file disk p generate isApply) r

end Run

/-- The files that a run writes besides sources. -/
def Project.outputs (p : Project) (table : Table) (report : Report) :
    List (String × Json.Value) :=
  [(resolvePath p.root p.settings.translationsFile, table.toJson)]
  ++ (p.settings.messagesFile.map fun path => (resolvePath p.root path, table.messagesJson)).toList
  ++ [(resolvePath p.root p.settings.reportFile, report.toJson)]

/-- Processes every file in order against the table. Only with `isApply` is anything written. -/
def Project.run {γ δ : Type} (p : Project) (disk : Disk δ) (stored : δ) (generate : KeyGenerator γ)
    (state : γ) (isApply : Bool) : Except StorageFault Unit × Run γ δ :=
  let r := Run.files disk p generate isApply { stored, table := p.table, state } p.files
  if isApply then
    let (result, stored) := writeAll disk r.stored (p.outputs r.table r.report)
    (result, { r with stored })
  else (.ok (), r)

end Phrasebook
