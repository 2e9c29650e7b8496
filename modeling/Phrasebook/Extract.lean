import Phrasebook.Import
import Phrasebook.Outline.Walk
import Phrasebook.Resolution

/-!
Extraction from one file: its sites get their keys, the lookups take their places, and what is
left over is reported.
-/
namespace Phrasebook

open Script

/-- A line of the log. -/
inductive LogLine where
  | debug (text : String)
  | warning (text : String)
deriving DecidableEq, Repr

structure FileStats where
  /-- Sites replaced by a lookup. -/
  extracted : Nat := 0
  reusedKeys : Nat := 0
  deferredBindings : Nat := 0
  /-- Replaced sites with slots. -/
  interpolationCount : Nat := 0
  lazyAccessors : Nat := 0
  unrecognized : List Sample := []
  missing : List Sample := []
deriving DecidableEq, Repr

structure FileOutcome where
  /-- The new text, if it differs. -/
  newText : Option String
  stats : FileStats
  deferred : List DeferredBinding
  containerAccessors : List Location
  collisions : List Collision
  /-- Keys that were added to the table. -/
  inserted : List String
  integrity : Integrity
deriving DecidableEq, Repr

def FileOutcome.newKeys (o : FileOutcome) : Nat := o.inserted.length

inductive ExtractFault where
  | syntaxError (path : String)
  | noKeys (path : String) (cause : KeyFault)
  /-- The new text is no module any more. -/
  | brokenResult (path : String)
deriving DecidableEq, Repr

namespace ExtractFault

def syntaxMessage (path : String) : String := "Failed to parse " ++ path ++ ": <syntax error>"

/-- Causes from the outermost in. -/
def messages : ExtractFault → List String
  | .syntaxError path => [syntaxMessage path]
  | .noKeys path cause => ["Failed to assign keys for " ++ path, cause.message]
  | .brokenResult path => ["Rewritten " ++ path ++ " no longer parses", syntaxMessage path]

def message (f : ExtractFault) : String := ": ".intercalate f.messages

end ExtractFault

/-! ### Log -/

def Collision.warning (c : Collision) : String :=
  "key \"" ++ c.key ++ "\" already holds \"" ++ c.existingText ++ "\"; \"" ++ c.text
    ++ "\" stored as \"" ++ c.assignedKey ++ "\" (" ++ c.file ++ ")"

def Integrity.warning (i : Integrity) (path : String) : String :=
  path ++ ": " ++ toString i.unmatched ++ " unmatched, " ++ toString i.doubleConsumed
    ++ " double-consumed, " ++ toString i.unconsumed ++ " unconsumed sites"

def DeferredBinding.warning (d : DeferredBinding) : String :=
  "top-level binding \x60" ++ d.name ++ "\x60 at " ++ d.location.text ++ " evaluates \"" ++ d.key
    ++ "\" at load time"

def WalkReport.warnings (r : WalkReport) (i : Integrity) (path : String) : List String :=
  r.depthAborts.map (fun l =>
    "extraction depth limit reached at " ++ l.text ++ "; subtree left untouched")
  ++ (if i.isClean then [] else [i.warning path])
  ++ r.containerAccessors.map (fun l =>
    "getter at " ++ l.text
      ++ " builds a new array on every access; identity and mutations are not kept")
  ++ r.deferred.map DeferredBinding.warning

/-! ### One file -/

/-- The module with everything that decides its extraction. -/
def Setting.of (source : Source) (file : FileInfo) (options : Options) : Setting :=
  { source, file, options, plan := Markup.Plan.build source file.isData }

def Setting.sites (s : Setting) : List Site := (s.walk Collector.handler {}).handler.sites

/-- The walk that puts the lookups in their places. -/
def Setting.apply (s : Setting) (keys : SiteKeys) : WalkOutput Applier :=
  s.walk Applier.handler { keys }

/-- The text of the module after all edits; a module with lookups imports the function. -/
def Setting.output (s : Setting) (w : WalkOutput Applier) : String :=
  let imports := if 0 < w.report.applied then importEdits s.source.items s.options else []
  splice s.source.code 0 (Text.byteLength s.source.code) (w.edits ++ imports)

def Setting.outcome (s : Setting) (w : WalkOutput Applier) (r : Resolution)
    (reread : Source) : FileOutcome where
  newText := if reread.code == s.source.code then none else some (String.ofList reread.code)
  stats :=
    { extracted := w.report.applied
      reusedKeys := r.reused
      deferredBindings := w.report.deferred.length
      interpolationCount := w.report.interpolated
      lazyAccessors := w.report.lazyAccessors
      unrecognized := w.report.unrecognized
      missing := residualScan reread s.file.path s.file.isData s.options }
  deferred := w.report.deferred
  containerAccessors := w.report.containerAccessors
  collisions := r.collisions
  inserted := r.inserted
  integrity := w.handler.integrity

/-- What the extraction from a file comes to. -/
structure Extracted (γ : Type) where
  result : Except ExtractFault FileOutcome
  /-- After a fault, the table as it was. -/
  table : Table
  state : γ
  log : List LogLine := []

/-- Extracts the texts of one file. -/
def extract {γ : Type} (code : String) (file : FileInfo) (options : Options)
    (generate : KeyGenerator γ) (table : Table) (state : γ) : Extracted γ :=
  match Source.read file.hasMarkup code with
  | .error _ => ⟨.error (.syntaxError file.path), table, state, []⟩
  | .ok source =>
    let s := Setting.of source file options
    let sites := s.sites
    let log := [.debug (file.path ++ ": " ++ toString sites.length ++ " candidate sites")]
    match resolve sites file generate table state with
    | (.error cause, state) => ⟨.error (.noKeys file.path cause), table, state, log⟩
    | (.ok (r, stored), state) =>
      let w := s.apply r.keys
      let log := log ++ r.collisions.map (.warning ·.warning) ++ w.handler.warnings.map .warning
      match Source.read file.hasMarkup (s.output w) with
      | .error _ => ⟨.error (.brokenResult file.path), stored.rollback r.inserted, state, log⟩
      | .ok reread =>
        let warnings := w.report.warnings w.handler.integrity file.path
        ⟨.ok (s.outcome w r reread), stored, state, log ++ warnings.map .warning⟩

end Phrasebook
