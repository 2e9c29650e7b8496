import Phrasebook.Extract
import Phrasebook.Json.Value

/-!
What a run over many files comes to.
-/
namespace Phrasebook

structure FileReport where
  file : String
  changed : Bool
  stats : FileStats
deriving DecidableEq, Repr

/-- A file that could not be processed, and is left as it was. -/
structure FileError where
  file : String
  error : String
deriving DecidableEq, Repr

structure Totals where
  filesScanned : Nat := 0
  filesChanged : Nat := 0
  extracted : Nat := 0
  reusedKeys : Nat := 0
  newKeys : Nat := 0
  deferredBindings : Nat := 0
  interpolationCount : Nat := 0
  lazyAccessors : Nat := 0
  unrecognized : Nat := 0
  missing : Nat := 0
deriving DecidableEq, Repr

def Totals.add (t : Totals) (changed : Bool) (s : FileStats) : Totals :=
  { t with
    filesScanned := t.filesScanned + 1
    filesChanged := t.filesChanged + changed.toNat
    extracted := t.extracted + s.extracted
    reusedKeys := t.reusedKeys + s.reusedKeys
    deferredBindings := t.deferredBindings + s.deferredBindings
    interpolationCount := t.interpolationCount + s.interpolationCount
    lazyAccessors := t.lazyAccessors + s.lazyAccessors
    unrecognized := t.unrecognized + s.unrecognized.length
    missing := t.missing + s.missing.length }

structure Report where
  totals : Totals := {}
  /-- Files with something to say. -/
  files : List FileReport := []
  deferredBindings : List DeferredBinding := []
  collisions : List Collision := []
  errors : List FileError := []
deriving DecidableEq, Repr

inductive ExitStatus where
  /-- Nothing is left to do. -/
  | success
  /-- Changes are pending, or some text could not be extracted. -/
  | failure
  /-- Files or the command itself failed. -/
  | error
deriving DecidableEq, Repr

def ExitStatus.code : ExitStatus → Nat
  | .success => 0
  | .failure => 1
  | .error => 2

namespace Report

def addFile (r : Report) (file : String) (changed : Bool) (stats : FileStats) : Report :=
  { r with
    totals := r.totals.add changed stats
    files := if changed || stats != {} then r.files ++ [⟨file, changed, stats⟩] else r.files }

def addError (r : Report) (file : String) (error : String) : Report :=
  { r with
    totals := { r.totals with filesScanned := r.totals.filesScanned + 1 }
    errors := r.errors ++ [⟨file, error⟩] }

/-- Adds a file that was processed. -/
def addOutcome (r : Report) (file : String) (o : FileOutcome) : Report :=
  { r with
    totals := { r.totals with newKeys := r.totals.newKeys + o.newKeys }
    deferredBindings := r.deferredBindings ++ o.deferred
    collisions := r.collisions ++ o.collisions }.addFile file o.newText.isSome o.stats

def missing (r : Report) : List Sample := r.files.flatMap (·.stats.missing)

def unrecognized (r : Report) : List Sample := r.files.flatMap (·.stats.unrecognized)

/-- Without writing, files that would change are still to be done. -/
def exitStatus (r : Report) (isApply : Bool) : ExitStatus :=
  if !r.errors.isEmpty then .error
  else if 0 < r.totals.missing || (!isApply && 0 < r.totals.filesChanged) then .failure
  else .success

end Report

/-! ### As JSON -/

open Json (Value)

def Location.toJson (l : Location) : Value :=
  .object [("file", .text l.file), ("line", .ofNat l.line), ("column", .ofNat l.column)]

def Sample.toJson (s : Sample) : Value :=
  .object [("text", .text s.text), ("nodeKind", .text s.form.text),
    ("reason", .text s.reason.text), ("location", s.location.toJson)]

def DeferredBinding.toJson (d : DeferredBinding) : Value :=
  .object [("name", .text d.name), ("key", .text d.key), ("location", d.location.toJson)]

def Collision.toJson (c : Collision) : Value :=
  .object [("key", .text c.key), ("existingText", .text c.existingText), ("text", .text c.text),
    ("assignedKey", .text c.assignedKey), ("file", .text c.file)]

def FileStats.members (s : FileStats) : List (String × Value) :=
  [("extracted", .ofNat s.extracted), ("reusedKeys", .ofNat s.reusedKeys),
    ("deferredBindings", .ofNat s.deferredBindings),
    ("interpolationCount", .ofNat s.interpolationCount),
    ("lazyAccessors", .ofNat s.lazyAccessors),
    ("unrecognizedSamples", .list (s.unrecognized.map Sample.toJson)),
    ("missingSamples", .list (s.missing.map Sample.toJson))]

def FileReport.toJson (f : FileReport) : Value :=
  .object ([("file", .text f.file), ("changed", .bool f.changed)] ++ f.stats.members)

def FileError.toJson (e : FileError) : Value :=
  .object [("file", .text e.file), ("error", .text e.error)]

def Totals.toJson (t : Totals) : Value :=
  .object [("filesScanned", .ofNat t.filesScanned), ("filesChanged", .ofNat t.filesChanged),
    ("extracted", .ofNat t.extracted), ("reusedKeys", .ofNat t.reusedKeys),
    ("newKeys", .ofNat t.newKeys), ("deferredBindings", .ofNat t.deferredBindings),
    ("interpolationCount", .ofNat t.interpolationCount),
    ("lazyAccessors", .ofNat t.lazyAccessors), ("unrecognized", .ofNat t.unrecognized),
    ("missing", .ofNat t.missing)]

def Report.toJson (r : Report) : Value :=
  .object [("totals", r.totals.toJson), ("files", .list (r.files.map FileReport.toJson)),
    ("deferredBindings", .list (r.deferredBindings.map DeferredBinding.toJson)),
    ("collisions", .list (r.collisions.map Collision.toJson)),
    ("errors", .list (r.errors.map FileError.toJson))]

end Phrasebook
