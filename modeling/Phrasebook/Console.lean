import Phrasebook.Report
import Phrasebook.Text.Columns

/-!
What a run prints.
-/
namespace Phrasebook

/-- A debug line is shown only on demand. -/
def LogLine.shown (verbose : Bool) : LogLine → Option String
  | .debug text => if verbose then some ("DEBUG " ++ text) else none
  | .warning text => some (" WARN " ++ text)

def unlines (lines : List String) : String := String.join (lines.map (· ++ "\n"))

def successMark : String := "✓"

def failureMark : String := "✘"

/-- The most columns that a text takes. -/
def textLimit : Nat := 40

/-- The longest start of a text that fits, and dots if anything is cut off. -/
def takeColumns : Nat → List Char → List Char
  | _, [] => []
  | room, c :: cs =>
    if room < Text.columns c then [] else c :: takeColumns (room - Text.columns c) cs

def shorten (text : String) (limit : Nat) : String :=
  if Text.textColumns text.toList ≤ limit then text
  else String.ofList (takeColumns (limit - 3) text.toList) ++ "..."

def arrow (place : String) : String := "  --> " ++ place

def Sample.lines (severity : String) (s : Sample) : List String :=
  [severity ++ ": \"" ++ shorten s.text textLimit ++ "\"  " ++ s.reason.text,
    arrow s.location.text]

def DeferredBinding.lines (d : DeferredBinding) : List String :=
  ["warning: \x60" ++ d.name ++ "\x60 looks up \"" ++ d.key ++ "\" when the module loads",
    arrow d.location.text,
    "  = note: move the lookup into a function if the locale can change at runtime"]

def Collision.lines (c : Collision) : List String :=
  ["warning: key \"" ++ c.key ++ "\" already holds \"" ++ c.existingText ++ "\"; \"" ++ c.text
      ++ "\" stored as \"" ++ c.assignedKey ++ "\"",
    arrow c.file]

def FileError.lines (e : FileError) : List String := ["error: " ++ e.error, arrow e.file]

/-- By file, then line, then column. -/
def Location.before (a b : Location) : Bool :=
  a.file < b.file
    || (a.file == b.file && (a.line < b.line || (a.line == b.line && a.column ≤ b.column)))

def sortSamples (samples : List Sample) : List Sample :=
  Text.sortBy (fun a b => a.location.before b.location) samples

def plural (n : Nat) (one many : String) : String := if n == 1 then one else many

/-- A run as it is summed up. -/
structure Summary where
  report : Report
  isApply : Bool
  /-- The path of the table as it was given. -/
  translationsFile : String

namespace Summary

/-- A line for a count that is not zero. -/
def countLine (name : String) (n : Nat) : List String :=
  if n == 0 then [] else ["  - " ++ name ++ ": " ++ toString n]

def totalsLines (s : Summary) : List String :=
  let t := s.report.totals
  let verb := if s.isApply then "Extracted" else "Would extract"
  [verb ++ " " ++ toString t.extracted ++ " text(s) in " ++ toString t.filesChanged ++ " file(s):",
    "  - new keys: " ++ toString t.newKeys, "  - reused keys: " ++ toString t.reusedKeys]
  ++ countLine "interpolated" t.interpolationCount
  ++ countLine "lazy accessors" t.lazyAccessors
  ++ countLine "deferred bindings" t.deferredBindings
  ++ [if s.isApply then successMark ++ " Wrote " ++ s.translationsFile
      else "Run with --apply to rewrite these files."]

def resultLines (s : Summary) : List String :=
  let t := s.report.totals
  if 0 < t.extracted then s.totalsLines
  else if s.report.errors.isEmpty then
    [successMark ++ " Checked " ++ toString t.filesScanned ++ " source "
      ++ plural t.filesScanned "file" "files" ++ " - nothing to extract"]
  else []

def problemLines (s : Summary) : List String :=
  let failed := s.report.errors.length
  let missing := s.report.totals.missing
  if missing + failed == 0 then []
  else
    ["", failureMark ++ " " ++ toString (missing + failed) ++ " problems (" ++ toString missing
      ++ " missing, " ++ toString failed ++ " failed " ++ plural failed "file" "files" ++ ")"]

def noteLines (s : Summary) : List String :=
  let n := s.report.totals.unrecognized
  if n == 0 then []
  else ["note: " ++ toString n ++ " text(s) left in place on purpose (use -v for details)"]

def lines (s : Summary) (verbose : Bool) : List String :=
  (sortSamples s.report.missing).flatMap (Sample.lines "warning")
  ++ (if verbose then (sortSamples s.report.unrecognized).flatMap (Sample.lines "note") else [])
  ++ s.report.deferredBindings.flatMap DeferredBinding.lines
  ++ s.report.collisions.flatMap Collision.lines
  ++ s.report.errors.flatMap FileError.lines
  ++ s.resultLines ++ s.problemLines ++ s.noteLines

end Summary

end Phrasebook
