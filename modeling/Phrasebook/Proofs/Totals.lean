import Mathlib.Algebra.Ring.Nat
import Mathlib.Data.List.Induction
import Phrasebook.Project

/-!
A report adds up. Every file is counted in the totals and only those with something to say are
listed, but the others add nothing to the counters. So the totals are those of the lists, and the
exit status can be told from the lists alone.
-/
namespace Phrasebook

namespace Report

/-- One more file for a report: its numbers, the outcome of its extraction, or an error. -/
inductive Addition where
  | file (name : String) (changed : Bool) (stats : FileStats)
  | outcome (name : String) (outcome : FileOutcome)
  | error (name : String) (cause : String)

namespace Addition

/-- What is said about a file that could be processed. -/
def report? : Addition → Option FileReport
  | .file name changed stats => some ⟨name, changed, stats⟩
  | .outcome name o => some ⟨name, o.newText.isSome, o.stats⟩
  | .error .. => none

def error? : Addition → Option FileError
  | .error name cause => some ⟨name, cause⟩
  | _ => none

def newKeys : Addition → Nat
  | .outcome _ o => o.newKeys
  | _ => 0

end Addition

def add (r : Report) : Addition → Report
  | .file name changed stats => r.addFile name changed stats
  | .outcome name o => r.addOutcome name o
  | .error name cause => r.addError name cause

/-- The report of files that came in one after another. -/
def ofAdditions (additions : List Addition) : Report := additions.foldl add {}

end Report

/-- The file is changed, or something was found in it. -/
def FileReport.isListed (f : FileReport) : Bool := f.changed || f.stats != {}

/-- The totals of a list of files, with the number of files scanned and of new keys. -/
def Totals.tally (scanned newKeys : Nat) (files : List FileReport) : Totals :=
  let total (count : FileStats → Nat) := (files.map fun f => count f.stats).sum
  { filesScanned := scanned
    filesChanged := files.countP (·.changed)
    extracted := total (·.extracted)
    reusedKeys := total (·.reusedKeys)
    newKeys := newKeys
    deferredBindings := total (·.deferredBindings)
    interpolationCount := total (·.interpolationCount)
    lazyAccessors := total (·.lazyAccessors)
    unrecognized := total (·.unrecognized.length)
    missing := total (·.missing.length) }

namespace Totals

variable {scanned newKeys : Nat} {files : List FileReport} {f : FileReport}

theorem tally_concat : tally (scanned + 1) newKeys (files ++ [f]) =
    (tally scanned newKeys files).add f.changed f.stats := by
  cases hchanged : f.changed <;> simp [tally, Totals.add, hchanged]

/-- A file with nothing to say is only counted as scanned. -/
theorem add_unlisted (t : Totals) (h : f.isListed = false) :
    t.add f.changed f.stats = { t with filesScanned := t.filesScanned + 1 } := by
  simp only [FileReport.isListed, Bool.or_eq_false_iff, bne_eq_false_iff_eq] at h
  simp [Totals.add, h.1, h.2]

theorem tally_listed : tally (scanned + 1) newKeys (files ++ [f].filter FileReport.isListed) =
    (tally scanned newKeys files).add f.changed f.stats := by
  cases h : f.isListed with
  | true => simp [h, tally_concat]
  | false =>
    rw [add_unlisted _ h]
    simp [h, tally]

end Totals

namespace Report

variable {additions : List Addition} {r : Report}

/-- What a report says about the files that came in. -/
structure Agrees (additions : List Addition) (r : Report) : Prop where
  totals : r.totals = .tally additions.length (additions.map Addition.newKeys).sum r.files
  files : r.files = (additions.filterMap Addition.report?).filter FileReport.isListed
  errors : r.errors = additions.filterMap Addition.error?

theorem addFile_files (r : Report) (f : FileReport) :
    (r.addFile f.file f.changed f.stats).files = r.files ++ [f].filter FileReport.isListed := by
  cases h : f.isListed with
  | true =>
    have hlisted : (f.changed || f.stats != {}) = true := h
    simp [addFile, hlisted, h]
  | false =>
    have hlisted : (f.changed || f.stats != {}) = false := h
    simp [addFile, hlisted, h]

/-- A file that could be processed, and keys that are counted with it. -/
theorem Agrees.addFile (h : Agrees additions r) {x : Addition} {f : FileReport}
    (hreport : x.report? = some f) (herror : x.error? = none) {r' : Report}
    (htotals : r'.totals = { r.totals with newKeys := r.totals.newKeys + x.newKeys })
    (hfiles : r'.files = r.files) (herrors : r'.errors = r.errors) :
    Agrees (additions ++ [x]) (r'.addFile f.file f.changed f.stats) := by
  refine ⟨?_, ?_, ?_⟩
  · have hnew : r'.totals = .tally additions.length
        ((additions ++ [x]).map Addition.newKeys).sum r.files := by
      rw [htotals, h.totals]
      simp [Totals.tally]
    rw [addFile_files, hfiles, List.length_append, List.length_singleton, Totals.tally_listed, ← hnew]
    rfl
  · rw [addFile_files, hfiles, h.files, List.filterMap_append, List.filter_append]
    simp [hreport]
  · rw [List.filterMap_append, ← h.errors, ← herrors]
    simp [herror, Report.addFile]

theorem Agrees.add (h : Agrees additions r) (x : Addition) :
    Agrees (additions ++ [x]) (r.add x) := by
  cases x with
  | file name changed stats => exact h.addFile (x := .file name changed stats) rfl rfl rfl rfl rfl
  | outcome name o => exact h.addFile (x := .outcome name o) rfl rfl rfl rfl rfl
  | error name cause =>
    refine ⟨?_, ?_, ?_⟩
    · simp [Report.add, addError, h.totals, Totals.tally, Addition.newKeys]
    · simp [Report.add, addError, h.files, Addition.report?]
    · simp [Report.add, addError, h.errors, Addition.error?]

theorem ofAdditions_agrees (additions : List Addition) : Agrees additions (ofAdditions additions) := by
  induction additions using List.reverseRecOn with
  | nil => exact ⟨rfl, rfl, rfl⟩
  | append_singleton additions x ih =>
    rw [ofAdditions, List.foldl_append]
    exact ih.add x

/-! ### Exit status -/

theorem exitStatus_eq_error_iff (r : Report) (isApply : Bool) :
    r.exitStatus isApply = .error ↔ r.errors ≠ [] := by
  unfold exitStatus
  cases r.errors with
  | nil =>
    simp only [List.isEmpty_nil, Bool.not_true, Bool.false_eq_true, if_false]
    split <;> simp
  | cons e es => simp

theorem exitStatus_eq_success_iff (r : Report) (isApply : Bool) :
    r.exitStatus isApply = .success ↔
      r.errors = [] ∧ r.totals.missing = 0 ∧ (isApply = false → r.totals.filesChanged = 0) := by
  unfold exitStatus
  cases r.errors with
  | nil =>
    simp only [List.isEmpty_nil, Bool.not_true, Bool.false_eq_true, if_false, true_and]
    split
    · rename_i h
      simp only [Bool.or_eq_true, decide_eq_true_eq, Bool.and_eq_true, Bool.not_eq_true'] at h
      simp only [reduceCtorEq, false_iff]
      grind
    · rename_i h
      simp only [Bool.or_eq_true, decide_eq_true_eq, Bool.and_eq_true, Bool.not_eq_true'] at h
      simp only [true_iff]
      grind
  | cons e es => simp

theorem tally_missing (scanned newKeys : Nat) (r : Report) :
    (Totals.tally scanned newKeys r.files).missing = r.missing.length := by
  simp [Totals.tally, Report.missing, List.length_flatMap]

theorem missing_eq_nil_iff (r : Report) :
    r.missing = [] ↔ ∀ f ∈ r.files, f.stats.missing = [] := List.flatMap_eq_nil_iff

theorem tally_filesChanged_eq_zero {scanned newKeys : Nat} {files : List FileReport} :
    (Totals.tally scanned newKeys files).filesChanged = 0 ↔ ∀ f ∈ files, f.changed = false := by
  simp [Totals.tally, List.countP_eq_zero]

end Report

/-! ### Runs -/

namespace Run

variable {γ δ : Type} (disk : Disk δ) (p : Project) (generate : KeyGenerator γ) (isApply : Bool)

theorem store_report (r : Run γ δ) (path shown : String) (o : FileOutcome) :
    ∃ x, (r.store disk path shown o isApply).report = r.report.add x := by
  unfold store
  split
  · split
    · exact ⟨.outcome shown o, rfl⟩
    · exact ⟨.error shown _, rfl⟩
  · exact ⟨.outcome shown o, rfl⟩

theorem file_report (r : Run γ δ) (path : String) :
    ∃ x, (r.file disk p generate isApply path).report = r.report.add x := by
  unfold file
  simp only
  split
  · exact ⟨.error _ _, rfl⟩
  · split
    · exact ⟨.error _ _, rfl⟩
    · exact store_report disk isApply _ path _ _

/-- A run adds each of its files once, whatever becomes of it. -/
theorem files_report (r : Run γ δ) (paths : List String) :
    ∃ additions : List Report.Addition, additions.length = paths.length ∧
      (r.files disk p generate isApply paths).report = additions.foldl Report.add r.report := by
  induction paths generalizing r with
  | nil => exact ⟨[], rfl, rfl⟩
  | cons path rest ih =>
    obtain ⟨x, hx⟩ := file_report disk p generate isApply r path
    obtain ⟨additions, hlength, hrest⟩ := ih (r.file disk p generate isApply path)
    refine ⟨x :: additions, by simp [hlength], ?_⟩
    rw [List.foldl_cons, ← hx]
    exact hrest

end Run

theorem Project.run_report {γ δ : Type} (p : Project) (disk : Disk δ) (stored : δ)
    (generate : KeyGenerator γ) (state : γ) (isApply : Bool) :
    ∃ additions : List Report.Addition, additions.length = p.files.length ∧
      (p.run disk stored generate state isApply).2.report = Report.ofAdditions additions := by
  obtain ⟨additions, hlength, hreport⟩ :=
    Run.files_report disk p generate isApply { stored, table := p.table, state } p.files
  refine ⟨additions, hlength, ?_⟩
  unfold Project.run
  simp only
  split <;> exact hreport

/-- Whatever files come into a report, in whatever order: each is counted, the other totals are the
sums over the files listed, and no file is left out but those that are unchanged and empty of
numbers and samples. Errors decide the exit status first, then samples that are missing, then files
that would change. The report of every run comes about in this way. -/
theorem totals_agree_with_lists :
    (∀ additions : List Report.Addition,
      let r := Report.ofAdditions additions
      r.totals = .tally additions.length (additions.map (·.newKeys)).sum r.files ∧
      r.totals.missing = r.missing.length ∧
      r.files = (additions.filterMap (·.report?)).filter (·.isListed) ∧
      r.errors = additions.filterMap (·.error?) ∧
      ∀ isApply,
        (r.exitStatus isApply = .error ↔ r.errors ≠ []) ∧
        (r.exitStatus isApply = .success ↔ r.errors = [] ∧ (∀ f ∈ r.files, f.stats.missing = []) ∧
          (isApply = false → ∀ f ∈ r.files, f.changed = false))) ∧
    ∀ (γ δ : Type) (p : Project) (disk : Disk δ) (stored : δ) (generate : KeyGenerator γ) (state : γ)
      (isApply : Bool), ∃ additions : List Report.Addition, additions.length = p.files.length ∧
        (p.run disk stored generate state isApply).2.report = Report.ofAdditions additions := by
  refine ⟨?_, fun _ _ p disk stored generate state isApply =>
    p.run_report disk stored generate state isApply⟩
  intro additions r
  have h : Report.Agrees additions r := Report.ofAdditions_agrees additions
  have hmissing : r.totals.missing = r.missing.length := by
    rw [h.totals]
    exact Report.tally_missing _ _ r
  refine ⟨h.totals, hmissing, h.files, h.errors, ?_⟩
  intro isApply
  refine ⟨r.exitStatus_eq_error_iff isApply, ?_⟩
  rw [r.exitStatus_eq_success_iff, hmissing, List.length_eq_zero_iff, r.missing_eq_nil_iff, h.totals,
    Report.tally_filesChanged_eq_zero]

end Phrasebook
