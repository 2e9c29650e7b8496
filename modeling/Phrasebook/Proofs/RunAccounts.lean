import Phrasebook.Project
import Phrasebook.Proofs.Accounting

/-!
What a run over many files leaves in the table, whatever fails on the way. Nothing that was there
changes, the report counts the entries that came in, and each of them belongs to a file that was
processed without error.
-/
namespace Phrasebook

/-! ### Entries of one file -/

/-- Entries of the file `path` were stored one after another, each under a key that was free. -/
inductive Enters (path : String) (start : List (String × Entry)) :
    List String → List (String × Entry) → Prop where
  | start : Enters path start [] start
  | put {keys : List String} {entries : List (String × Entry)} (key : String) (entry : Entry) :
      Enters path start keys entries → key ∉ entries.map (·.1) → entry.sourceFile = path →
      Enters path start (keys ++ [key]) (Text.putKey key entry entries)

namespace Enters

variable {path key : String} {start entries : List (String × Entry)} {keys : List String}
  {entry : Entry}

theorem length_eq (h : Enters path start keys entries) :
    entries.length = start.length + keys.length := by
  induction h with
  | start => rfl
  | put key entry _ hnew _ ih =>
    rw [(Text.putKey_perm hnew entry).length_eq, List.length_cons, List.length_append, ih]
    simp only [List.length_singleton]
    omega

theorem kept (h : Enters path start keys entries) (hstart : start.lookup key = some entry) :
    entries.lookup key = some entry := by
  induction h with
  | start => exact hstart
  | put other e _ hnew _ ih =>
    have hne : key ≠ other := by
      rintro rfl
      exact hnew (Text.isSome_lookup_iff.mp (by simp [ih]))
    rw [Text.lookup_putKey_of_ne hne, ih]

theorem held_or_own (h : Enters path start keys entries) (hentry : entries.lookup key = some entry) :
    start.lookup key = some entry ∨ entry.sourceFile = path := by
  induction h with
  | start => exact .inl hentry
  | put other e _ _ hpath ih =>
    by_cases hkey : key = other
    · subst hkey
      rw [Text.lookup_putKey_self, Option.some.injEq] at hentry
      exact .inr (hentry ▸ hpath)
    · rw [Text.lookup_putKey_of_ne hkey] at hentry
      exact ih hentry

/-- Taking out the keys leaves what was there before. -/
theorem undone (h : Enters path start keys entries) :
    entries.filter (fun p => !keys.contains p.1) = start := by
  induction h with
  | start => simp
  | @put keys entries key entry _ hnew _ ih =>
    rw [Text.filter_putKey hnew (by simp)]
    refine (List.filter_congr ?_).trans ih
    intro p hp
    have hne : p.1 ≠ key := fun he => hnew (he ▸ List.mem_map_of_mem hp)
    simp [hne]

end Enters

variable {γ δ : Type} {t : Table} {file : FileInfo}

/-- Whichever key a message ends up under, it is listed only if its entry is new. -/
theorem Storing.add_enters {st : Storing} (h : Enters file.path t.entries st.inserted st.table.entries)
    (site : Site) (key : String) :
    Enters file.path t.entries (st.add file site key).inserted
      (st.add file site key).table.entries := by
  obtain ⟨hfree, heq⟩ | ⟨existing, hget, -, heq⟩ | ⟨existing, -, -, heq⟩ :=
    st.table.insert_cases key ⟨site.text, file.path, site.vars⟩
  · have hnew : key ∉ st.table.keys := fun hm => by simp [Table.contains_iff.mpr hm] at hfree
    simpa [Storing.add, heq, hfree, Table.put] using h.put key _ hnew rfl
  · simpa [Storing.add, heq, Table.contains_of_get? hget] using h
  · have hnew : st.table.freeKey key ∉ st.table.keys := by
      rw [← Table.contains_iff, st.table.freeKey_not_contains]
      simp
    simpa [Storing.add, heq, Table.put] using h.put (st.table.freeKey key) _ hnew rfl

theorem resolve_enters {sites : List Site} {generate : KeyGenerator γ} {state state' : γ}
    {r : Resolution} {stored : Table}
    (hres : resolve sites file generate t state = (.ok (r, stored), state')) :
    Enters file.path t.entries r.inserted stored.entries := by
  obtain ⟨-, -, rfl, rfl⟩ | ⟨keys, st, -, -, -, rfl, rfl, rfl⟩ := resolve_ok hres
  · exact .start
  · generalize (Demand.of t sites).pending.zip keys = pairs
    have hfold : ∀ st : Storing, Enters file.path t.entries st.inserted st.table.entries →
        Enters file.path t.entries (st.addAll file pairs).inserted
          (st.addAll file pairs).table.entries := by
      induction pairs with
      | nil => exact fun st h => h
      | cons p rest ih => exact fun st h => ih _ (Storing.add_enters h p.1 p.2)
    exact hfold { table := t } .start

variable {code : String} {options : Options} {generate : KeyGenerator γ} {state : γ}

theorem extract_enters {outcome : FileOutcome}
    (h : (extract code file options generate t state).result = .ok outcome) :
    Enters file.path t.entries outcome.inserted
      (extract code file options generate t state).table.entries := by
  obtain ⟨source, r, stored, state', reread, -, hres, htable, rfl⟩ := extract_ok h
  rw [htable]
  exact resolve_enters hres

theorem extract_keeps_entries {fault : ExtractFault}
    (h : (extract code file options generate t state).result = .error fault) :
    (extract code file options generate t state).table.entries = t.entries := by
  obtain htable | ⟨sites, r, stored, state', hres, htable⟩ := extract_failed h
  · rw [htable]
  · rw [htable]
    exact (resolve_enters hres).undone

/-! ### Files one after another -/

namespace Run

/-- What a file comes to: an error, with the entries as they were, or entries of its own, all of
them counted. -/
structure Settles (shown : String) (r r' : Run γ δ) : Prop where
  scanned : r'.report.totals.filesScanned = r.report.totals.filesScanned + 1
  result :
    ((∃ error, r'.report.errors = r.report.errors ++ [error]) ∧
      r'.table.entries = r.table.entries ∧
      r'.report.totals.newKeys = r.report.totals.newKeys) ∨
    (r'.report.errors = r.report.errors ∧
      ∃ keys, Enters shown r.table.entries keys r'.table.entries ∧
        r'.report.totals.newKeys = r.report.totals.newKeys + keys.length)

theorem fail_settles {r s : Run γ δ} (shown message : String) (hreport : s.report = r.report)
    (hentries : s.table.entries = r.table.entries) : Settles shown r (s.fail shown message) := by
  have hnoted : (s.fail shown message).report = r.report.addError shown message := by
    rw [← hreport]
    rfl
  refine ⟨by rw [hnoted]; rfl, .inl ⟨⟨⟨shown, message⟩, by rw [hnoted]; rfl⟩, hentries, ?_⟩⟩
  rw [hnoted]
  rfl

variable (disk : Disk δ) (p : Project) (generate : KeyGenerator γ) (isApply : Bool)

theorem store_settles {r s : Run γ δ} {shown : String} {o : FileOutcome} (path : String)
    (hreport : s.report = r.report)
    (henters : Enters shown r.table.entries o.inserted s.table.entries) :
    Settles shown r (s.store disk path shown o isApply) := by
  have hcounted : ∀ stored, Settles shown r
      { s with stored, report := s.report.addOutcome shown o } := by
    intro stored
    rw [hreport]
    exact ⟨rfl, .inr ⟨rfl, o.inserted, henters, rfl⟩⟩
  unfold store
  split
  · split
    · exact hcounted _
    · exact fail_settles shown _ hreport henters.undone
  · exact hcounted _

theorem file_settles (r : Run γ δ) (path : String) :
    Settles (displayPath p.root path) r (r.file disk p generate isApply path) := by
  unfold file
  generalize displayPath p.root path = shown
  simp only
  split
  · exact fail_settles _ _ rfl rfl
  · rename_i code stored _
    generalize hinfo : FileInfo.classify _ shown = info
    have hshown : info.path = shown := by rw [← hinfo]; rfl
    split
    · rename_i fault hresult
      exact fail_settles _ _ rfl (extract_keeps_entries hresult)
    · rename_i o hresult
      exact store_settles disk isApply path rfl (hshown ▸ extract_enters hresult)

/-- The file that comes after these is processed without an error. -/
def Succeeds (r : Run γ δ) (before : List String) (path : String) : Prop :=
  let reached := r.files disk p generate isApply before
  (reached.file disk p generate isApply path).report.errors = reached.report.errors

/-- How far a run has come after these files, and what they left in the table. -/
structure Accounts (r : Run γ δ) (paths : List String) (r' : Run γ δ) : Prop where
  scanned : r'.report.totals.filesScanned = r.report.totals.filesScanned + paths.length
  kept : ∀ key entry, r.table.get? key = some entry → r'.table.get? key = some entry
  size : r'.table.size + r.report.totals.newKeys = r.table.size + r'.report.totals.newKeys
  added : ∀ key entry, r'.table.get? key = some entry → r.table.get? key = none →
    ∃ before path after, paths = before ++ path :: after ∧
      Succeeds disk p generate isApply r before path ∧
      entry.sourceFile = displayPath p.root path

variable {disk p generate isApply} {r r' : Run γ δ} {paths : List String}

theorem Accounts.none : Accounts disk p generate isApply r [] r where
  scanned := rfl
  kept _ _ h := h
  size := rfl
  added := by
    intro key entry hin hout
    rw [hout] at hin
    cases hin

theorem Accounts.added_mono
    (h : Accounts disk p generate isApply r paths r') (path : String) {key : String} {entry : Entry}
    (hin : r'.table.get? key = some entry) (hout : r.table.get? key = Option.none) :
    ∃ before last after, paths ++ [path] = before ++ last :: after ∧
      Succeeds disk p generate isApply r before last ∧
      entry.sourceFile = displayPath p.root last := by
  obtain ⟨before, last, after, rfl, hrest⟩ := h.added key entry hin hout
  exact ⟨before, last, after ++ [path], by simp, hrest⟩

/-- One more file, after those before it. -/
theorem Accounts.snoc
    (h : Accounts disk p generate isApply r paths (r.files disk p generate isApply paths))
    (path : String) :
    Accounts disk p generate isApply r (paths ++ [path])
      (r.files disk p generate isApply (paths ++ [path])) := by
  have hfiles : r.files disk p generate isApply (paths ++ [path]) =
      (r.files disk p generate isApply paths).file disk p generate isApply path :=
    List.foldl_concat ..
  have hstep := file_settles disk p generate isApply (r.files disk p generate isApply paths) path
  rw [← hfiles] at hstep
  have hscanned := hstep.scanned
  rw [h.scanned] at hscanned
  obtain ⟨-, hentries, hcount⟩ | ⟨herrors, keys, henters, hcount⟩ := hstep.result
  · have hget : ∀ key, (r.files disk p generate isApply (paths ++ [path])).table.get? key =
        (r.files disk p generate isApply paths).table.get? key := by
      intro key
      rw [Table.get?, hentries, Table.get?]
    refine ⟨by simpa [Nat.add_assoc] using hscanned, ?_, ?_, ?_⟩
    · intro key entry hkey
      rw [hget]
      exact h.kept key entry hkey
    · rw [Table.size, hentries, hcount]
      exact h.size
    · intro key entry hin hout
      rw [hget] at hin
      exact h.added_mono path hin hout
  · refine ⟨by simpa [Nat.add_assoc] using hscanned, ?_, ?_, ?_⟩
    · intro key entry hkey
      exact henters.kept (h.kept key entry hkey)
    · have hsize := h.size
      simp only [Table.size, henters.length_eq, hcount] at hsize ⊢
      omega
    · intro key entry hin hout
      rcases henters.held_or_own hin with hheld | hown
      · exact h.added_mono path hheld hout
      · refine ⟨paths, path, [], rfl, ?_, hown⟩
        rw [Succeeds, ← hfiles]
        exact herrors

theorem files_accounts (r : Run γ δ) (paths : List String) :
    Accounts disk p generate isApply r paths (r.files disk p generate isApply paths) := by
  induction paths using List.reverseRecOn with
  | nil => exact .none
  | append_singleton paths path ih => exact ih.snoc path

end Run

/-- Whatever fails while files are read, parsed, given keys and written: no entry that was there has
changed, the table has grown by the new keys that the report counts, each new entry is of a file that
was processed without error, and the report counts every file. -/
theorem run_accounts_for_table {γ δ : Type} (p : Project) (disk : Disk δ) (stored : δ)
    (generate : KeyGenerator γ) (state : γ) (isApply : Bool) :
    let start : Run γ δ := { stored, table := p.table, state }
    let r := (p.run disk stored generate state isApply).2
    (∀ key entry, p.table.get? key = some entry → r.table.get? key = some entry) ∧
      r.table.size = p.table.size + r.report.totals.newKeys ∧
      (∀ key entry, r.table.get? key = some entry → p.table.get? key = none →
        ∃ before path after, p.files = before ++ path :: after ∧
          start.Succeeds disk p generate isApply before path ∧
          entry.sourceFile = displayPath p.root path) ∧
      r.report.totals.filesScanned = p.files.length := by
  intro start r
  -- Writing the table and the report at the end changes neither of them.
  have hr : r.table = (start.files disk p generate isApply p.files).table ∧
      r.report = (start.files disk p generate isApply p.files).report := by
    simp only [r, Project.run]
    split <;> exact ⟨rfl, rfl⟩
  have h : start.Accounts disk p generate isApply p.files _ := Run.files_accounts start p.files
  rw [hr.1, hr.2]
  exact ⟨h.kept, by simpa [start] using h.size, h.added, by simpa [start] using h.scanned⟩

/-- Of three files the first cannot be read and the second cannot be written. -/
example :
    let disk : Disk Unit :=
      { readText := fun path s => (if path == "a.ts" then .error .notText else .ok "f(\"完成\")", s)
        write := fun path _ s => (if path == "b.ts" then .error .isDirectory else .ok (), s)
        makeDirs := fun _ s => (.ok (), s) }
    let p : Project := ⟨{}, ".", ["a.ts", "b.ts", "c.ts"], {}⟩
    let r := (p.run disk () (sameKey "ok") () true).2
    r.table.entries = [("ok", ⟨"完成", "c.ts", []⟩)] ∧ r.report.totals.newKeys = 1 ∧
      r.report.errors.map (·.file) = ["a.ts", "b.ts"] := by
  decide +kernel

end Phrasebook
