import Phrasebook.Extract
import Phrasebook.Proofs.Resolution

/-!
A file that fails leaves the table as it was, and so does a file whose change is taken back.
-/
namespace Phrasebook

open Script

variable {γ : Type} {code : String} {file : FileInfo} {options : Options}
  {generate : KeyGenerator γ} {state : γ} {t start : Table}

/-- Tables that come about when files are extracted one after another. The change of a file may be
taken back right after it. -/
inductive Table.GrownFrom (start : Table) : Table → Prop where
  | start : GrownFrom start start
  | extracted {γ : Type} {t : Table} (code : String) (file : FileInfo) (options : Options)
      (generate : KeyGenerator γ) (state : γ) : GrownFrom start t →
      GrownFrom start (extract code file options generate t state).table
  | undone {γ : Type} {t : Table} (code : String) (file : FileInfo) (options : Options)
      (generate : KeyGenerator γ) (state : γ) (outcome : FileOutcome) : GrownFrom start t →
      (extract code file options generate t state).result = .ok outcome →
      GrownFrom start
        ((extract code file options generate t state).table.rollback outcome.inserted)

/-- A file that succeeds was read, its sites were resolved, the table is what that left, and the new
text could be read again. -/
theorem extract_steps {outcome : FileOutcome}
    (h : (extract code file options generate t state).result = .ok outcome) :
    ∃ source r stored state' reread, Source.read file.hasMarkup code = .ok source ∧
      resolve (Setting.of source file options).sites file generate t state =
        (.ok (r, stored), state') ∧
      (extract code file options generate t state).table = stored ∧
      Source.read file.hasMarkup ((Setting.of source file options).output
        ((Setting.of source file options).apply r.keys)) = .ok reread ∧
      outcome = (Setting.of source file options).outcome
        ((Setting.of source file options).apply r.keys) r reread := by
  unfold extract at h ⊢
  cases hread : Source.read file.hasMarkup code with
  | error fault => simp [hread] at h
  | ok source =>
    cases hres : resolve (Setting.of source file options).sites file generate t state with
    | mk result state' =>
      cases result with
      | error cause => simp [hread, hres] at h
      | ok found =>
        obtain ⟨r, stored⟩ := found
        simp only [hread, hres] at h ⊢
        split at h
        · cases h
        · rename_i reread hreread
          cases h
          exact ⟨source, r, stored, state', reread, rfl, hres, rfl, hreread, rfl⟩

theorem extract_ok {outcome : FileOutcome}
    (h : (extract code file options generate t state).result = .ok outcome) :
    ∃ source r stored state' reread, Source.read file.hasMarkup code = .ok source ∧
      resolve (Setting.of source file options).sites file generate t state =
        (.ok (r, stored), state') ∧
      (extract code file options generate t state).table = stored ∧
      outcome = (Setting.of source file options).outcome
        ((Setting.of source file options).apply r.keys) r reread := by
  obtain ⟨source, r, stored, state', reread, hread, hres, htable, -, houtcome⟩ := extract_steps h
  exact ⟨source, r, stored, state', reread, hread, hres, htable, houtcome⟩

/-- A file that fails has stored nothing yet, or has taken out again what it stored. -/
theorem extract_failed {fault : ExtractFault}
    (h : (extract code file options generate t state).result = .error fault) :
    (extract code file options generate t state).table = t ∨
    ∃ sites r stored state', resolve sites file generate t state = (.ok (r, stored), state') ∧
      (extract code file options generate t state).table = stored.rollback r.inserted := by
  unfold extract at h ⊢
  cases hread : Source.read file.hasMarkup code with
  | error _ => exact .inl rfl
  | ok source =>
    cases hres : resolve (Setting.of source file options).sites file generate t state with
    | mk result state' =>
      cases result with
      | error cause => exact .inl (by simp only [hres])
      | ok found =>
        obtain ⟨r, stored⟩ := found
        simp only [hread, hres] at h ⊢
        split at h
        · exact .inr ⟨_, r, stored, state', hres, rfl⟩
        · cases h

theorem extract_error {fault : ExtractFault} (hindexed : t.Indexed)
    (h : (extract code file options generate t state).result = .error fault) :
    (extract code file options generate t state).table = t := by
  obtain htable | ⟨sites, r, stored, state', hres, htable⟩ := extract_failed h
  · exact htable
  · rw [htable]
    exact (resolve_valid hindexed hres).undone

theorem extract_undone {outcome : FileOutcome} (hindexed : t.Indexed)
    (h : (extract code file options generate t state).result = .ok outcome) :
    (extract code file options generate t state).table.rollback outcome.inserted = t := by
  obtain ⟨source, r, stored, state', reread, -, hres, htable, rfl⟩ := extract_ok h
  rw [htable]
  exact (resolve_valid hindexed hres).undone

theorem extract_indexed (hindexed : t.Indexed) :
    (extract code file options generate t state).table.Indexed := by
  cases h : (extract code file options generate t state).result with
  | error fault => rwa [extract_error hindexed h]
  | ok outcome =>
    obtain ⟨source, r, stored, state', reread, -, hres, htable, -⟩ := extract_ok h
    rw [htable]
    exact (resolve_valid hindexed hres).indexed

theorem extract_sound (hindexed : t.Indexed) (hsound : t.Sound) :
    (extract code file options generate t state).table.Sound := by
  cases h : (extract code file options generate t state).result with
  | error fault => rwa [extract_error hindexed h]
  | ok outcome =>
    obtain ⟨source, r, stored, state', reread, -, hres, htable, -⟩ := extract_ok h
    rw [htable]
    exact (resolve_valid hindexed hres).sound hsound

namespace Table

theorem GrownFrom.indexed (h : GrownFrom start t) (hstart : start.Indexed) : t.Indexed := by
  induction h with
  | start => exact hstart
  | extracted code file options generate state _ ih => exact extract_indexed ih
  | undone code file options generate state outcome _ hok ih => rwa [extract_undone ih hok]

theorem GrownFrom.sound (h : GrownFrom start t) (hindexed : start.Indexed) (hsound : start.Sound) :
    t.Sound := by
  induction h with
  | start => exact hsound
  | extracted code file options generate state hg ih =>
    exact extract_sound (hg.indexed hindexed) ih
  | undone code file options generate state outcome hg hok ih =>
    rwa [extract_undone (hg.indexed hindexed) hok]

end Table

/-- Entries and index are back to what they were after any failure, and after a success whose keys
are taken out at once. -/
theorem extract_restores_table (entries : List (String × Entry)) {t : Table}
    (ht : Table.GrownFrom (.ofEntries entries) t) {γ : Type} (code : String) (file : FileInfo)
    (options : Options) (generate : KeyGenerator γ) (state : γ) :
    (∀ fault, (extract code file options generate t state).result = .error fault →
      (extract code file options generate t state).table = t) ∧
    (∀ outcome, (extract code file options generate t state).result = .ok outcome →
      (extract code file options generate t state).table.rollback outcome.inserted = t) := by
  have hindexed := ht.indexed (Table.indexed_ofEntries entries)
  exact ⟨fun _ h => extract_error hindexed h, fun _ h => extract_undone hindexed h⟩

/-- A generator that always proposes the same key. -/
def sameKey (key : String) : KeyGenerator Unit := fun requests state =>
  (.ok (requests.map fun _ => key), state)

/-- Two entries under one key, then a text that collides with it: first with a name that no module
can import, then with one that it can. -/
theorem extract_restores_table_collisions :
    let entries : List (String × Entry) :=
      [("a.ok", ⟨"确定", "src/a.tsx", []⟩), ("a.ok", ⟨"好的", "src/a.tsx", []⟩)]
    let run (name : String) := extract "f(\"完成\")" ⟨"src/b.tsx", .component⟩
      { lookupFunction := name } (sameKey "a.ok") (.ofEntries entries) ()
    (run "for").result.toOption = none ∧ (run "for").table = .ofEntries entries ∧
      (run "t").result.toOption.map (·.inserted) = some ["a.ok_2"] ∧
      (run "t").table.rollback ["a.ok_2"] = .ofEntries entries := by
  intro entries run
  obtain ⟨hbroken, hkeys⟩ : (run "for").result.toOption = none ∧
      (run "t").result.toOption.map (·.inserted) = some ["a.ok_2"] := by decide +kernel
  refine ⟨hbroken, ?_, hkeys, ?_⟩
  · cases h : (run "for").result with
    | error fault =>
      exact (extract_restores_table entries .start _ _ _ _ _).1 fault h
    | ok outcome =>
      rw [h] at hbroken
      cases hbroken
  · cases h : (run "t").result with
    | error fault =>
      rw [h] at hkeys
      cases hkeys
    | ok outcome =>
      rw [h] at hkeys
      have hinserted : outcome.inserted = ["a.ok_2"] := Option.some.inj hkeys
      rw [← hinserted]
      exact (extract_restores_table entries .start _ _ _ _ _).2 outcome h

end Phrasebook
