import Phrasebook.Proofs.Idempotence
import Phrasebook.Proofs.TableHistory

/-!
The numbers that a file reports agree with what its extraction did to the table: each replaced site
has a key that was there or is new, and the new keys are those by which the table grew. This holds
at any point of a history in which the keys of a file may be taken out long after it.
-/
namespace Phrasebook

open Script

namespace Table

variable {start t u : Table} {key : String} {entry : Entry} {keys : List String}

/-! ### Growth -/

/-- From `t` on, entries of new signatures were stored, each under a key that was free then. -/
inductive Gains (t : Table) : List String → Table → Prop where
  | start : Gains t [] t
  | put {keys : List String} {u : Table} (key : String) (entry : Entry) : Gains t keys u →
      u.contains key = false → u.find? entry.signature = none →
      Gains t (keys ++ [key]) (u.put key entry)

theorem nodup_keys_put (h : t.keys.Nodup) (hfree : t.contains key = false) (entry : Entry) :
    (t.put key entry).keys.Nodup := by
  have hnew : key ∉ t.keys := fun hm => by simp [contains_iff.mpr hm] at hfree
  exact (keys_put hfree entry).nodup_iff.mpr (List.nodup_cons.mpr ⟨hnew, h⟩)

theorem Gains.keys_perm (h : Gains t keys u) : u.keys.Perm (keys ++ t.keys) := by
  induction h with
  | start => exact List.Perm.refl _
  | @put keys u key entry _ hfree _ ih =>
    calc (u.put key entry).keys.Perm (key :: u.keys) := keys_put hfree entry
      _ |>.Perm (key :: (keys ++ t.keys)) := ih.cons key
      _ |>.Perm (keys ++ [key] ++ t.keys) := by
        rw [List.append_assoc]
        exact List.perm_middle.symm

theorem Gains.size_eq (h : Gains t keys u) : u.size = t.size + keys.length := by
  have hlen := h.keys_perm.length_eq
  simp only [Table.keys, List.length_append, List.length_map] at hlen
  simp only [size]
  omega

theorem Gains.kept (h : Gains t keys u) (hget : t.get? key = some entry) :
    u.get? key = some entry := by
  induction h with
  | start => exact hget
  | put _ _ _ hfree _ ih => exact get?_put_of_get? hfree ih

theorem Gains.complete (h : Gains t keys u) (hcomplete : t.Complete) : u.Complete := by
  induction h with
  | start => exact hcomplete
  | put key entry _ _ _ ih => exact ih.put key entry

/-! ### Histories -/

/-- What a table that began as `start` keeps up: its index is in order, no key stands twice, and an
entry that was not there at the start has a signature of its own. -/
structure Tended (start t : Table) : Prop where
  linked : t.Linked
  complete : t.Complete
  nodup : t.keys.Nodup
  held : ∀ key, start.contains key = true → t.contains key = true
  own : ∀ key entry, t.get? key = some entry → start.contains key = false →
    ∀ other e, t.get? other = some e → e.signature = entry.signature → other = key

theorem Tended.indexed (h : Tended start t) : t.Indexed := by
  refine ⟨h.complete, ?_⟩
  intro p hp
  obtain ⟨e, he, -⟩ := h.linked p hp
  exact contains_of_get? he

theorem Tended.put (h : Tended start t) (hfree : t.contains key = false)
    (hnew : t.find? entry.signature = none) : Tended start (t.put key entry) := by
  -- An entry that was there before has another signature, or it would have been found.
  have hother : ∀ k e, t.get? k = some e → e.signature ≠ entry.signature := by
    intro k e he hsig
    have hfound := h.complete k e he
    rw [hsig, hnew] at hfound
    cases hfound
  refine ⟨h.linked.put hfree entry, h.complete.put key entry, nodup_keys_put h.nodup hfree entry,
    fun k hk => contains_put.mpr (.inr (h.held k hk)), ?_⟩
  intro k e he hstart k' e' he' hsig
  by_cases hk : k = key
  · subst hk
    obtain rfl : entry = e := Option.some.inj ((get?_put_self t k entry).symm.trans he)
    by_contra hne
    rw [get?_put_of_ne hne] at he'
    exact hother k' e' he' hsig
  · rw [get?_put_of_ne hk] at he
    by_cases hk' : k' = key
    · subst hk'
      obtain rfl : entry = e' := Option.some.inj ((get?_put_self t k' entry).symm.trans he')
      exact absurd hsig.symm (hother k e he)
    · rw [get?_put_of_ne hk'] at he'
      exact h.own k e he hstart k' e' he' hsig

theorem Tended.gains (h : Tended start t) (hg : Gains t keys u) : Tended start u := by
  induction hg with
  | start => exact h
  | put _ _ _ hfree hnew ih => exact ih.put hfree hnew

/-- Taking out keys that came later splits no signature. -/
theorem Tended.rollback (h : Tended start t)
    (hkeys : ∀ key ∈ keys, start.contains key = false) : Tended start (t.rollback keys) := by
  have hsplit : ¬t.Splits keys := by
    rintro ⟨gone, hgone, left, hleft, hstays, hsig⟩
    obtain ⟨e', he'⟩ := Option.isSome_iff_exists.mp (contains_iff.mpr hleft)
    rw [he', Option.map_some, Option.map_eq_some_iff] at hsig
    obtain ⟨e, he, hsig⟩ := hsig
    have heq := h.own gone e he (hkeys gone hgone) left e' he' hsig.symm
    exact hstays (heq ▸ hgone)
  have hof : ∀ {k e}, (t.rollback keys).get? k = some e → t.get? k = some e := by
    intro k e he
    rw [get?_rollback] at he
    split at he
    · cases he
    · exact he
  refine ⟨rollback_linked h.linked keys, rollback_complete h.linked h.complete hsplit,
    (List.Sublist.map _ List.filter_sublist).nodup h.nodup, ?_, ?_⟩
  · intro k hk
    have hout : k ∉ keys := fun hin => by simp [hkeys k hin] at hk
    rw [contains, get?_rollback, if_neg hout]
    exact h.held k hk
  · intro k e he hstart k' e' he'
    exact h.own k e (hof he) hstart k' e' (hof he')

theorem tended_ofEntries {entries : List (String × Entry)} (hkeys : (entries.map (·.1)).Nodup) :
    Tended (ofEntries entries) (ofEntries entries) where
  linked := linked_ofEntries hkeys
  complete := (indexed_ofEntries entries).found
  nodup := ofEntries_of_put hkeys (by simp [Table.keys])
    fun _ _ entry hfree h => nodup_keys_put h hfree entry
  held := fun _ => id
  own := by
    intro key entry hget hnot
    rw [contains_of_get? hget] at hnot
    cases hnot

end Table

/-! ### Resolving -/

variable {γ : Type} {t : Table} {file : FileInfo} {sites : List Site}

/-- Each site has a key that was there or asks for a new one. -/
theorem Demand.reused_add_pending (t : Table) (sites : List Site) :
    (Demand.of t sites).reused + (Demand.of t sites).pending.length = sites.length := by
  induction sites using List.reverseRecOn with
  | nil => rfl
  | append_singleton sites site ih =>
    rw [Demand.of_concat, List.length_append, ← ih, Demand.add]
    cases t.find? site.signature with
    | some key =>
      simp only [List.length_singleton]
      omega
    | none =>
      cases (Demand.of t sites).pending.findIdx? (·.signature == site.signature) with
      | some i =>
        simp only [List.length_singleton]
        omega
      | none =>
        simp only [List.length_append, List.length_singleton]
        omega

theorem Storing.addAll_gains (file : FileInfo) (pairs : List (Site × String)) {st : Storing}
    (hgains : t.Gains st.inserted st.table) (h : st.table.Complete)
    (hnew : ∀ p ∈ pairs, st.table.find? p.1.signature = none)
    (hdistinct : (pairs.map (·.1.signature)).Nodup) :
    t.Gains (st.addAll file pairs).inserted (st.addAll file pairs).table := by
  induction pairs generalizing st with
  | nil => exact hgains
  | cons p rest ih =>
    rw [List.map_cons, List.nodup_cons] at hdistinct
    have hp := hnew p (List.mem_cons_self ..)
    obtain ⟨k, hfree, htable, hinserted, -⟩ := Storing.add_new file h p.1 p.2 hp
    have hnext : t.Gains (st.add file p.1 p.2).inserted (st.add file p.1 p.2).table := by
      rw [hinserted, htable]
      exact .put k _ hgains hfree hp
    refine ih hnext (Storing.add_grows file h p.1 p.2 hp).complete ?_ hdistinct.2
    intro q hq
    have hne : q.1.signature ≠ p.1.signature := fun he =>
      hdistinct.1 (he ▸ List.mem_map_of_mem hq)
    exact Storing.find?_add_of_ne file h hp hne (hnew q (List.mem_cons_of_mem _ hq))

/-- Resolving stores one entry for each site that asks for a new key. -/
theorem resolve_gains {generate : KeyGenerator γ} {state state' : γ} {r : Resolution}
    {stored : Table} (h : t.Complete)
    (hres : resolve sites file generate t state = (.ok (r, stored), state')) :
    t.Gains r.inserted stored ∧ r.reused + r.inserted.length = sites.length := by
  have hfits := Demand.of_fits t sites
  rw [← Demand.reused_add_pending t sites]
  obtain ⟨hnone, -, rfl, rfl⟩ | ⟨keys, st, -, -, hlen, rfl, rfl, rfl⟩ := resolve_ok hres
  · exact ⟨.start, by simp [hnone]⟩
  · have hfirst : ((Demand.of t sites).pending.zip keys).map (·.1) = (Demand.of t sites).pending :=
      List.map_fst_zip (by omega)
    have hdistinct := hfits.distinct
    rw [← hfirst, List.map_map] at hdistinct
    refine ⟨?_, ?_⟩
    · refine Storing.addAll_gains file _ .start h ?_ hdistinct
      intro p hp
      exact hfits.unknown p.1 (List.of_mem_zip hp).1
    · obtain ⟨ks, hins, -, -, hfound⟩ := (hfits.store file h hlen).added
      rw [List.nil_append] at hins
      simp only [hins, hfound.length_eq]

/-! ### Files -/

variable {code : String} {options : Options} {generate : KeyGenerator γ} {state : γ}

theorem extract_gains {outcome : FileOutcome} (hcomplete : t.Complete)
    (h : (extract code file options generate t state).result = .ok outcome) :
    t.Gains outcome.inserted (extract code file options generate t state).table ∧
      outcome.stats.extracted = outcome.stats.reusedKeys + outcome.newKeys := by
  obtain ⟨source, r, stored, state', reread, hread, hres, htable, houtcome⟩ := extract_ok h
  obtain ⟨hgains, hcount⟩ := resolve_gains hcomplete hres
  have hsites := extracted_eq hread h
  subst houtcome
  rw [htable]
  exact ⟨hgains, hsites.trans hcount.symm⟩

/-- The keys that an extraction added. -/
def Extracted.added (x : Extracted γ) : List String :=
  (x.result.toOption.map (·.inserted)).getD []

/-- Tables that come about when files are extracted one after another and what one of them had added
is taken out again, right after it or at any time later. The lists that may be taken out stand
beside the table. -/
inductive Table.History (start : Table) : List (List String) → Table → Prop where
  | start : History start [] start
  | extracted {γ : Type} {past : List (List String)} {t : Table} (code : String) (file : FileInfo)
      (options : Options) (generate : KeyGenerator γ) (state : γ) : History start past t →
      History start ((extract code file options generate t state).added :: past)
        (extract code file options generate t state).table
  | undone {past : List (List String)} {t : Table} {keys : List String} : History start past t →
      keys ∈ past → History start past (t.rollback keys)

theorem Table.Tended.extracted {start : Table} (h : Table.Tended start t) :
    Table.Tended start (extract code file options generate t state).table ∧
      ∀ key ∈ (extract code file options generate t state).added,
        start.contains key = false := by
  cases hresult : (extract code file options generate t state).result with
  | error fault =>
    rw [extract_error h.indexed hresult]
    exact ⟨h, by simp [Extracted.added, hresult, Except.toOption]⟩
  | ok outcome =>
    obtain ⟨hgains, -⟩ := extract_gains h.complete hresult
    have hafter := h.gains hgains
    refine ⟨hafter, ?_⟩
    intro key hkey
    have hkey : key ∈ outcome.inserted := by
      simpa [Extracted.added, hresult, Except.toOption] using hkey
    by_contra hstart
    have hold := Table.contains_iff.mp (h.held key (by simpa using hstart))
    have hnodup := hgains.keys_perm.nodup_iff.mp hafter.nodup
    exact List.disjoint_of_nodup_append hnodup hkey hold

theorem Table.History.tended {start : Table} {past : List (List String)}
    (h : Table.History start past t) (hstart : Table.Tended start start) :
    Table.Tended start t ∧ ∀ keys ∈ past, ∀ key ∈ keys, start.contains key = false := by
  induction h with
  | start => exact ⟨hstart, by simp⟩
  | extracted code file options generate state _ ih =>
    obtain ⟨hafter, hadded⟩ := ih.1.extracted
    exact ⟨hafter, List.forall_mem_cons.mpr ⟨hadded, ih.2⟩⟩
  | undone _ hkeys ih => exact ⟨ih.1.rollback (ih.2 _ hkeys), ih.2⟩

/-- Whatever was extracted and taken out before, a file that succeeds accounts for its keys: the
sites it replaced are those with a reused key and those with a new one, the table has grown by just
the keys that are reported, and no entry that was there has changed. -/
theorem extract_accounts_for_keys (entries : List (String × Entry))
    (hkeys : (entries.map (·.1)).Nodup) {past : List (List String)} {t : Table}
    (ht : Table.History (.ofEntries entries) past t) {γ : Type} (code : String) (file : FileInfo)
    (options : Options) (generate : KeyGenerator γ) (state : γ) {outcome : FileOutcome}
    (h : (extract code file options generate t state).result = .ok outcome) :
    let stored := (extract code file options generate t state).table
    outcome.stats.extracted = outcome.stats.reusedKeys + outcome.newKeys ∧
      (t.keys.Nodup ∧ stored.keys.Nodup ∧ stored.size = t.size + outcome.newKeys) ∧
      outcome.inserted.Nodup ∧
      (∀ key, key ∈ outcome.inserted ↔ stored.contains key = true ∧ t.contains key = false) ∧
      ∀ key entry, t.get? key = some entry → stored.get? key = some entry := by
  obtain ⟨htended, -⟩ := ht.tended (Table.tended_ofEntries hkeys)
  obtain ⟨hgains, hcount⟩ := extract_gains htended.complete h
  have hstored := (htended.gains hgains).nodup
  have hperm := hgains.keys_perm
  have hnodup := hperm.nodup_iff.mp hstored
  refine ⟨hcount, ⟨htended.nodup, hstored, hgains.size_eq⟩, hnodup.of_append_left, ?_,
    fun _ _ => hgains.kept⟩
  intro key
  rw [Table.contains_iff, hperm.mem_iff, List.mem_append, ← Bool.not_eq_true, Table.contains_iff]
  constructor
  · intro hin
    exact ⟨.inl hin, fun hold => List.disjoint_of_nodup_append hnodup hin hold⟩
  · rintro ⟨hin | hold, hnew⟩
    · exact hin
    · exact absurd hold hnew

/-- The keys of a first file are taken out when a second one has been extracted; a third one brings
its text back. -/
theorem extract_accounts_for_keys_late :
    let file : FileInfo := ⟨"src/b.tsx", .component⟩
    let run (code : String) (t : Table) := extract code file {} (sameKey "a.ok") t ()
    let entries := [("a.ok", (⟨"确定", "src/a.tsx", []⟩ : Entry))]
    let first := run "f(\"完成\")" (.ofEntries entries)
    let t := (run "f(\"取消\")" first.table).table.rollback ["a.ok_2"]
    let last := run "f(\"完成\", \"确定\", \"完成\", \"返回\")" t
    (entries.map (·.1)).Nodup ∧ first.added = ["a.ok_2"] ∧ t.keys = ["a.ok", "a.ok_3"] ∧
      ∃ outcome, last.result = .ok outcome ∧ outcome.inserted = ["a.ok_2", "a.ok_4"] ∧
        outcome.stats.extracted = 4 ∧
        outcome.stats.extracted = outcome.stats.reusedKeys + outcome.newKeys ∧
        last.table.size = t.size + outcome.newKeys ∧
        ∀ key entry, t.get? key = some entry → last.table.get? key = some entry := by
  intro file run entries first t last
  have hkeys : (entries.map (·.1)).Nodup := by decide
  obtain ⟨hadded, hleft, hlast⟩ : first.added = ["a.ok_2"] ∧ t.keys = ["a.ok", "a.ok_3"] ∧
      last.result.toOption.map (fun o => (o.inserted, o.stats.extracted)) =
        some (["a.ok_2", "a.ok_4"], 4) := by decide +kernel
  have ht : Table.History (.ofEntries entries) [(run "f(\"取消\")" first.table).added, first.added]
      t := .undone (.extracted _ _ _ _ _ (.extracted _ _ _ _ _ .start)) (by simp [hadded])
  obtain ⟨outcome, hok, hpair⟩ := Option.map_eq_some_iff.mp hlast
  obtain ⟨hinserted, hcount⟩ := Prod.mk.inj hpair
  have hresult := eq_ok_of_toOption hok
  obtain ⟨hsum, ⟨-, -, hsize⟩, -, -, hkept⟩ :=
    extract_accounts_for_keys entries hkeys ht _ file {} _ () hresult
  exact ⟨hkeys, hadded, hleft, outcome, hresult, hinserted, hcount, hsum, hsize, hkept⟩

end Phrasebook
