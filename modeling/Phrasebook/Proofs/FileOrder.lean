import Mathlib.Algebra.Ring.Nat
import Phrasebook.Proofs.Phrases

/-!
The order of files does not matter for what is stored. The sites of a file do not depend on the
table, and a message is stored exactly if it is one of theirs and not there yet. Which key it gets
and which file it is said to be from depend on the order; the set of signatures and the number of
new keys do not.
-/
namespace Phrasebook

open Script

namespace Table

variable {t u v : Table} {key : String} {entry : Entry} {keys more : List String} {sig : Signature}

/-- The entry under a key has the signature. -/
def HoldsAt (t : Table) (sig : Signature) (key : String) : Prop :=
  ∃ entry, t.get? key = some entry ∧ entry.signature = sig

def Stores (t : Table) (sig : Signature) : Prop := ∃ key, t.HoldsAt sig key

theorem stores_put (hfree : t.contains key = false) :
    (t.put key entry).Stores sig ↔ sig = entry.signature ∨ t.Stores sig := by
  constructor
  · rintro ⟨other, e, he, hsig⟩
    by_cases hkey : other = key
    · subst hkey
      rw [get?_put_self, Option.some.injEq] at he
      exact .inl (he ▸ hsig.symm)
    · rw [get?_put_of_ne hkey] at he
      exact .inr ⟨other, e, he, hsig⟩
  · rintro (rfl | ⟨other, e, he, hsig⟩)
    · exact ⟨key, entry, get?_put_self t key entry, rfl⟩
    · exact ⟨other, e, get?_put_of_get? hfree he, hsig⟩

/-- In a table whose index is in order, what is found is what is stored. -/
theorem find?_eq_none_iff (hsound : t.Sound) (hcomplete : t.Complete) :
    t.find? sig = none ↔ ¬t.Stores sig := by
  constructor
  · rintro hnone ⟨key, e, he, rfl⟩
    have hfound := hcomplete key e he
    rw [hnone] at hfound
    cases hfound
  · intro hnot
    cases hfind : t.find? sig with
    | none => rfl
    | some key => exact absurd ⟨key, hsound sig key hfind⟩ hnot

/-! ### Signatures gained -/

theorem Gains.trans (h : Gains t keys u) (h' : Gains u more v) : Gains t (keys ++ more) v := by
  induction h' with
  | start => rwa [List.append_nil]
  | put key entry _ hfree hnew ih =>
    rw [← List.append_assoc]
    exact .put key entry ih hfree hnew

theorem Gains.stores (h : Gains t keys u) (hsig : t.Stores sig) : u.Stores sig := by
  obtain ⟨key, e, he, rfl⟩ := hsig
  exact ⟨key, e, h.kept he, rfl⟩

/-- Each key that is gained brings a signature of its own. -/
theorem Gains.signatures (h : Gains t keys u) (hcomplete : t.Complete) :
    ∃ sigs : List Signature, sigs.Nodup ∧ sigs.length = keys.length ∧
      ∀ sig, sig ∈ sigs ↔ u.Stores sig ∧ ¬t.Stores sig := by
  induction h with
  | start => exact ⟨[], List.nodup_nil, rfl, by simp⟩
  | @put keys u key entry hgains hfree hnew ih =>
    obtain ⟨sigs, hnodup, hlen, hmem⟩ := ih
    have hunstored : ¬u.Stores entry.signature := by
      rintro ⟨other, e, he, hsig⟩
      have hfound := hgains.complete hcomplete other e he
      rw [hsig, hnew] at hfound
      cases hfound
    refine ⟨sigs ++ [entry.signature], ?_, by simp [hlen], ?_⟩
    · refine List.nodup_append.mpr ⟨hnodup, List.nodup_singleton _, ?_⟩
      rintro a ha b hb rfl
      rw [List.mem_singleton.mp hb] at ha
      exact hunstored ((hmem _).mp ha).1
    · intro sig
      rw [List.mem_append, List.mem_singleton, hmem, stores_put hfree]
      constructor
      · rintro (⟨hin, hout⟩ | rfl)
        · exact ⟨.inr hin, hout⟩
        · exact ⟨.inl rfl, fun hold => hunstored (hgains.stores hold)⟩
      · rintro ⟨rfl | hin, hout⟩
        · exact .inr rfl
        · exact .inl ⟨hin, hout⟩

/-- Tables that grew from the same one to hold the same signatures grew by equally many keys. -/
theorem Gains.length_eq (h : Gains t keys u) (h' : Gains t more v) (hcomplete : t.Complete)
    (hsame : ∀ sig, u.Stores sig ↔ v.Stores sig) : keys.length = more.length := by
  obtain ⟨sigs, hnodup, hlen, hmem⟩ := h.signatures hcomplete
  obtain ⟨sigs', hnodup', hlen', hmem'⟩ := h'.signatures hcomplete
  have hperm : sigs.Perm sigs' := by
    rw [List.perm_ext_iff_of_nodup hnodup hnodup']
    intro sig
    rw [hmem, hmem', hsame]
  rw [← hlen, ← hlen', hperm.length_eq]

/-- A signature that was not there at the start is held by one entry only. -/
theorem Tended.unique {start : Table} (h : Tended start t)
    (hkept : ∀ key entry, start.get? key = some entry → t.get? key = some entry)
    (hnew : ¬start.Stores sig) (hsig : t.Stores sig) : ∃! key, t.HoldsAt sig key := by
  obtain ⟨key, e, he, rfl⟩ := hsig
  have hout : start.contains key = false := by
    rw [← get?_eq_none_iff, Option.eq_none_iff_forall_ne_some]
    intro e' he'
    obtain rfl : e' = e := Option.some.inj ((hkept key e' he').symm.trans he)
    exact hnew ⟨key, e', he', rfl⟩
  refine ⟨key, ⟨e, he, rfl⟩, ?_⟩
  rintro other ⟨e', he', hsame⟩
  exact h.own key e he hout other e' he' hsame

end Table

/-! ### What a file brings -/

variable {γ : Type} {t start : Table} {file : FileInfo} {sites : List Site} {sig : Signature}

theorem Demand.mem_pending (hnodup : sites.Nodup) :
    sig ∈ (Demand.of t sites).pending.map Site.signature ↔
      t.find? sig = none ∧ sig ∈ sites.map Site.signature := by
  rw [Demand.pending_of hnodup]
  simp only [List.mem_map, Table.mem_firstUnknown]
  constructor
  · rintro ⟨site, ⟨hnone, hfirst⟩, rfl⟩
    exact ⟨hnone, site, List.mem_of_find?_eq_some hfirst, rfl⟩
  · rintro ⟨hnone, site, hs, rfl⟩
    have hsome : (sites.find? (·.signature == site.signature)).isSome :=
      List.find?_isSome.mpr ⟨site, hs, by simp⟩
    obtain ⟨first, hfirst⟩ := Option.isSome_iff_exists.mp hsome
    have heq : first.signature = site.signature := by simpa using List.find?_some hfirst
    exact ⟨first, by rw [heq]; exact ⟨hnone, hfirst⟩, heq⟩

theorem Storing.addAll_stores (file : FileInfo) (pairs : List (Site × String)) {st : Storing}
    (h : st.table.Complete) (hnew : ∀ p ∈ pairs, st.table.find? p.1.signature = none)
    (hdistinct : (pairs.map (·.1.signature)).Nodup) :
    (st.addAll file pairs).table.Stores sig ↔
      st.table.Stores sig ∨ sig ∈ pairs.map (·.1.signature) := by
  induction pairs generalizing st with
  | nil => simp [Storing.addAll]
  | cons p rest ih =>
    rw [List.map_cons, List.nodup_cons] at hdistinct
    have hp := hnew p (List.mem_cons_self ..)
    obtain ⟨k, hfree, htable, -, -⟩ := Storing.add_new file h p.1 p.2 hp
    have hlater : ∀ q ∈ rest, (st.add file p.1 p.2).table.find? q.1.signature = none := by
      intro q hq
      have hne : q.1.signature ≠ p.1.signature := fun he =>
        hdistinct.1 (he ▸ List.mem_map_of_mem hq)
      exact Storing.find?_add_of_ne file h hp hne (hnew q (List.mem_cons_of_mem _ hq))
    have hrest := ih (Storing.add_grows file h p.1 p.2 hp).complete hlater hdistinct.2
    rw [htable, Table.stores_put hfree] at hrest
    rw [List.map_cons, List.mem_cons, ← or_assoc, or_comm (a := st.table.Stores sig)]
    exact hrest

/-- Resolving stores the signatures of the sites, and nothing else. -/
theorem resolve_stores_iff {generate : KeyGenerator γ} {state state' : γ} {r : Resolution}
    {stored : Table} (hnodup : sites.Nodup) (hsound : t.Sound) (hcomplete : t.Complete)
    (hres : resolve sites file generate t state = (.ok (r, stored), state')) :
    stored.Stores sig ↔ t.Stores sig ∨ sig ∈ sites.map Site.signature := by
  have hpending : sig ∈ (Demand.of t sites).pending.map Site.signature ↔
      ¬t.Stores sig ∧ sig ∈ sites.map Site.signature := by
    rw [Demand.mem_pending hnodup, Table.find?_eq_none_iff hsound hcomplete]
  have hstored : stored.Stores sig ↔
      t.Stores sig ∨ sig ∈ (Demand.of t sites).pending.map Site.signature := by
    obtain ⟨hnone, -, rfl, -⟩ | ⟨keys, st, -, -, hlen, rfl, rfl, -⟩ := resolve_ok hres
    · simp [hnone]
    · have hfits := Demand.of_fits t sites
      have hfirst : ((Demand.of t sites).pending.zip keys).map (·.1.signature) =
          (Demand.of t sites).pending.map Site.signature := by
        have hpairs : ((Demand.of t sites).pending.zip keys).map (·.1) =
            (Demand.of t sites).pending := List.map_fst_zip (by omega)
        simpa [Function.comp_def] using congrArg (List.map Site.signature) hpairs
      rw [← hfirst]
      refine Storing.addAll_stores file _ hcomplete ?_ (by rw [hfirst]; exact hfits.distinct)
      intro p hp
      exact hfits.unknown p.1 (List.of_mem_zip hp).1
  rw [hstored, hpending]
  tauto

theorem Setting.nodup_sites (s : Setting) : s.sites.Nodup := by
  refine List.Nodup.of_map (·.id) ?_
  rw [s.sites_eq]
  exact Collector.nodup_after _ List.nodup_nil

namespace Job

/-- The signatures of the sites that are collected from a file. -/
def signatures (j : Job) : List Signature :=
  match Source.read j.file.hasMarkup j.code with
  | .ok source => (Setting.of source j.file j.options).sites.map Site.signature
  | .error _ => []

/-- What becomes of files that are extracted one after another. -/
def outcomes (generate : KeyGenerator γ) :
    List Job → Table → γ → List (Except ExtractFault FileOutcome)
  | [], _, _ => []
  | j :: js, t, state =>
    let x := extract j.code j.file j.options generate t state
    x.result :: outcomes generate js x.table x.state

variable {generate : KeyGenerator γ} {state : γ}

theorem stores_iff {j : Job} {outcome : FileOutcome} (hsound : t.Sound) (hcomplete : t.Complete)
    (h : (extract j.code j.file j.options generate t state).result = .ok outcome) :
    (extract j.code j.file j.options generate t state).table.Stores sig ↔
      t.Stores sig ∨ sig ∈ j.signatures := by
  obtain ⟨source, r, stored, _, _, hread, hres, htable, -⟩ := extract_ok h
  rw [htable, resolve_stores_iff (Setting.nodup_sites _) hsound hcomplete hres]
  simp only [signatures, hread]

/-- What files do to a table one after another, if none of them fails. -/
structure Effect (jobs : List Job) (outcomes : List FileOutcome) (t u : Table) : Prop where
  gains : t.Gains (outcomes.flatMap (·.inserted)) u
  stores : ∀ sig, u.Stores sig ↔ t.Stores sig ∨ ∃ j ∈ jobs, sig ∈ j.signatures

theorem runJobs_effect (jobs : List Job) {os : List FileOutcome} (h : Table.Tended start t)
    (hok : outcomes generate jobs t state = os.map .ok) :
    Effect jobs os t (runJobs generate jobs t state).2 := by
  induction jobs generalizing t state os with
  | nil =>
    obtain rfl : os = [] := by simpa [outcomes] using hok.symm
    exact ⟨.start, by simp [runJobs]⟩
  | cons j js ih =>
    obtain ⟨o, rest, rfl, hfirst, hrest⟩ := List.map_eq_cons_iff.mp hok.symm
    have hgains := (extract_gains h.complete hfirst.symm).1
    obtain ⟨hmore, hstores⟩ := ih h.extracted.1 hrest.symm
    refine ⟨?_, ?_⟩
    · rw [List.flatMap_cons]
      exact hgains.trans hmore
    · intro sig
      rw [runJobs, hstores, stores_iff h.linked.sound h.complete hfirst.symm]
      simp [or_assoc]

/-- The number of new keys is that of the keys gained. -/
theorem sum_newKeys (os : List FileOutcome) :
    (os.map FileOutcome.newKeys).sum = (os.flatMap (·.inserted)).length := by
  rw [List.length_flatMap]
  rfl

end Job

/-- Two runs over the same files, in any two orders and with any two generators, store the same
signatures if no file fails: those that were there and those of all sites. Both need equally many
new keys, and have one key for each new signature. -/
theorem file_order_keeps_signatures (entries : List (String × Entry))
    (hkeys : (entries.map (·.1)).Nodup) {γ δ : Type} (first : KeyGenerator γ)
    (second : KeyGenerator δ) (a : γ) (b : δ) {jobs jobs' : List Job} (hperm : jobs.Perm jobs')
    {os os' : List FileOutcome}
    (hok : Job.outcomes first jobs (.ofEntries entries) a = os.map .ok)
    (hok' : Job.outcomes second jobs' (.ofEntries entries) b = os'.map .ok) :
    let start := Table.ofEntries entries
    let t := (runJobs first jobs start a).2
    let u := (runJobs second jobs' start b).2
    (∀ sig, t.Stores sig ↔ start.Stores sig ∨ ∃ j ∈ jobs, sig ∈ j.signatures) ∧
      (∀ sig, u.Stores sig ↔ t.Stores sig) ∧
      (os.map FileOutcome.newKeys).sum = (os'.map FileOutcome.newKeys).sum ∧
      ∀ sig, ¬start.Stores sig → t.Stores sig →
        (∃! key, t.HoldsAt sig key) ∧ ∃! key, u.HoldsAt sig key := by
  intro start t u
  have hstart : Table.Tended start start := Table.tended_ofEntries hkeys
  obtain ⟨hgains, hstores⟩ := Job.runJobs_effect jobs hstart hok
  obtain ⟨hgains', hstores'⟩ := Job.runJobs_effect jobs' hstart hok'
  have hsame : ∀ sig, u.Stores sig ↔ t.Stores sig := by
    intro sig
    rw [hstores, hstores']
    simp only [hperm.mem_iff]
  refine ⟨hstores, hsame, ?_, ?_⟩
  · rw [Job.sum_newKeys, Job.sum_newKeys]
    exact hgains.length_eq hgains' hstart.complete fun sig => (hsame sig).symm
  · intro sig hnew hsig
    exact ⟨(hstart.gains hgains).unique (fun _ _ => hgains.kept) hnew hsig,
      (hstart.gains hgains').unique (fun _ _ => hgains'.kept) hnew ((hsame sig).mpr hsig)⟩

theorem exists_map_ok {ε α β : Type} {f : α → β} {xs : List (Except ε α)} {ys : List β}
    (h : xs.map (·.toOption.map f) = ys.map some) : ∃ as : List α,
      xs = as.map .ok ∧ as.map f = ys := by
  induction xs generalizing ys with
  | nil => exact ⟨[], rfl, (List.map_eq_nil_iff.mp h.symm).symm⟩
  | cons x xs ih =>
    obtain ⟨y, rest, rfl, hfirst, hrest⟩ := List.map_eq_cons_iff.mp h.symm
    obtain ⟨a, ha, rfl⟩ := Option.map_eq_some_iff.mp hfirst.symm
    obtain ⟨as, rfl, rfl⟩ := ih hrest.symm
    exact ⟨a :: as, by rw [eq_ok_of_toOption ha]; rfl, rfl⟩

/-- A generator that numbers the texts of a file, and one that always proposes a key that is taken.
The two files share a text, which stands under another key in each order. -/
theorem file_order_keeps_signatures_shared :
    let entries : List (String × Entry) := [("k", ⟨"完成", "src/c.ts", []⟩)]
    let one : Job := ⟨"f(\"保存\", \"取消\")", ⟨"src/a.ts", .component⟩, {}⟩
    let two : Job := ⟨"g(\"确定\", \"完成\", \"取消\")", ⟨"src/b.ts", .component⟩, {}⟩
    let numbered : KeyGenerator Unit := fun requests state =>
      (.ok (requests.mapIdx fun i _ => "n" ++ toString i), state)
    let start := Table.ofEntries entries
    let t := (runJobs numbered [one, two] start ()).2
    let u := (runJobs (sameKey "k") [two, one] start ()).2
    let cancel : Signature := ⟨"取消", []⟩
    (entries.map (·.1)).Nodup ∧ [one, two].Perm [two, one] ∧
      t.HoldsAt cancel "n1" ∧ u.HoldsAt cancel "k_3" ∧
      ∃ os os' : List FileOutcome, Job.outcomes numbered [one, two] start () = os.map .ok ∧
        Job.outcomes (sameKey "k") [two, one] start () = os'.map .ok ∧
        os.map FileOutcome.newKeys = [2, 1] ∧ os'.map FileOutcome.newKeys = [2, 1] ∧
        (∀ sig, u.Stores sig ↔ t.Stores sig) ∧ ∃! key, u.HoldsAt cancel key := by
  intro entries one two numbered start t u cancel
  have hkeys : (entries.map (·.1)).Nodup := by decide
  have hperm : [one, two].Perm [two, one] := .swap ..
  have hchecked : (Job.outcomes numbered [one, two] start ()).map
        (·.toOption.map FileOutcome.newKeys) = [2, 1].map some ∧
      (Job.outcomes (sameKey "k") [two, one] start ()).map
        (·.toOption.map FileOutcome.newKeys) = [2, 1].map some ∧
      (t.get? "n1").map Entry.signature = some cancel ∧
      (u.get? "k_3").map Entry.signature = some cancel ∧
      start.find? cancel = none := by decide +kernel
  obtain ⟨hcounts, hcounts', hfirst, hsecond, hnone⟩ := hchecked
  have hheld : t.HoldsAt cancel "n1" := Option.map_eq_some_iff.mp hfirst
  have hheld' : u.HoldsAt cancel "k_3" := Option.map_eq_some_iff.mp hsecond
  obtain ⟨os, hok, hnew⟩ := exists_map_ok hcounts
  obtain ⟨os', hok', hnew'⟩ := exists_map_ok hcounts'
  obtain ⟨-, hsame, -, hunique⟩ :=
    file_order_keeps_signatures entries hkeys numbered (sameKey "k") () () hperm hok hok'
  have hstart : Table.Tended start start := Table.tended_ofEntries hkeys
  have hout : ¬start.Stores cancel :=
    (Table.find?_eq_none_iff hstart.linked.sound hstart.complete).mp hnone
  exact ⟨hkeys, hperm, hheld, hheld', os, os', hok, hok', hnew, hnew', hsame,
    (hunique cancel hout ⟨_, hheld⟩).2⟩

end Phrasebook
