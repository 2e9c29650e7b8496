import Phrasebook.Proofs.Table
import Phrasebook.Resolution

/-!
Resolving the sites of a file. Every key that is given out leads to an entry with the signature of
its site, nothing that was stored before changes, and the keys reported as added are all it takes to
undo the change.
-/
namespace Phrasebook

variable {t : Table} {file : FileInfo} {γ : Type}

/-- The entry under a key is that of a site: same text, same names of slots. -/
def Table.Holds (t : Table) (site : Site) (key : String) : Prop :=
  ∃ entry, t.get? key = some entry ∧ entry.signature = site.signature

/-! ### What the sites need -/

theorem SiteKeys.forall_put {Q : SiteId × String → Prop} {keys : SiteKeys} {id : SiteId}
    {key : String} (h : ∀ p ∈ keys, Q p) (hnew : Q (id, key)) : ∀ p ∈ keys.put id key, Q p := by
  intro p hp
  unfold SiteKeys.put at hp
  split at hp
  · obtain ⟨q, hq, rfl⟩ := List.mem_map.mp hp
    by_cases he : q.1 = id
    · simpa [he] using hnew
    · simpa [he] using h q hq
  · rcases List.mem_append.mp hp with hp | hp
    · exact h p hp
    · rw [List.mem_singleton.mp hp]
      exact hnew

namespace Demand

/-- Sites seen so far are sorted rightly: known keys are those of the table, and each site that
waits has the signature of the pending one it waits for. -/
structure Fits (t : Table) (sites : List Site) (d : Demand) : Prop where
  known : ∀ p ∈ d.known, ∃ site ∈ sites, site.id = p.1 ∧ t.find? site.signature = some p.2
  unknown : ∀ site ∈ d.pending, t.find? site.signature = none
  distinct : (d.pending.map Site.signature).Nodup
  waiting : ∀ p ∈ d.waiting, ∃ site ∈ sites, site.id = p.1 ∧
    (d.pending[p.2]?).map Site.signature = some site.signature

theorem Fits.more {sites : List Site} {d : Demand} (h : Fits t sites d) (site : Site) :
    Fits t (sites ++ [site]) d := by
  refine ⟨?_, h.unknown, h.distinct, ?_⟩
  · intro p hp
    obtain ⟨x, hx, hrest⟩ := h.known p hp
    exact ⟨x, List.mem_append_left _ hx, hrest⟩
  · intro p hp
    obtain ⟨x, hx, hrest⟩ := h.waiting p hp
    exact ⟨x, List.mem_append_left _ hx, hrest⟩

theorem add_fits {sites : List Site} {d : Demand} (h : Fits t sites d) (site : Site) :
    Fits t (sites ++ [site]) (d.add t site) := by
  have hmore := h.more site
  have hlast : site ∈ sites ++ [site] := by simp
  unfold add
  cases hfind : t.find? site.signature with
  | some key =>
    exact ⟨SiteKeys.forall_put hmore.known ⟨site, hlast, rfl, hfind⟩, h.unknown, h.distinct,
      hmore.waiting⟩
  | none =>
    cases hidx : d.pending.findIdx? (·.signature == site.signature) with
    | some i =>
      refine ⟨hmore.known, h.unknown, h.distinct, ?_⟩
      intro p hp
      rcases List.mem_append.mp hp with hp | hp
      · exact hmore.waiting p hp
      · obtain ⟨hlt, heq, -⟩ := List.findIdx?_eq_some_iff_getElem.mp hidx
        rw [List.mem_singleton.mp hp]
        exact ⟨site, hlast, rfl, by simpa [List.getElem?_eq_getElem hlt] using heq⟩
    | none =>
      have hfresh : site.signature ∉ d.pending.map Site.signature := by
        intro hm
        obtain ⟨q, hq, heq⟩ := List.mem_map.mp hm
        have := List.findIdx?_eq_none_iff.mp hidx q hq
        simp [heq] at this
      refine ⟨hmore.known, ?_, ?_, ?_⟩
      · intro q hq
        rcases List.mem_append.mp hq with hq | hq
        · exact h.unknown q hq
        · rw [List.mem_singleton.mp hq]
          exact hfind
      · rw [List.map_append, List.nodup_append]
        refine ⟨h.distinct, by simp, ?_⟩
        rintro a ha b hb rfl
        rw [List.map_singleton, List.mem_singleton] at hb
        exact hfresh (hb ▸ ha)
      · intro p hp
        rcases List.mem_append.mp hp with hp | hp
        · obtain ⟨x, hx, hid, hsig⟩ := hmore.waiting p hp
          refine ⟨x, hx, hid, ?_⟩
          obtain ⟨q, hq, hqs⟩ := Option.map_eq_some_iff.mp hsig
          have hlt := (List.getElem?_eq_some_iff.mp hq).1
          simp [List.getElem?_append_left hlt, hq, hqs]
        · rw [List.mem_singleton.mp hp]
          exact ⟨site, hlast, rfl, by simp⟩

theorem of_fits (t : Table) (sites : List Site) : Fits t sites (Demand.of t sites) := by
  have hfold : ∀ (seen : List Site) (d : Demand), Fits t seen d →
      Fits t (seen ++ sites) (sites.foldl (add t) d) := by
    induction sites with
    | nil => simp
    | cons site rest ih =>
      intro seen d h
      have := ih (seen ++ [site]) (d.add t site) (add_fits h site)
      simpa using this
  exact hfold [] {} ⟨by simp, by simp, by simp, by simp⟩

end Demand

/-! ### Storing the new keys -/

namespace Storing

/-- From `st` to `st'` the messages of `sites` were stored, each under a key of its own. -/
structure Grows (sites : List Site) (st st' : Storing) : Prop where
  complete : st'.table.Complete
  indexed : st.table.Indexed → st'.table.Indexed
  sound : st.table.Sound → st'.table.Sound
  kept : ∀ key entry, st.table.get? key = some entry → st'.table.get? key = some entry
  found : ∀ sig key, st.table.find? sig = some key → st'.table.find? sig = some key
  added : ∃ keys, st'.inserted = st.inserted ++ keys ∧ st'.assigned = st.assigned ++ keys ∧
    (st.table.Indexed → st'.table.rollback keys = st.table) ∧
    List.Forall₂ (fun site key => st'.table.find? site.signature = some key) sites keys

theorem Grows.refl {st : Storing} (h : st.table.Complete) : Grows [] st st :=
  ⟨h, id, id, fun _ _ => id, fun _ _ => id, [], by simp, by simp,
    fun _ => st.table.rollback_nil, .nil⟩

variable (file)

/-- A message whose signature is new goes under a key that was free. Sharing a key is out of the
question: an entry of the same signature would have been found. -/
theorem add_new {st : Storing} (h : st.table.Complete) (site : Site) (key : String)
    (hnew : st.table.find? site.signature = none) :
    ∃ k, st.table.contains k = false ∧
      (st.add file site key).table = st.table.put k ⟨site.text, file.path, site.vars⟩ ∧
      (st.add file site key).inserted = st.inserted ++ [k] ∧
      (st.add file site key).assigned = st.assigned ++ [k] := by
  obtain ⟨hfree, heq⟩ | ⟨existing, hget, hsig, -⟩ | ⟨existing, hget, -, heq⟩ :=
    st.table.insert_cases key ⟨site.text, file.path, site.vars⟩
  · exact ⟨key, hfree, by simp [add, heq, hfree]⟩
  · have hfound := h key existing hget
    rw [hsig] at hfound
    change (st.table.find? site.signature).isSome at hfound
    rw [hnew] at hfound
    cases hfound
  · exact ⟨st.table.freeKey key, st.table.freeKey_not_contains key, by simp [add, heq]⟩

theorem add_grows {st : Storing} (h : st.table.Complete) (site : Site) (key : String)
    (hnew : st.table.find? site.signature = none) : Grows [site] st (st.add file site key) := by
  obtain ⟨k, hfree, htable, hinserted, hassigned⟩ := add_new file h site key hnew
  refine ⟨?_, ?_, ?_, ?_, ?_, [k], hinserted, hassigned, ?_, ?_⟩
  · rw [htable]
    exact h.put k _
  · intro hindexed
    rw [htable]
    exact hindexed.put k _
  · intro hsound
    rw [htable]
    exact hsound.put hfree _
  · intro other e he
    rw [htable]
    exact Table.get?_put_of_get? hfree he
  · intro sig other hfind
    have hsig : ¬(sig = site.signature ∧ st.table.find? site.signature = none) := by
      rintro ⟨rfl, -⟩
      rw [hnew] at hfind
      cases hfind
    rw [htable, Table.find?_put]
    exact (if_neg hsig).trans hfind
  · intro hindexed
    rw [htable]
    exact Table.rollback_put hindexed hfree hnew
  · refine .cons ?_ .nil
    rw [htable, Table.find?_put]
    exact if_pos ⟨rfl, hnew⟩

theorem Grows.trans {xs ys : List Site} {st st' st'' : Storing} (h : Grows xs st st')
    (h' : Grows ys st' st'') : Grows (xs ++ ys) st st'' := by
  obtain ⟨ks, hins, hass, hback, hfound⟩ := h.added
  obtain ⟨ks', hins', hass', hback', hfound'⟩ := h'.added
  refine ⟨h'.complete, h'.indexed ∘ h.indexed, h'.sound ∘ h.sound,
    fun key e he => h'.kept key e (h.kept key e he),
    fun sig key hk => h'.found sig key (h.found sig key hk), ks ++ ks', ?_, ?_, ?_, ?_⟩
  · rw [hins', hins, List.append_assoc]
  · rw [hass', hass, List.append_assoc]
  · intro hindexed
    rw [Table.rollback_append, hback' (h.indexed hindexed), hback hindexed]
  · have hstill := hfound.imp fun (site : Site) key => h'.found site.signature key
    exact List.rel_append hstill hfound'

/-- Storing one message leaves every other signature as new as it was. -/
theorem find?_add_of_ne {st : Storing} (h : st.table.Complete) {site : Site} {key : String}
    (hnew : st.table.find? site.signature = none) {sig : Signature} (hne : sig ≠ site.signature)
    (hsig : st.table.find? sig = none) : (st.add file site key).table.find? sig = none := by
  obtain ⟨k, -, htable, -, -⟩ := add_new file h site key hnew
  rw [htable, Table.find?_put, if_neg fun hc => hne hc.1, hsig]

theorem addAll_grows (pairs : List (Site × String)) {st : Storing} (h : st.table.Complete)
    (hnew : ∀ p ∈ pairs, st.table.find? p.1.signature = none)
    (hdistinct : (pairs.map (·.1.signature)).Nodup) :
    Grows (pairs.map (·.1)) st (st.addAll file pairs) := by
  induction pairs generalizing st with
  | nil => exact .refl h
  | cons p rest ih =>
    rw [List.map_cons, List.nodup_cons] at hdistinct
    have hp := hnew p (List.mem_cons_self ..)
    have hfirst : Grows [p.1] st (st.add file p.1 p.2) := add_grows file h p.1 p.2 hp
    refine hfirst.trans (ih hfirst.complete ?_ hdistinct.2)
    intro q hq
    have hne : q.1.signature ≠ p.1.signature := fun he =>
      hdistinct.1 (he ▸ List.mem_map_of_mem hq)
    exact find?_add_of_ne file h hp hne (hnew q (List.mem_cons_of_mem _ hq))

end Storing

/-! ### Resolving -/

/-- With one key for each, all pending messages are stored. -/
theorem Demand.Fits.store (file : FileInfo) {sites : List Site} {d : Demand}
    (hfits : d.Fits t sites) (h : t.Complete) {keys : List String}
    (hlen : keys.length = d.pending.length) :
    Storing.Grows d.pending { table := t }
      (Storing.addAll file { table := t } (d.pending.zip keys)) := by
  have hfirst : (d.pending.zip keys).map (·.1) = d.pending := List.map_fst_zip (by omega)
  have hgrows : Storing.Grows ((d.pending.zip keys).map (·.1)) { table := t }
      (Storing.addAll file { table := t } (d.pending.zip keys)) := by
    refine Storing.addAll_grows file _ h ?_ ?_
    · intro p hp
      exact hfits.unknown p.1 (List.of_mem_zip hp).1
    · have := hfits.distinct
      rwa [← hfirst, List.map_map] at this
  rwa [hfirst] at hgrows

/-- Waiting sites get the key of the message they share, so every site has the key under which its
signature is found in the end. -/
theorem Demand.settle_found {sites : List Site} {d : Demand} {stored : Table}
    {assigned : List String} (hfits : d.Fits t sites)
    (hknown : ∀ sig key, t.find? sig = some key → stored.find? sig = some key)
    (hassigned : List.Forall₂ (fun site key => stored.find? site.signature = some key)
      d.pending assigned) :
    ∀ p ∈ d.settle assigned,
      ∃ site ∈ sites, site.id = p.1 ∧ stored.find? site.signature = some p.2 := by
  have hstart : ∀ p ∈ d.known,
      ∃ site ∈ sites, site.id = p.1 ∧ stored.find? site.signature = some p.2 := by
    intro p hp
    obtain ⟨site, hs, hid, hfind⟩ := hfits.known p hp
    exact ⟨site, hs, hid, hknown _ _ hfind⟩
  have hwait : ∀ p ∈ d.waiting, ∃ site ∈ sites, site.id = p.1 ∧
      stored.find? site.signature = some (assigned.getD p.2 "") := by
    intro p hp
    obtain ⟨site, hs, hid, hsig⟩ := hfits.waiting p hp
    obtain ⟨q, hq, hqs⟩ := Option.map_eq_some_iff.mp hsig
    obtain ⟨hlt, hget⟩ := List.getElem?_eq_some_iff.mp hq
    have hlt' : p.2 < assigned.length := hassigned.length_eq ▸ hlt
    have hfound := (List.forall₂_iff_get.mp hassigned).2 p.2 hlt hlt'
    refine ⟨site, hs, hid, ?_⟩
    rw [← hqs, ← hget]
    simpa [List.getD_eq_getElem?_getD, hlt'] using hfound
  have hfold : ∀ (waiting : List (SiteId × Nat)) (keys : SiteKeys),
      (∀ p ∈ waiting, p ∈ d.waiting) →
      (∀ p ∈ keys, ∃ site ∈ sites, site.id = p.1 ∧ stored.find? site.signature = some p.2) →
      ∀ p ∈ waiting.foldl (fun keys p => keys.put p.1 (assigned.getD p.2 "")) keys,
        ∃ site ∈ sites, site.id = p.1 ∧ stored.find? site.signature = some p.2 := by
    intro waiting
    induction waiting with
    | nil => exact fun keys _ h => h
    | cons q rest ih =>
      intro keys hsub h
      refine ih _ (fun p hp => hsub p (List.mem_cons_of_mem _ hp)) ?_
      exact SiteKeys.forall_put h (hwait q (hsub q (List.mem_cons_self ..)))
  exact hfold d.waiting d.known (fun _ => id) hstart

/-- A resolution that succeeds either stores nothing, or one message for each key that the generator
gave for the pending ones. -/
theorem resolve_ok {sites : List Site} {generate : KeyGenerator γ} {state state' : γ}
    {r : Resolution} {stored : Table}
    (hres : resolve sites file generate t state = (.ok (r, stored), state')) :
    ((Demand.of t sites).pending = [] ∧ state' = state ∧ stored = t ∧
      r = ⟨(Demand.of t sites).known, (Demand.of t sites).reused, [], []⟩) ∨
    ∃ keys st, (Demand.of t sites).pending ≠ [] ∧
      generate ((Demand.of t sites).requests file) state = (.ok keys, state') ∧
      keys.length = (Demand.of t sites).pending.length ∧
      st = Storing.addAll file { table := t } ((Demand.of t sites).pending.zip keys) ∧
      stored = st.table ∧
      r = ⟨(Demand.of t sites).settle st.assigned, (Demand.of t sites).reused, st.collisions,
        st.inserted⟩ := by
  simp only [resolve] at hres
  split at hres
  · rename_i hnone
    cases hres
    exact Or.inl ⟨List.isEmpty_iff.mp hnone, rfl, rfl, rfl⟩
  · rename_i hpending
    cases hgen : generate ((Demand.of t sites).requests file) state with
    | mk result after =>
      cases result with
      | error reason => simp [hgen] at hres
      | ok keys =>
        simp only [hgen] at hres
        split at hres
        · rename_i hlen
          cases hres
          exact Or.inr ⟨keys, _, fun h => hpending (List.isEmpty_iff.mpr h), rfl, by simpa using hlen,
            rfl, rfl, rfl⟩
        · cases hres

/-- What a resolution has done to the table, and where its keys are found there. -/
structure Resolution.Stores (r : Resolution) (sites : List Site) (t stored : Table) : Prop where
  indexed : t.Indexed → stored.Indexed
  sound : t.Sound → stored.Sound
  kept : ∀ key entry, t.get? key = some entry → stored.get? key = some entry
  undone : t.Indexed → stored.rollback r.inserted = t
  found : ∀ p ∈ r.keys, ∃ site ∈ sites, site.id = p.1 ∧ stored.find? site.signature = some p.2

theorem resolve_stores {sites : List Site} {generate : KeyGenerator γ} {state state' : γ}
    {r : Resolution} {stored : Table} (h : t.Complete)
    (hres : resolve sites file generate t state = (.ok (r, stored), state')) :
    r.Stores sites t stored := by
  have hfits := Demand.of_fits t sites
  obtain ⟨-, -, rfl, rfl⟩ | ⟨keys, st, -, -, hlen, hst, rfl, rfl⟩ := resolve_ok hres
  · exact ⟨id, id, fun _ _ => id, fun _ => Table.rollback_nil _, hfits.known⟩
  · have hgrows := hfits.store file h hlen
    rw [← hst] at hgrows
    obtain ⟨ks, hins, hass, hback, hfound⟩ := hgrows.added
    rw [List.nil_append] at hins hass
    rw [← hins] at hback
    rw [← hass] at hfound
    exact ⟨hgrows.indexed, hgrows.sound, hgrows.kept, hback,
      Demand.settle_found hfits hgrows.found hfound⟩

/-- What follows for a table whose index is in order. -/
structure Resolution.Valid (r : Resolution) (sites : List Site) (t stored : Table) : Prop where
  indexed : stored.Indexed
  sound : t.Sound → stored.Sound
  undone : stored.rollback r.inserted = t
  keyed : t.Sound → ∀ p ∈ r.keys, ∃ site ∈ sites, site.id = p.1 ∧ stored.Holds site p.2

theorem resolve_valid {sites : List Site} {generate : KeyGenerator γ} {state state' : γ}
    {r : Resolution} {stored : Table} (h : t.Indexed)
    (hres : resolve sites file generate t state = (.ok (r, stored), state')) :
    r.Valid sites t stored := by
  have hstores := resolve_stores h.found hres
  refine ⟨hstores.indexed h, hstores.sound, hstores.undone h, ?_⟩
  intro hsound p hp
  obtain ⟨site, hs, hid, hfind⟩ := hstores.found p hp
  exact ⟨site, hs, hid, hstores.sound hsound _ _ hfind⟩

end Phrasebook
