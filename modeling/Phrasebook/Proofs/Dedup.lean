import Mathlib.Data.List.Induction
import Phrasebook.Proofs.Resolution

/-!
Keys go by signature. Whatever keys the generator proposes, sites with the same signature share one,
sites with different signatures do not, and the generator is asked once for each signature that the
table lacks.
-/
namespace Phrasebook

variable {t : Table} {file : FileInfo} {γ : Type} {sites : List Site}

/-- The sites whose signature is not in the table, the first one of each signature. -/
def Table.firstUnknown (t : Table) (sites : List Site) : List Site :=
  sites.filter fun site =>
    (t.find? site.signature).isNone && sites.find? (·.signature == site.signature) == some site

/-- Answers like `generate` and records what it was asked, call by call. -/
def KeyGenerator.recording (generate : KeyGenerator γ) :
    KeyGenerator (γ × List (List KeyRequest)) := fun requests (state, calls) =>
  let (result, state) := generate requests state
  (result, state, calls ++ [requests])

/-! ### Which sites are pending -/

theorem Table.mem_firstUnknown {site : Site} : site ∈ t.firstUnknown sites ↔
    t.find? site.signature = none ∧ sites.find? (·.signature == site.signature) = some site := by
  have hmem : sites.find? (·.signature == site.signature) = some site → site ∈ sites :=
    List.mem_of_find?_eq_some
  simp only [firstUnknown, List.mem_filter, Bool.and_eq_true, Option.isNone_iff_eq_none, beq_iff_eq]
  exact ⟨fun h => h.2, fun h => ⟨hmem h.2, h⟩⟩

/-- A site that comes last is the first of its signature if no other has it. -/
theorem Table.firstUnknown_concat {site : Site} (hnew : site ∉ sites) :
    t.firstUnknown (sites ++ [site]) = t.firstUnknown sites ++
      if t.find? site.signature = none ∧ site.signature ∉ sites.map Site.signature then [site]
      else [] := by
  have hbefore : ∀ s ∈ sites, (sites ++ [site]).find? (·.signature == s.signature) =
      sites.find? (·.signature == s.signature) := by
    intro s hs
    have hsome : (sites.find? (·.signature == s.signature)).isSome :=
      List.find?_isSome.mpr ⟨s, hs, by simp⟩
    obtain ⟨first, hfirst⟩ := Option.isSome_iff_exists.mp hsome
    rw [List.find?_append, hfirst, Option.some_or]
  have hlast : (sites ++ [site]).find? (·.signature == site.signature) = some site ↔
      site.signature ∉ sites.map Site.signature := by
    rw [List.find?_append]
    cases hfind : sites.find? (·.signature == site.signature) with
    | none =>
      have hnone := List.find?_eq_none.mp hfind
      simp only [Option.none_or, List.find?_singleton, beq_self_eq_true, if_true, true_iff]
      intro hm
      obtain ⟨s, hs, hsig⟩ := List.mem_map.mp hm
      exact hnone s hs (by simpa using hsig)
    | some first =>
      have hs := List.mem_of_find?_eq_some hfind
      have hsig : first.signature = site.signature := by simpa using List.find?_some hfind
      simp only [Option.some_or, Option.some.injEq]
      constructor
      · rintro rfl
        exact absurd hs hnew
      · intro hm
        exact absurd (hsig ▸ List.mem_map_of_mem hs) hm
  unfold firstUnknown
  rw [List.filter_append]
  congr 1
  · refine List.filter_congr fun s hs => ?_
    rw [hbefore s hs]
  · simp only [List.filter_cons, List.filter_nil, Bool.and_eq_true, Option.isNone_iff_eq_none,
      beq_iff_eq, hlast]

theorem Demand.of_concat (t : Table) (sites : List Site) (site : Site) :
    Demand.of t (sites ++ [site]) = (Demand.of t sites).add t site := by
  simp [Demand.of]

/-- Pending are the first sites of each new signature, in their order. -/
theorem Demand.pending_of (hnodup : sites.Nodup) :
    (Demand.of t sites).pending = t.firstUnknown sites := by
  induction sites using List.reverseRecOn with
  | nil => rfl
  | append_singleton sites site ih =>
    obtain ⟨hsites, -, hdisjoint⟩ := List.nodup_append.mp hnodup
    have hnew : site ∉ sites := fun hm => hdisjoint site hm site (List.mem_singleton_self site) rfl
    have ih := ih hsites
    rw [Demand.of_concat, Table.firstUnknown_concat hnew, ← ih]
    unfold Demand.add
    cases hfind : t.find? site.signature with
    | some key => simp
    | none =>
      have hpending : (∃ s ∈ (Demand.of t sites).pending, s.signature = site.signature) ↔
          site.signature ∈ sites.map Site.signature := by
        rw [ih, List.mem_map]
        constructor
        · rintro ⟨s, hs, hsig⟩
          exact ⟨s, List.mem_of_find?_eq_some (Table.mem_firstUnknown.mp hs).2, hsig⟩
        · rintro ⟨s, hs, hsig⟩
          have hsome : (sites.find? (·.signature == site.signature)).isSome :=
            List.find?_isSome.mpr ⟨s, hs, by simpa using hsig⟩
          obtain ⟨first, hfirst⟩ := Option.isSome_iff_exists.mp hsome
          have heq : first.signature = site.signature := by simpa using List.find?_some hfirst
          exact ⟨first, Table.mem_firstUnknown.mpr (heq ▸ ⟨hfind, hfirst⟩), heq⟩
      cases hidx : (Demand.of t sites).pending.findIdx? (·.signature == site.signature) with
      | some i =>
        obtain ⟨hlt, heq, -⟩ := List.findIdx?_eq_some_iff_getElem.mp hidx
        have hseen := hpending.mp ⟨_, List.getElem_mem hlt, by simpa using heq⟩
        simp [hseen]
      | none =>
        have hfresh : site.signature ∉ sites.map Site.signature := by
          intro hm
          obtain ⟨s, hs, hsig⟩ := hpending.mpr hm
          have := List.findIdx?_eq_none_iff.mp hidx s hs
          simp [hsig] at this
        simp [hfresh]

/-! ### Every site gets a key -/

theorem SiteKeys.mem_put {keys : SiteKeys} {id other : SiteId} {key : String}
    (h : other = id ∨ other ∈ keys.map (·.1)) : other ∈ (keys.put id key).map (·.1) := by
  unfold SiteKeys.put
  split
  · rename_i hany
    have hids : (fun p : SiteId × String => p.1) ∘
        (fun (i, k) => if i == id then (i, key) else (i, k)) = fun p => p.1 := by
      funext p
      dsimp only [Function.comp]
      split <;> rfl
    rw [List.map_map, hids]
    rcases h with rfl | h
    · simpa [List.any_eq_true, List.mem_map] using hany
    · exact h
  · rw [List.map_append, List.mem_append]
    rcases h with rfl | h
    · exact .inr (by simp)
    · exact .inl h

theorem Demand.mem_settle {d : Demand} {assigned : List String} {id : SiteId}
    (h : id ∈ d.known.map (·.1) ∨ id ∈ d.waiting.map (·.1)) :
    id ∈ (d.settle assigned).map (·.1) := by
  have hfold : ∀ (waiting : List (SiteId × Nat)) (keys : SiteKeys),
      id ∈ keys.map (·.1) ∨ id ∈ waiting.map (·.1) →
      id ∈ (waiting.foldl (fun keys p => keys.put p.1 (assigned.getD p.2 "")) keys).map (·.1) := by
    intro waiting
    induction waiting with
    | nil => simp
    | cons p rest ih =>
      intro keys h
      rw [List.map_cons, List.mem_cons] at h
      refine ih _ ?_
      rcases h with h | h | h
      · exact .inl (SiteKeys.mem_put (.inr h))
      · exact .inl (SiteKeys.mem_put (.inl h))
      · exact .inr h
  exact hfold d.waiting d.known h

theorem Demand.covers (t : Table) (sites : List Site) : ∀ site ∈ sites,
    site.id ∈ (Demand.of t sites).known.map (·.1) ∨
      site.id ∈ (Demand.of t sites).waiting.map (·.1) := by
  induction sites using List.reverseRecOn with
  | nil => simp
  | append_singleton sites last ih =>
    rw [Demand.of_concat]
    intro site hs
    have hs : site ∈ sites ∨ site = last := by simpa using hs
    unfold Demand.add
    cases t.find? last.signature with
    | some key =>
      rcases hs with hs | rfl
      · exact (ih site hs).imp_left fun h => SiteKeys.mem_put (.inr h)
      · exact .inl (SiteKeys.mem_put (.inl rfl))
    | none =>
      cases (Demand.of t sites).pending.findIdx? (·.signature == last.signature) <;>
        rcases hs with hs | rfl
      · exact (ih site hs).imp_right fun h => by simp [h]
      · simp
      · exact (ih site hs).imp_right fun h => by simp [h]
      · simp

theorem resolve_keyed {generate : KeyGenerator γ} {state state' : γ} {r : Resolution}
    {stored : Table} (hres : resolve sites file generate t state = (.ok (r, stored), state')) :
    ∀ site ∈ sites, (r.keys.get? site.id).isSome := by
  intro site hs
  have hcovered := Demand.covers t sites site hs
  rw [SiteKeys.get?, Text.isSome_lookup_iff]
  obtain ⟨hnone, -, -, rfl⟩ | ⟨keys, st, -, -, -, -, -, rfl⟩ := resolve_ok hres
  · refine hcovered.resolve_right fun hwait => ?_
    -- a waiting site waits for a pending one
    obtain ⟨p, hp, -⟩ := List.mem_map.mp hwait
    obtain ⟨_, -, -, hsig⟩ := (Demand.of_fits t sites).waiting p hp
    simp [hnone] at hsig
  · exact Demand.mem_settle hcovered

/-- With distinct ids, a site has the key under which its signature is found. -/
theorem resolve_found {generate : KeyGenerator γ} {state state' : γ} {r : Resolution}
    {stored : Table} (hids : (sites.map (·.id)).Nodup) (h : t.Complete)
    (hres : resolve sites file generate t state = (.ok (r, stored), state')) :
    ∀ site ∈ sites, ∃ key, r.keys.get? site.id = some key ∧
      stored.find? site.signature = some key := by
  intro site hs
  obtain ⟨key, hkey⟩ := Option.isSome_iff_exists.mp (resolve_keyed hres site hs)
  obtain ⟨other, ho, hid, hfind⟩ := (resolve_stores h hres).found _ (Text.mem_of_lookup hkey)
  obtain rfl := List.inj_on_of_nodup_map hids ho hs hid
  exact ⟨key, hkey, hfind⟩

/-! ### The generator -/

theorem resolve_succeeds (sites : List Site) (file : FileInfo) (t : Table)
    {generate : KeyGenerator γ} (state : γ)
    (hgen : ∀ requests state, ∃ keys,
      (generate requests state).1 = .ok keys ∧ keys.length = requests.length) :
    ∃ r stored state', resolve sites file generate t state = (.ok (r, stored), state') := by
  obtain ⟨keys, hok, hlen⟩ := hgen ((Demand.of t sites).requests file) state
  have hlen : keys.length = (Demand.of t sites).pending.length := by
    simpa [Demand.requests] using hlen
  simp only [resolve]
  split
  · exact ⟨_, _, _, rfl⟩
  · cases hcall : generate ((Demand.of t sites).requests file) state with
    | mk result after =>
      rw [hcall] at hok
      simp [show result = .ok keys from hok, hlen]

/-- Recording changes nothing, and what is recorded is one call with the pending sites, or none. -/
theorem resolve_recording (generate : KeyGenerator γ) (state : γ) (calls : List (List KeyRequest)) :
    resolve sites file generate.recording t (state, calls) =
      ((resolve sites file generate t state).1, (resolve sites file generate t state).2,
        if (Demand.of t sites).pending = [] then calls
        else calls ++ [(Demand.of t sites).requests file]) := by
  by_cases hnone : (Demand.of t sites).pending = []
  · simp [resolve, hnone]
  · simp only [resolve, KeyGenerator.recording, List.isEmpty_iff, hnone, if_false]
    cases hcall : generate ((Demand.of t sites).requests file) state with
    | mk result after =>
      cases result with
      | error reason => rfl
      | ok keys =>
        dsimp only
        split <;> rfl

/-- Whatever the generator proposes: each site gets a key, the same one exactly if it has the same
signature, and finds its own message there. The generator is called once at most, for the first
site of each unknown signature. -/
theorem resolve_by_signature (sites : List Site) (hids : (sites.map (·.id)).Nodup)
    (file : FileInfo) (t : Table) (hsound : t.Sound) (hcomplete : t.Complete)
    (generate : KeyGenerator γ)
    (hgen : ∀ requests state, ∃ keys,
      (generate requests state).1 = .ok keys ∧ keys.length = requests.length) (state : γ) :
    ∃ r stored state', resolve sites file generate t state = (.ok (r, stored), state') ∧
      (∀ site ∈ sites, ∃ key, r.keys.get? site.id = some key ∧ stored.Holds site key) ∧
      (∀ a ∈ sites, ∀ b ∈ sites,
        r.keys.get? a.id = r.keys.get? b.id ↔ a.signature = b.signature) ∧
      resolve sites file generate.recording t (state, []) = (.ok (r, stored), state',
        if t.firstUnknown sites = [] then []
        else [(t.firstUnknown sites).map fun site => ⟨site.text, file, site.hint⟩]) ∧
      ∀ key entry, t.get? key = some entry → stored.get? key = some entry := by
  obtain ⟨r, stored, state', hres⟩ := resolve_succeeds sites file t state hgen
  have hstores := resolve_stores hcomplete hres
  have hfound := resolve_found hids hcomplete hres
  refine ⟨r, stored, state', hres, ?_, ?_, ?_, hstores.kept⟩
  · intro site hs
    obtain ⟨key, hkey, hfind⟩ := hfound site hs
    exact ⟨key, hkey, hstores.sound hsound _ _ hfind⟩
  · intro a ha b hb
    obtain ⟨ka, hka, hfa⟩ := hfound a ha
    obtain ⟨kb, hkb, hfb⟩ := hfound b hb
    rw [hka, hkb, Option.some.injEq]
    constructor
    · rintro rfl
      obtain ⟨entry, hget, hsig⟩ := hstores.sound hsound _ _ hfa
      obtain ⟨entry', hget', hsig'⟩ := hstores.sound hsound _ _ hfb
      obtain rfl : entry = entry' := Option.some.inj (hget.symm.trans hget')
      exact hsig.symm.trans hsig'
    · intro hsig
      rw [hsig] at hfa
      exact Option.some.inj (hfa.symm.trans hfb)
  · rw [resolve_recording, hres, Demand.requests, Demand.pending_of (List.Nodup.of_map _ hids),
      List.nil_append]

/-- The first key is taken, and the second one is what the first turns into. -/
theorem resolve_by_signature_taken :
    let site (lo : Nat) (text : String) (vars : List String) : Site :=
      ⟨⟨⟨lo, lo + 1⟩, .literal⟩, text, vars, ⟨"src/a.tsx", 1, lo⟩, none⟩
    let sites := [site 1 "保存{n}" ["n"], site 2 "确定" [], site 3 "取消" [], site 4 "保存{n}" ["n"]]
    let t := Table.ofEntries [("a.ok", ⟨"确定", "src/b.tsx", []⟩)]
    let generate : KeyGenerator Unit := fun requests state =>
      (.ok (requests.mapIdx fun i _ => if i = 0 then "a.ok" else "a.ok_2"), state)
    (sites.map (·.id)).Nodup ∧ t.Sound ∧ t.Complete ∧
      ∃ r stored, resolve sites ⟨"src/a.tsx", .component⟩ generate t () = (.ok (r, stored), ()) ∧
        sites.map (fun site => r.keys.get? site.id) =
          [some "a.ok_2", some "a.ok", some "a.ok_2_2", some "a.ok_2"] ∧
        ∀ site ∈ sites, ∃ key, r.keys.get? site.id = some key ∧ stored.Holds site key := by
  intro site sites t generate
  have hids : (sites.map (·.id)).Nodup := by decide
  have hsound : t.Sound := Table.sound_ofEntries (by decide)
  have hcomplete : t.Complete := (Table.indexed_ofEntries _).found
  obtain ⟨r, stored, _, hres, hheld, -⟩ := resolve_by_signature sites hids
    ⟨"src/a.tsx", .component⟩ t hsound hcomplete generate (fun _ _ => ⟨_, rfl, by simp⟩) ()
  refine ⟨hids, hsound, hcomplete, r, stored, hres, ?_, hheld⟩
  have hkeys : (resolve sites ⟨"src/a.tsx", .component⟩ generate t ()).1.toOption.map
      (fun p => sites.map fun site => p.1.keys.get? site.id) =
      some [some "a.ok_2", some "a.ok", some "a.ok_2_2", some "a.ok_2"] := by decide +kernel
  rw [hres] at hkeys
  exact Option.some.inj hkeys

end Phrasebook
