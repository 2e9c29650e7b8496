import Mathlib.Data.List.Nodup
import Mathlib.Data.List.Perm.Subperm
import Phrasebook.Proofs.Pairs
import Phrasebook.Table

/-!
Laws of the table. Storing under a free key touches nothing else, a free key can always be found,
and taking back what was just stored restores entries and index alike.
-/
namespace Phrasebook

/-- Different numbers are written differently. -/
theorem Text.toString_injective : Function.Injective (toString : Nat → String) := by
  intro m n h
  have hdigits := congrArg String.toList h
  rw [Nat.toString_eq_repr, Nat.toString_eq_repr, Nat.toList_repr, Nat.toList_repr] at hdigits
  have hvalue := congrArg (Nat.ofDigitChars 10 · 0) hdigits
  simpa only [Nat.ofDigitChars_toDigits (b := 10) (by decide) (by decide)] using hvalue

namespace Table

variable {t : Table} {key : String} {entry : Entry} {sig : Signature}

/-! ### Reading -/

theorem contains_iff : t.contains key = true ↔ key ∈ t.keys := Text.isSome_lookup_iff

theorem contains_of_get? (h : t.get? key = some entry) : t.contains key = true := by
  simp [contains, h]

theorem get?_eq_none_iff : t.get? key = none ↔ t.contains key = false := by
  simp [contains]

/-! ### Storing under a key -/

theorem get?_put_self (t : Table) (key : String) (entry : Entry) :
    (t.put key entry).get? key = some entry :=
  Text.lookup_putKey_self key entry t.entries

theorem get?_put_of_ne {other : String} (h : other ≠ key) :
    (t.put key entry).get? other = t.get? other :=
  Text.lookup_putKey_of_ne h entry t.entries

theorem lookup_putIndex (index : List (Signature × String)) (sig other : Signature)
    (key : String) : (putIndex index sig key).lookup other =
      if other = sig ∧ index.lookup sig = none then some key else index.lookup other := by
  unfold putIndex
  cases hs : index.lookup sig with
  | some k => simp
  | none =>
    by_cases ho : other = sig
    · subst ho
      simp [List.lookup_append, hs]
    · have hbeq : (other == sig) = false := beq_false_of_ne ho
      simp [List.lookup_append, List.lookup_cons, hbeq, ho]

/-- A signature keeps the key it had; a new one is found under the key of its entry. -/
theorem find?_put (t : Table) (key : String) (entry : Entry) (sig : Signature) :
    (t.put key entry).find? sig =
      if sig = entry.signature ∧ t.find? entry.signature = none then some key
      else t.find? sig :=
  lookup_putIndex t.index entry.signature sig key

theorem find?_put_isSome (h : (t.find? sig).isSome) : ((t.put key entry).find? sig).isSome := by
  rw [find?_put]
  split
  · rfl
  · exact h

theorem find?_put_self (t : Table) (key : String) (entry : Entry) :
    ((t.put key entry).find? entry.signature).isSome := by
  rw [find?_put]
  cases h : t.find? entry.signature <;> simp

theorem contains_put {other : String} :
    (t.put key entry).contains other = true ↔ other = key ∨ t.contains other = true := by
  by_cases h : other = key
  · subst h
    simp [contains, get?_put_self]
  · simp [contains, get?_put_of_ne h, h]

theorem keys_put (hfree : t.contains key = false) (entry : Entry) :
    (t.put key entry).keys.Perm (key :: t.keys) := by
  have hnew : key ∉ t.keys := fun hm => by simp [contains_iff.mpr hm] at hfree
  exact (Text.putKey_perm hnew entry).map (·.1)

/-! ### Free keys -/

theorem numbered_injective (key : String) :
    Function.Injective fun i : Nat => key ++ "_" ++ toString (i + 2) := by
  intro i j h
  have hdigits : toString (i + 2) = toString (j + 2) := by simpa using h
  have := Text.toString_injective hdigits
  omega

/-- There are more numbers to try than keys, so one of them makes the key free. -/
theorem exists_free (t : Table) (key : String) :
    ∃ i ≤ t.size, t.contains (key ++ "_" ++ toString (i + 2)) = false := by
  by_contra hall
  push Not at hall
  have hsub : (List.range (t.size + 1)).map (fun i => key ++ "_" ++ toString (i + 2)) ⊆ t.keys := by
    intro k hk
    obtain ⟨i, hi, rfl⟩ := List.mem_map.mp hk
    exact contains_iff.mp (by simpa using hall i (Nat.lt_succ_iff.mp (List.mem_range.mp hi)))
  have hle := ((List.nodup_range.map (numbered_injective key)).subperm hsub).length_le
  simp only [List.length_map, List.length_range, keys, size] at hle
  omega

/-- The number after a key is the least that makes it free. -/
theorem freeKey_least (t : Table) (key : String) :
    ∃ n, 2 ≤ n ∧ t.freeKey key = key ++ "_" ++ toString n ∧
      t.contains (key ++ "_" ++ toString n) = false ∧
      ∀ m, 2 ≤ m → m < n → t.contains (key ++ "_" ++ toString m) = true := by
  obtain ⟨i, hi, hfree⟩ := t.exists_free key
  unfold freeKey
  rw [List.find?_map]
  cases hfind : (List.range (t.size + 1)).find? ((!t.contains ·) ∘ fun i =>
      key ++ "_" ++ toString (i + 2)) with
  | none =>
    have hnone := List.find?_eq_none.mp hfind i (List.mem_range.mpr (by omega))
    exact absurd (by simp only [Function.comp_apply, hfree, Bool.not_false]) hnone
  | some j =>
    obtain ⟨hj, -, hbefore⟩ := List.find?_range_eq_some.mp hfind
    refine ⟨j + 2, by omega, rfl, by simpa using hj, ?_⟩
    intro m hm hlt
    obtain ⟨k, rfl⟩ : ∃ k, m = k + 2 := ⟨m - 2, by omega⟩
    simpa using hbefore k (by omega)

theorem freeKey_not_contains (t : Table) (key : String) : t.contains (t.freeKey key) = false := by
  obtain ⟨n, -, heq, hfree, -⟩ := t.freeKey_least key
  rwa [heq]

/-- What storing an entry comes to: a new key, a shared one, or one with a number. -/
theorem insert_cases (t : Table) (key : String) (entry : Entry) :
    (t.contains key = false ∧ t.insert key entry = ((key, none), t.put key entry)) ∨
    (∃ existing, t.get? key = some existing ∧ existing.signature = entry.signature ∧
      t.insert key entry =
        ((key, none), { t with index := putIndex t.index entry.signature key })) ∨
    (∃ existing, t.get? key = some existing ∧ existing.signature ≠ entry.signature ∧
      t.insert key entry =
        ((t.freeKey key,
          some ⟨key, existing.text, entry.text, t.freeKey key, entry.sourceFile⟩),
          t.put (t.freeKey key) entry)) := by
  unfold insert
  cases hget : t.get? key with
  | none => exact Or.inl ⟨get?_eq_none_iff.mp hget, rfl⟩
  | some existing =>
    by_cases hsig : existing.signature = entry.signature
    · exact Or.inr (Or.inl ⟨existing, rfl, hsig, by simp [hsig]⟩)
    · exact Or.inr (Or.inr ⟨existing, rfl, hsig, by simp [hsig]⟩)

/-! ### Entries and index together -/

/-- Every entry can be found by its signature. -/
def Complete (t : Table) : Prop :=
  ∀ key entry, t.get? key = some entry → (t.find? entry.signature).isSome

/-- What is found under a signature has that signature. -/
def Sound (t : Table) : Prop :=
  ∀ sig key, t.find? sig = some key → ∃ entry, t.get? key = some entry ∧ entry.signature = sig

/-- Every entry can be found, and the index leads to no missing key. -/
structure Indexed (t : Table) : Prop where
  found : t.Complete
  held : ∀ p ∈ t.index, t.contains p.2 = true

theorem Complete.put (h : t.Complete) (key : String) (entry : Entry) :
    (t.put key entry).Complete := by
  intro other e he
  by_cases hk : other = key
  · subst hk
    rw [get?_put_self, Option.some.injEq] at he
    exact he ▸ find?_put_self t other entry
  · rw [get?_put_of_ne hk] at he
    exact find?_put_isSome (h other e he)

theorem mem_putIndex {index : List (Signature × String)} {p : Signature × String}
    (h : p ∈ putIndex index sig key) : p ∈ index ∨ p = (sig, key) := by
  unfold putIndex at h
  split at h
  · exact Or.inl h
  · exact (List.mem_append.mp h).imp_right List.mem_singleton.mp

theorem Indexed.put (h : t.Indexed) (key : String) (entry : Entry) : (t.put key entry).Indexed := by
  refine ⟨h.found.put key entry, ?_⟩
  intro p hp
  rw [contains_put]
  rcases mem_putIndex hp with hp | rfl
  · exact Or.inr (h.held p hp)
  · exact Or.inl rfl

/-- Under a free key an entry is stored beside all others. -/
theorem get?_put_of_get? {other : String} {e : Entry} (hfree : t.contains key = false)
    (he : t.get? other = some e) : (t.put key entry).get? other = some e := by
  have hne : other ≠ key := by
    rintro rfl
    rw [contains_of_get? he] at hfree
    cases hfree
  rw [get?_put_of_ne hne, he]

theorem Sound.put (h : t.Sound) (hfree : t.contains key = false) (entry : Entry) :
    (t.put key entry).Sound := by
  intro sig k hk
  rw [find?_put] at hk
  split at hk
  · rename_i hnew
    cases hk
    exact ⟨entry, get?_put_self t key entry, hnew.1.symm⟩
  · obtain ⟨e, he, hsig⟩ := h sig k hk
    exact ⟨e, get?_put_of_get? hfree he, hsig⟩

theorem indexed_ofEntries (entries : List (String × Entry)) : (ofEntries entries).Indexed := by
  have hfold : ∀ t : Table, t.Indexed →
      (entries.foldl (fun t p => t.put p.1 p.2) t).Indexed := by
    induction entries with
    | nil => exact fun t h => h
    | cons p rest ih => exact fun t h => ih _ (h.put p.1 p.2)
  exact hfold {} ⟨by simp [Complete, get?], by simp⟩

/-- Entries with keys of their own are stored one after another, each under a key that is free. -/
theorem ofEntries_of_put {P : Table → Prop} {entries : List (String × Entry)}
    (hkeys : (entries.map (·.1)).Nodup) (hempty : P {})
    (hput : ∀ t key entry, t.contains key = false → P t → P (t.put key entry)) :
    P (ofEntries entries) := by
  have hfold : ∀ t : Table, P t → (∀ p ∈ entries, t.contains p.1 = false) →
      P (entries.foldl (fun t p => t.put p.1 p.2) t) := by
    induction entries with
    | nil => exact fun t h _ => h
    | cons p rest ih =>
      intro t h hfree
      rw [List.map_cons, List.nodup_cons] at hkeys
      refine ih hkeys.2 _ (hput t p.1 p.2 (hfree p (List.mem_cons_self ..)) h) ?_
      intro q hq
      have hne : q.1 ≠ p.1 := fun he => hkeys.1 (he ▸ List.mem_map_of_mem hq)
      have hold := hfree q (List.mem_cons_of_mem _ hq)
      simp only [← get?_eq_none_iff, get?_put_of_ne hne] at hold ⊢
      exact hold
  exact hfold {} hempty (by simp [contains, get?])

theorem sound_ofEntries {entries : List (String × Entry)} (hkeys : (entries.map (·.1)).Nodup) :
    (ofEntries entries).Sound :=
  ofEntries_of_put hkeys (by simp [Sound, find?]) fun _ _ entry hfree h => h.put hfree entry

/-! ### Taking back -/

theorem rollback_append (t : Table) (xs ys : List String) :
    t.rollback (xs ++ ys) = (t.rollback ys).rollback xs := by
  simp [rollback, List.filter_filter]

theorem rollback_nil (t : Table) : t.rollback [] = t := by
  simp [rollback]

/-- An entry that is new in key and signature leaves no trace. -/
theorem rollback_put (h : t.Indexed) (hfree : t.contains key = false)
    (hnew : t.find? entry.signature = none) : (t.put key entry).rollback [key] = t := by
  have hkeys : key ∉ t.keys := fun hm => by simp [contains_iff.mpr hm] at hfree
  have hentries : (Text.putKey key entry t.entries).filter (fun p => !([key].contains p.1)) =
      t.entries := by
    rw [Text.filter_putKey hkeys (by simp), List.filter_eq_self]
    intro p hp
    have hne : p.1 ≠ key := fun he => hkeys (he ▸ List.mem_map_of_mem hp)
    simpa using hne
  have hindex : (putIndex t.index entry.signature key).filter (fun p => !([key].contains p.2)) =
      t.index := by
    rw [find?] at hnew
    simp only [putIndex, hnew, Option.isSome_none, Bool.false_eq_true, if_false,
      List.filter_append]
    have hlast : [(entry.signature, key)].filter (fun p => !([key].contains p.2)) = [] := by simp
    rw [hlast, List.append_nil, List.filter_eq_self]
    intro p hp
    have hne : p.2 ≠ key := by
      intro he
      have := h.held p hp
      rw [he, hfree] at this
      cases this
    simpa using hne
  simp only [rollback, Table.put, hentries, hindex]

end Table

end Phrasebook
