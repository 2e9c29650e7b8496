import Mathlib.Data.List.Induction
import Phrasebook.Proofs.Table

/-!
Tables with a history: entries are inserted and keys are taken out again, in any order. The index
never leads to an entry of another signature. It misses an entry only after one was taken out while
another of the same signature stayed.
-/
namespace Phrasebook

namespace Table

/-- What may be done to a table. -/
inductive Change where
  | insert (key : String) (entry : Entry)
  | rollback (keys : List String)
deriving DecidableEq, Repr

def change (t : Table) : Change → Table
  | .insert key entry => (t.insert key entry).2
  | .rollback keys => t.rollback keys

def changeAll (t : Table) (changes : List Change) : Table := changes.foldl change t

/-- Taking out these keys removes an entry and leaves another of its signature. -/
def Splits (t : Table) (keys : List String) : Prop :=
  ∃ gone ∈ keys, ∃ left ∈ t.keys, left ∉ keys ∧
    (t.get? gone).map Entry.signature = (t.get? left).map Entry.signature

instance (t : Table) (keys : List String) : Decidable (t.Splits keys) :=
  inferInstanceAs (Decidable (∃ gone ∈ keys, ∃ left ∈ t.keys, _ ∧ _))

/-- Every pair of the index leads to an entry of its signature, also one that is never read. -/
def Linked (t : Table) : Prop :=
  ∀ p ∈ t.index, ∃ entry, t.get? p.2 = some entry ∧ entry.signature = p.1

variable {t : Table} {key : String} {entry : Entry} {sig : Signature}

theorem Linked.sound (h : t.Linked) : t.Sound := fun _ _ hfind => h _ (Text.mem_of_lookup hfind)

/-! ### Storing -/

theorem Linked.put (h : t.Linked) (hfree : t.contains key = false) (entry : Entry) :
    (t.put key entry).Linked := by
  intro p hp
  rcases mem_putIndex hp with hp | rfl
  · obtain ⟨e, he, hsig⟩ := h p hp
    exact ⟨e, get?_put_of_get? hfree he, hsig⟩
  · exact ⟨entry, get?_put_self t key entry, rfl⟩

/-- A signature may also be given the key of an entry that is there. -/
theorem Linked.share (h : t.Linked) (hget : t.get? key = some entry) :
    ({ t with index := putIndex t.index entry.signature key } : Table).Linked := by
  intro p hp
  rcases mem_putIndex hp with hp | rfl
  · exact h p hp
  · exact ⟨entry, hget, rfl⟩

theorem Complete.share (h : t.Complete) (sig : Signature) (key : String) :
    ({ t with index := putIndex t.index sig key } : Table).Complete := by
  intro other e he
  change ((putIndex t.index sig key).lookup e.signature).isSome
  rw [lookup_putIndex]
  split
  · rfl
  · exact h other e he

theorem insert_linked (h : t.Linked) (key : String) (entry : Entry) :
    (t.insert key entry).2.Linked := by
  obtain ⟨hfree, heq⟩ | ⟨existing, hget, hsig, heq⟩ | ⟨existing, hget, hsig, heq⟩ :=
    t.insert_cases key entry
  · rw [heq]
    exact h.put hfree entry
  · rw [heq, ← hsig]
    exact h.share hget
  · rw [heq]
    exact h.put (t.freeKey_not_contains key) entry

theorem insert_complete (h : t.Complete) (key : String) (entry : Entry) :
    (t.insert key entry).2.Complete := by
  obtain ⟨hfree, heq⟩ | ⟨existing, hget, hsig, heq⟩ | ⟨existing, hget, hsig, heq⟩ :=
    t.insert_cases key entry
  · rw [heq]
    exact h.put key entry
  · rw [heq]
    exact h.share entry.signature key
  · rw [heq]
    exact h.put (t.freeKey key) entry

/-! ### Taking out -/

theorem get?_rollback (t : Table) (keys : List String) (key : String) :
    (t.rollback keys).get? key = if key ∈ keys then none else t.get? key := by
  have hlookup := Text.lookup_filter_fst t.entries (fun k => !keys.contains k) key
  by_cases hk : key ∈ keys <;> simpa [rollback, get?, hk] using hlookup

theorem mem_index_rollback {keys : List String} {p : Signature × String} :
    p ∈ (t.rollback keys).index ↔ p ∈ t.index ∧ p.2 ∉ keys := by
  simp [rollback, List.mem_filter]

theorem rollback_linked (h : t.Linked) (keys : List String) : (t.rollback keys).Linked := by
  intro p hp
  obtain ⟨hp, hout⟩ := mem_index_rollback.mp hp
  obtain ⟨e, he, hsig⟩ := h p hp
  exact ⟨e, by rw [get?_rollback, if_neg hout, he], hsig⟩

/-- The key a signature is found under stays with any entry of that signature. -/
theorem rollback_complete (hlinked : t.Linked) (h : t.Complete) {keys : List String}
    (hkeys : ¬t.Splits keys) : (t.rollback keys).Complete := by
  intro key entry hget
  rw [get?_rollback] at hget
  split at hget
  · cases hget
  · rename_i hstays
    obtain ⟨found, hfound⟩ := Option.isSome_iff_exists.mp (h key entry hget)
    have hmem : (entry.signature, found) ∈ t.index := Text.mem_of_lookup hfound
    obtain ⟨e, he, hsig⟩ := hlinked _ hmem
    have hleft : key ∈ t.keys := contains_iff.mp (contains_of_get? hget)
    have hout : found ∉ keys := by
      intro hin
      exact hkeys ⟨found, hin, key, hleft, hstays, by simp [he, hget, hsig]⟩
    exact Text.isSome_lookup_iff.mpr (List.mem_map_of_mem (mem_index_rollback.mpr ⟨hmem, hout⟩))

/-! ### Histories -/

theorem Linked.change (h : t.Linked) (c : Change) : (t.change c).Linked := by
  cases c with
  | insert key entry => exact insert_linked h key entry
  | rollback keys => exact rollback_linked h keys

theorem Complete.change (hlinked : t.Linked) (h : t.Complete) {c : Change}
    (hkeys : ∀ keys, c = .rollback keys → ¬t.Splits keys) : (t.change c).Complete := by
  cases c with
  | insert key entry => exact insert_complete h key entry
  | rollback keys => exact rollback_complete hlinked h (hkeys keys rfl)

theorem changeAll_concat (t : Table) (changes : List Change) (c : Change) :
    t.changeAll (changes ++ [c]) = (t.changeAll changes).change c := by
  simp [changeAll]

theorem Linked.changeAll (h : t.Linked) (changes : List Change) : (t.changeAll changes).Linked := by
  induction changes generalizing t with
  | nil => exact h
  | cons c rest ih => exact ih (h.change c)

/-- Along a history without a split every entry can be found at any time. -/
theorem Complete.changeAll (hlinked : t.Linked) (h : t.Complete) (made : List Change)
    (hkeys : ∀ before keys, before ++ [.rollback keys] <+: made →
      ¬(t.changeAll before).Splits keys) : (t.changeAll made).Complete := by
  induction made using List.reverseRecOn with
  | nil => exact h
  | append_singleton made c ih =>
    rw [changeAll_concat]
    refine Complete.change (hlinked.changeAll made) (ih ?_) ?_
    · intro before keys hbefore
      exact hkeys before keys (hbefore.trans (List.prefix_append made [c]))
    · rintro keys rfl
      exact hkeys made keys (List.prefix_refl _)

theorem linked_ofEntries {entries : List (String × Entry)} (hkeys : (entries.map (·.1)).Nodup) :
    (ofEntries entries).Linked :=
  ofEntries_of_put hkeys (by simp [Linked]) fun _ _ entry hfree h => h.put hfree entry

end Table

/-- Whatever was inserted and taken out since a table was loaded, a signature is found only under
the key of an entry that has it. As long as no entry was taken out while another of its signature
stayed, the signature of every entry is found. -/
theorem index_follows_entries (entries : List (String × Entry))
    (hkeys : (entries.map (·.1)).Nodup) (changes : List Table.Change) :
    (∀ made, made <+: changes → ∀ sig key,
      ((Table.ofEntries entries).changeAll made).find? sig = some key →
      ∃ entry, ((Table.ofEntries entries).changeAll made).get? key = some entry ∧
        entry.signature = sig) ∧
    ((∀ before keys, before ++ [.rollback keys] <+: changes →
        ¬((Table.ofEntries entries).changeAll before).Splits keys) →
      ∀ made, made <+: changes → ∀ key entry,
        ((Table.ofEntries entries).changeAll made).get? key = some entry →
        (((Table.ofEntries entries).changeAll made).find? entry.signature).isSome) := by
  have hlinked := Table.linked_ofEntries hkeys
  refine ⟨?_, ?_⟩
  · intro made _
    exact (hlinked.changeAll made).sound
  · intro hwhole made hmade
    refine Table.Complete.changeAll hlinked (Table.indexed_ofEntries entries).found made ?_
    exact fun before keys hbefore => hwhole before keys (hbefore.trans hmade)

/-- One text under two keys: a collision with the first, both taken out together, and the text
stored anew under the second. -/
theorem index_follows_entries_rejoined :
    let save : Entry := ⟨"保存", "src/a.tsx", []⟩
    let entries := [("a.save", save), ("b.save", save)]
    let changes : List Table.Change :=
      [.insert "a.save" ⟨"取消", "src/b.tsx", []⟩, .rollback ["a.save", "b.save"],
        .insert "b.save" save]
    let t := (Table.ofEntries entries).changeAll changes
    (entries.map (·.1)).Nodup ∧ t.keys = ["a.save_2", "b.save"] ∧
      t.find? save.signature = some "b.save" ∧
      ∀ key entry, t.get? key = some entry → (t.find? entry.signature).isSome := by
  intro save entries changes t
  have hkeys : (entries.map (·.1)).Nodup := by decide
  have hsplit : ¬((Table.ofEntries entries).changeAll (changes.take 1)).Splits
      ["a.save", "b.save"] := by decide +kernel
  refine ⟨hkeys, by decide +kernel, by decide +kernel, ?_⟩
  refine (index_follows_entries entries hkeys changes).2 ?_ changes (List.prefix_refl changes)
  intro before keys hbefore
  -- The only removal is the second change.
  obtain _ | ⟨first, _ | ⟨second, rest⟩⟩ := before
  · simp [changes] at hbefore
  · obtain ⟨rfl, rfl⟩ : first = _ ∧ keys = _ := by simpa [changes] using hbefore
    exact hsplit
  · obtain _ | ⟨third, rest⟩ := rest <;> simp [changes] at hbefore

/-- Without the entry it leads to, the index has nothing left for the other one. -/
example :
    let save : Entry := ⟨"保存", "src/a.tsx", []⟩
    let t := (Table.ofEntries [("a.save", save), ("b.save", save)]).change (.rollback ["a.save"])
    t.get? "b.save" = some save ∧ t.find? save.signature = none := by
  decide +kernel

end Phrasebook
