import Phrasebook.Proofs.Table

/-!
Storing an entry, whatever the table holds. Nothing that was there changes, the entry is found under
the key that is given back, and a key that is taken by another message gets the least number that
makes it free.
-/
namespace Phrasebook.Table

variable {t : Table} {key : String} {entry : Entry}

theorem size_put (hfree : t.contains key = false) (entry : Entry) :
    (t.put key entry).size = t.size + 1 := by
  simpa [size, keys] using (keys_put hfree entry).length_eq

/-- What storing under a free key comes to. -/
structure Adds (t : Table) (key : String) (entry : Entry) (after : Table) : Prop where
  size : after.size = t.size + 1
  held : after.get? key = some entry
  others : ∀ other, other ≠ key → after.get? other = t.get? other
  kept : ∀ other e, t.get? other = some e → after.get? other = some e

theorem put_adds (hfree : t.contains key = false) (entry : Entry) :
    t.Adds key entry (t.put key entry) :=
  ⟨size_put hfree entry, get?_put_self t key entry, fun _ hne => get?_put_of_ne hne,
    fun _ _ he => get?_put_of_get? hfree he⟩

/-- The key holds a message of the same signature. -/
def Shares (t : Table) (key : String) (entry : Entry) : Prop :=
  ∃ e, t.get? key = some e ∧ e.signature = entry.signature

/-- The key holds a message of another signature. -/
def Clashes (t : Table) (key : String) (entry : Entry) : Prop :=
  ∃ e, t.get? key = some e ∧ e.signature ≠ entry.signature

theorem Shares.not_clashes (h : t.Shares key entry) : ¬t.Clashes key entry := by
  rintro ⟨e, he, hne⟩
  obtain ⟨e', he', hsig⟩ := h
  rw [he] at he'
  cases he'
  exact hne hsig

theorem Clashes.not_shares (h : t.Clashes key entry) : ¬t.Shares key entry :=
  fun hshares => hshares.not_clashes h

theorem not_shares_of_free (h : t.contains key = false) : ¬t.Shares key entry := by
  rintro ⟨e, he, -⟩
  rw [contains_of_get? he] at h
  cases h

theorem not_clashes_of_free (h : t.contains key = false) : ¬t.Clashes key entry := by
  rintro ⟨e, he, -⟩
  rw [contains_of_get? he] at h
  cases h

/-- Whatever a table holds, storing an entry changes nothing that is there, and the key that is given
back holds the message. The table grows by one entry unless the key holds the message already. A
collision is reported exactly if the key holds another message, and the entry goes then under the key
with the least number from two on that makes it free. -/
theorem insert_least_suffix (t : Table) (key : String) (entry : Entry) :
    let assigned := (t.insert key entry).1.1
    let collision := (t.insert key entry).1.2
    let after := (t.insert key entry).2
    (∀ other e, t.get? other = some e → after.get? other = some e) ∧
      (∀ other, other ≠ assigned → after.get? other = t.get? other) ∧
      after.Shares assigned entry ∧
      (after.size = t.size ↔ t.Shares key entry) ∧
      (after.size = t.size + 1 ↔ ¬t.Shares key entry) ∧
      (collision.isSome ↔ t.Clashes key entry) ∧
      (collision = none → assigned = key) ∧
      ∀ c, collision = some c → c.key = key ∧ c.assignedKey = assigned ∧
        ∃ n, 2 ≤ n ∧ assigned = key ++ "_" ++ toString n ∧
          t.contains (key ++ "_" ++ toString n) = false ∧
          ∀ m, 2 ≤ m → m < n → t.contains (key ++ "_" ++ toString m) = true := by
  obtain ⟨hfree, heq⟩ | ⟨e, he, hsig, heq⟩ | ⟨e, he, hsig, heq⟩ := t.insert_cases key entry
  · have hadds := put_adds hfree entry
    rw [heq]
    refine ⟨hadds.kept, hadds.others, ⟨entry, hadds.held, rfl⟩, ?_, ?_, ?_, fun _ => rfl, by simp⟩
    · simp [hadds.size, not_shares_of_free hfree]
    · simp [hadds.size, not_shares_of_free hfree]
    · simp [not_clashes_of_free hfree]
  · have hshares : t.Shares key entry := ⟨e, he, hsig⟩
    rw [heq]
    refine ⟨fun _ _ h => h, fun _ _ => rfl, ⟨e, he, hsig⟩, ?_, ?_, ?_, fun _ => rfl, by simp⟩
    · exact iff_of_true rfl hshares
    · exact iff_of_false (by simp [size]) (not_not_intro hshares)
    · simp [hshares.not_clashes]
  · have hclashes : t.Clashes key entry := ⟨e, he, hsig⟩
    have hadds := put_adds (t.freeKey_not_contains key) entry
    rw [heq]
    refine ⟨hadds.kept, hadds.others, ⟨entry, hadds.held, rfl⟩, ?_, ?_, ?_, by simp, ?_⟩
    · simp [hadds.size, hclashes.not_shares]
    · simp [hadds.size, hclashes.not_shares]
    · simp [hclashes]
    · rintro c hc
      cases hc
      exact ⟨rfl, rfl, t.freeKey_least key⟩

/-- A key that looks numbered counts as taken, too. -/
example :
    let t := Table.ofEntries [("a.save", ⟨"保存", "", []⟩), ("a.save_2", ⟨"存储", "", []⟩)]
    (t.insert "a.save" ⟨"另存", "", []⟩).1.1 = "a.save_3" ∧
      (t.insert "a.save_2" ⟨"另存", "", []⟩).1.1 = "a.save_2_2" := by
  decide +kernel

end Phrasebook.Table
