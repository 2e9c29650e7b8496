import Phrasebook.Text.Sorted

/-!
Lists of pairs, read by the first part of a pair.
-/
namespace Phrasebook.Text

variable {α β : Type}

section

variable [BEq α] [LawfulBEq α] {pairs : List (α × β)} {key : α}

theorem isSome_lookup_iff : (pairs.lookup key).isSome ↔ key ∈ pairs.map (·.1) := by
  rw [List.lookup_isSome_iff, List.mem_map]
  simp only [beq_iff_eq]
  exact exists_congr fun p => and_congr_right fun _ => eq_comm

theorem mem_of_lookup {value : β} (h : pairs.lookup key = some value) : (key, value) ∈ pairs := by
  obtain ⟨before, after, hsplit, -⟩ := List.lookup_eq_some_iff.mp h
  rw [hsplit]
  exact List.mem_append_right _ (List.mem_cons_self ..)

/-- Pairs chosen by their first part are found as before. -/
theorem lookup_filter_fst (pairs : List (α × β)) (keep : α → Bool) (key : α) :
    (pairs.filter fun p => keep p.1).lookup key = if keep key then pairs.lookup key else none := by
  induction pairs with
  | nil => simp
  | cons p rest ih =>
    obtain ⟨k, v⟩ := p
    by_cases heq : key = k
    · subst heq
      by_cases hkeep : keep key <;> simp [hkeep, ih]
    · have hbeq : (key == k) = false := beq_false_of_ne heq
      by_cases hkeep : keep k <;> simp [List.lookup_cons, hkeep, hbeq, ih]

end

/-! ### Pairs in order of their keys -/

theorem lookup_putKey_self (key : String) (value : α) (pairs : List (String × α)) :
    (putKey key value pairs).lookup key = some value := by
  induction pairs with
  | nil => simp [putKey]
  | cons p rest ih =>
    obtain ⟨k, v⟩ := p
    unfold putKey
    by_cases hlt : key < k
    · simp [hlt]
    · by_cases heq : key = k
      · subst heq
        simp
      · have hbeq : (key == k) = false := beq_false_of_ne heq
        simp [hlt, hbeq, List.lookup_cons, ih]

theorem lookup_putKey_of_ne {key other : String} (h : other ≠ key) (value : α)
    (pairs : List (String × α)) : (putKey key value pairs).lookup other = pairs.lookup other := by
  have hbeq : (other == key) = false := beq_false_of_ne h
  induction pairs with
  | nil => simp [putKey, List.lookup_cons, hbeq]
  | cons p rest ih =>
    obtain ⟨k, v⟩ := p
    unfold putKey
    by_cases hlt : key < k
    · simp [hlt, List.lookup_cons, hbeq]
    · by_cases heq : key = k
      · subst heq
        simp [List.lookup_cons, hbeq]
      · have hk : (key == k) = false := beq_false_of_ne heq
        simp [hlt, hk, List.lookup_cons, ih]

theorem putKey_perm {key : String} {pairs : List (String × α)} (hnew : key ∉ pairs.map (·.1))
    (value : α) : (putKey key value pairs).Perm ((key, value) :: pairs) := by
  induction pairs with
  | nil => exact List.Perm.refl _
  | cons p rest ih =>
    obtain ⟨k, v⟩ := p
    simp only [List.map_cons, List.mem_cons, not_or] at hnew
    have hk : (key == k) = false := beq_false_of_ne hnew.1
    unfold putKey
    by_cases hlt : key < k
    · simp only [hlt, if_true]
      exact List.Perm.refl _
    · simp only [hlt, hk, Bool.false_eq_true, if_false]
      exact ((ih hnew.2).cons (k, v)).trans (List.Perm.swap ..)

/-- A pair under a new key can be filtered out again. -/
theorem filter_putKey {key : String} {pairs : List (String × α)} {value : α}
    {p : String × α → Bool} (hnew : key ∉ pairs.map (·.1)) (hp : p (key, value) = false) :
    (putKey key value pairs).filter p = pairs.filter p := by
  induction pairs with
  | nil => simp [putKey, hp]
  | cons q rest ih =>
    obtain ⟨k, v⟩ := q
    simp only [List.map_cons, List.mem_cons, not_or] at hnew
    have hk : (key == k) = false := beq_false_of_ne hnew.1
    unfold putKey
    by_cases hlt : key < k
    · simp only [hlt, if_true, List.filter_cons, hp, Bool.false_eq_true, if_false]
    · simp only [hlt, hk, Bool.false_eq_true, if_false, List.filter_cons, ih hnew.2]

end Phrasebook.Text
