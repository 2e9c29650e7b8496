import Mathlib.Data.List.Sort
import Phrasebook.Edit
import Phrasebook.Script.Node

/-!
Ranges that lie apart, and edits of such ranges. When the edits of a text are apart from each other
and stay inside it, splicing puts every one of them in its place.
-/
namespace Phrasebook

open Script

/-! ### Ranges -/

namespace Script.Span

/-- The first range lies in the second. -/
def Inside (a b : Span) : Prop := b.lo ≤ a.lo ∧ a.hi ≤ b.hi

/-- One of the two ranges ends before the other starts. -/
def Apart (a b : Span) : Prop := a.hi ≤ b.lo ∨ b.hi ≤ a.lo

instance : DecidableRel Inside := fun _ _ => inferInstanceAs (Decidable (_ ∧ _))

instance : DecidableRel Apart := fun _ _ => inferInstanceAs (Decidable (_ ∨ _))

variable {a b c : Span} {places ranges : List Span}

theorem Inside.refl (a : Span) : a.Inside a := ⟨Nat.le_refl _, Nat.le_refl _⟩

theorem Inside.trans (h : a.Inside b) (h' : b.Inside c) : a.Inside c :=
  ⟨Nat.le_trans h'.1 h.1, Nat.le_trans h.2 h'.2⟩

theorem Inside.antisymm (h : a.Inside b) (h' : b.Inside a) : a = b := by
  obtain ⟨hlo, hhi⟩ := h
  obtain ⟨hlo', hhi'⟩ := h'
  cases a
  cases b
  rw [Span.mk.injEq]
  exact ⟨Nat.le_antisymm hlo' hlo, Nat.le_antisymm hhi hhi'⟩

theorem Apart.symm (h : a.Apart b) : b.Apart a := Or.symm h

theorem Apart.inside {a' b' : Span} (h : a.Apart b) (ha : a'.Inside a) (hb : b'.Inside b) :
    a'.Apart b' := by
  obtain ⟨hlo, hhi⟩ := ha
  obtain ⟨hlo', hhi'⟩ := hb
  rcases h with h | h
  · exact .inl (by omega)
  · exact .inr (by omega)

/-- Ranges that are not empty and lie apart from each other, each of them in one of `places`. -/
structure LaidIn (places ranges : List Span) : Prop where
  inside : ∀ a ∈ ranges, a.lo < a.hi ∧ ∃ p ∈ places, a.Inside p
  apart : ranges.Pairwise Apart

instance (places ranges : List Span) : Decidable (LaidIn places ranges) :=
  decidable_of_iff ((∀ a ∈ ranges, a.lo < a.hi ∧ ∃ p ∈ places, a.Inside p) ∧ ranges.Pairwise Apart)
    ⟨fun h => ⟨h.1, h.2⟩, fun h => ⟨h.inside, h.apart⟩⟩

theorem LaidIn.nil (places : List Span) : LaidIn places [] := ⟨by simp, .nil⟩

theorem LaidIn.single {p : Span} (hne : a.lo < a.hi) (hin : a.Inside p) : LaidIn [p] [a] :=
  ⟨by simp [hne, hin], by simp⟩

theorem LaidIn.append {places' ranges' : List Span} (h : LaidIn places ranges)
    (h' : LaidIn places' ranges') (hcross : ∀ p ∈ places, ∀ q ∈ places', p.Apart q) :
    LaidIn (places ++ places') (ranges ++ ranges') := by
  refine ⟨?_, List.pairwise_append.mpr ⟨h.apart, h'.apart, ?_⟩⟩
  · intro a ha
    rcases List.mem_append.mp ha with ha | ha
    · obtain ⟨hne, p, hp, hin⟩ := h.inside a ha
      exact ⟨hne, p, List.mem_append_left _ hp, hin⟩
    · obtain ⟨hne, p, hp, hin⟩ := h'.inside a ha
      exact ⟨hne, p, List.mem_append_right _ hp, hin⟩
  · intro a ha b hb
    obtain ⟨-, p, hp, hin⟩ := h.inside a ha
    obtain ⟨-, q, hq, hin'⟩ := h'.inside b hb
    exact (hcross p hp q hq).inside hin hin'

theorem LaidIn.self (h : LaidIn places ranges) : LaidIn ranges ranges :=
  ⟨fun a ha => ⟨(h.inside a ha).1, a, ha, .refl a⟩, h.apart⟩

/-- Places may be replaced by wider ones. -/
theorem LaidIn.widen {places' : List Span} (h : LaidIn places ranges)
    (hwider : ∀ p ∈ places, ∃ q ∈ places', p.Inside q) : LaidIn places' ranges := by
  refine ⟨?_, h.apart⟩
  intro a ha
  obtain ⟨hne, p, hp, hin⟩ := h.inside a ha
  obtain ⟨q, hq, hin'⟩ := hwider p hp
  exact ⟨hne, q, hq, hin.trans hin'⟩

theorem LaidIn.trans {narrower : List Span} (h : LaidIn places ranges)
    (h' : LaidIn ranges narrower) : LaidIn places narrower :=
  h'.widen fun a ha => (h.inside a ha).2

theorem LaidIn.sublist {fewer : List Span} (h : LaidIn places ranges)
    (hsub : fewer.Sublist ranges) :
    LaidIn places fewer :=
  ⟨fun a ha => h.inside a (hsub.subset ha), h.apart.sublist hsub⟩

/-- What holds of pieces in places that are apart holds of all of them together. -/
theorem flatMap_of_append {α β : Type} {P : List Span → List β → Prop} (hnil : P [] [])
    (happend : ∀ {ps qs xs ys}, P ps xs → P qs ys → (∀ p ∈ ps, ∀ q ∈ qs, p.Apart q) →
      P (ps ++ qs) (xs ++ ys))
    {as : List α} {f : α → List Span} {g : α → List β} (h : ∀ a ∈ as, P (f a) (g a))
    (hapart : (as.flatMap f).Pairwise Apart) : P (as.flatMap f) (as.flatMap g) := by
  induction as with
  | nil => exact hnil
  | cons a as ih =>
    rw [List.flatMap_cons, List.pairwise_append] at hapart
    obtain ⟨-, hrest, hcross⟩ := hapart
    have hfirst := h a (List.mem_cons_self ..)
    exact happend hfirst (ih (fun b hb => h b (List.mem_cons_of_mem _ hb)) hrest) hcross

theorem LaidIn.flatMap {α : Type} {as : List α} {f g : α → List Span}
    (h : ∀ a ∈ as, LaidIn (f a) (g a)) (hapart : (as.flatMap f).Pairwise Apart) :
    LaidIn (as.flatMap f) (as.flatMap g) :=
  flatMap_of_append (.nil _) .append h hapart

end Script.Span

/-! ### Sorting -/

theorem Text.insertSorted_eq_orderedInsert {α : Type} (le : α → α → Bool) (a : α) (bs : List α) :
    insertSorted le a bs = bs.orderedInsert (le · ·) a := by
  induction bs with
  | nil => rfl
  | cons b bs ih => simp only [insertSorted, List.orderedInsert_cons, ih]

theorem Text.sortBy_eq_insertionSort {α : Type} (le : α → α → Bool) (as : List α) :
    sortBy le as = as.insertionSort (le · ·) := by
  induction as with
  | nil => rfl
  | cons a as ih =>
    rw [List.insertionSort_cons, ← ih, ← insertSorted_eq_orderedInsert]
    rfl

namespace Edit

/-- The range that an edit replaces. -/
def span (e : Edit) : Span := ⟨e.lo, e.hi⟩

theorem before_iff {a b : Edit} : a.before b = true ↔ a.lo < b.lo ∨ a.lo = b.lo ∧ a.hi ≤ b.hi := by
  simp [before]

theorem sort_pairwise (edits : List Edit) : (sort edits).Pairwise (before · ·) := by
  have : Std.Total fun a b : Edit => before a b = true := ⟨by
    intro a b
    simp only [before_iff]
    omega⟩
  have : IsTrans Edit fun a b => before a b = true := ⟨by
    intro a b c
    simp only [before_iff]
    omega⟩
  rw [sort, Text.sortBy_eq_insertionSort]
  exact List.pairwise_insertionSort _ edits

theorem mem_sort {e : Edit} {edits : List Edit} : e ∈ sort edits ↔ e ∈ edits :=
  (Text.sortBy_perm before edits).mem_iff

/-- Edits that lie apart and inside a range. Insertions are edits of an empty range. -/
structure FitIn (range : Span) (edits : List Edit) : Prop where
  inside : ∀ e ∈ edits, e.lo ≤ e.hi ∧ e.span.Inside range
  apart : (edits.map span).Pairwise Span.Apart

/-- When sorted, each of them ends before the next one starts. -/
theorem FitIn.sorted {range : Span} {edits : List Edit} (h : FitIn range edits) :
    (sort edits).Pairwise fun a b => a.hi ≤ b.lo := by
  have happart : (sort edits).Pairwise fun a b => a.span.Apart b.span :=
    (Text.sortBy_perm before edits).symm.pairwise (List.pairwise_map.mp h.apart) fun h => h.symm
  refine List.Pairwise.imp_of_mem ?_ ((sort_pairwise edits).and happart)
  rintro a b ha hb ⟨hbefore, hap⟩
  have hle := (h.inside a (mem_sort.mp ha)).1
  have hle' := (h.inside b (mem_sort.mp hb)).1
  rw [before_iff] at hbefore
  simp only [span, Span.Apart] at hap
  omega

end Edit

/-! ### Splicing -/

/-- The source from `cursor` to `hi` with every one of the edits in its place. -/
def placeAll (source : List Char) (hi : Nat) : Nat → List Edit → List Char
  | cursor, [] => Text.slice source cursor hi
  | cursor, e :: es =>
    Text.slice source cursor e.lo ++ e.text.toList ++ placeAll source hi e.hi es

theorem spliceFrom_eq_placeAll (source : List Char) (hi : Nat) {cursor : Nat} {edits : List Edit}
    (hinside : ∀ e ∈ edits, cursor ≤ e.lo ∧ e.lo ≤ e.hi ∧ e.hi ≤ hi)
    (hsorted : edits.Pairwise fun a b => a.hi ≤ b.lo) :
    spliceFrom source hi cursor edits = placeAll source hi cursor edits := by
  induction edits generalizing cursor with
  | nil => rfl
  | cons e es ih =>
    obtain ⟨hlo, hle, hhi⟩ := hinside e (List.mem_cons_self ..)
    obtain ⟨hfirst, hrest⟩ := List.pairwise_cons.mp hsorted
    have hkeep : (e.lo < cursor || hi < e.hi || e.hi < e.lo) = false := by
      simp only [Bool.or_eq_false_iff, decide_eq_false_iff_not]
      omega
    have hafter : ∀ x ∈ es, e.hi ≤ x.lo ∧ x.lo ≤ x.hi ∧ x.hi ≤ hi := fun x hx =>
      ⟨hfirst x hx, (hinside x (List.mem_cons_of_mem _ hx)).2⟩
    simp only [spliceFrom, placeAll, hkeep, Bool.false_eq_true, if_false, ih hafter hrest]

/-- Edits that lie apart inside the range are all put in place. -/
theorem splice_eq_placeAll (source : List Char) {range : Span} {edits : List Edit}
    (h : Edit.FitIn range edits) : splice source range.lo range.hi edits =
      String.ofList (placeAll source range.hi range.lo (Edit.sort edits)) := by
  unfold splice
  rw [spliceFrom_eq_placeAll source range.hi ?_ h.sorted]
  intro e he
  obtain ⟨hle, hin⟩ := h.inside e (Edit.mem_sort.mp he)
  exact ⟨hin.1, hle, hin.2⟩

end Phrasebook
