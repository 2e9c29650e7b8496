import Phrasebook.Proofs.Splicing

/-!
Splicing as a rewrite of the text. Where offsets fall between characters, pieces of the source next
to each other make one piece. So a range may be spliced in two halves, and edits inside a part of it
may be spliced there first. Edits that lie apart all show in the result, whatever their order.
-/
namespace Phrasebook

open Script

/-! ### Offsets between characters -/

namespace Text

/-- The byte offset falls between two characters of the text, or at one of its ends. -/
def IsBoundary (text : List Char) (n : Nat) : Prop :=
  ∃ before after, text = before ++ after ∧ byteLength before = n

theorem isBoundary_iff {text : List Char} {n : Nat} :
    IsBoundary text n ↔ (splitAt? n text).isSome = true := by
  constructor
  · rintro ⟨before, after, rfl, rfl⟩
    rw [splitAt?_byteLength]
    rfl
  · intro h
    obtain ⟨⟨before, after⟩, hsplit⟩ := Option.isSome_iff_exists.mp h
    obtain ⟨htext, hlength⟩ := splitAt?_eq_some hsplit
    exact ⟨before, after, htext, hlength.symm⟩

instance (text : List Char) (n : Nat) : Decidable (IsBoundary text n) :=
  decidable_of_iff _ isBoundary_iff.symm

theorem eq_nil_of_byteLength {text : List Char} (h : byteLength text = 0) : text = [] := by
  cases text with
  | nil => rfl
  | cons c cs =>
    have hpos := c.utf8Size_pos
    simp only [byteLength] at h
    omega

/-- Of two beginnings of a text, the one with fewer bytes is a beginning of the other. -/
theorem exists_between {start longer rest after : List Char} (h : start ++ rest = longer ++ after)
    (hle : byteLength start ≤ byteLength longer) :
    ∃ piece, longer = start ++ piece ∧ rest = piece ++ after := by
  rcases List.append_eq_append_iff.mp h with ⟨piece, hlonger, hrest⟩ | ⟨piece, hstart, hafter⟩
  · exact ⟨piece, hlonger, hrest⟩
  · rw [hstart, byteLength_append] at hle
    obtain rfl : piece = [] := eq_nil_of_byteLength (by omega)
    exact ⟨[], by simpa using hstart.symm, by simpa using hafter.symm⟩

variable {text : List Char} {lo mid hi : Nat}

/-- Two offsets take a text apart into three. -/
theorem IsBoundary.split (hlo : IsBoundary text lo) (hhi : IsBoundary text hi) (hle : lo ≤ hi) :
    ∃ before after, text = before ++ slice text lo hi ++ after ∧ byteLength before = lo ∧
      lo + byteLength (slice text lo hi) = hi := by
  obtain ⟨before, rest, rfl, rfl⟩ := hlo
  obtain ⟨longer, after, htext, rfl⟩ := hhi
  obtain ⟨piece, rfl, rfl⟩ := exists_between htext hle
  have hpiece : slice (before ++ (piece ++ after)) (byteLength before)
      (byteLength (before ++ piece)) = piece := by
    rw [byteLength_append, ← List.append_assoc]
    exact slice_middle before piece after
  refine ⟨before, after, ?_, rfl, ?_⟩
  · rw [hpiece, List.append_assoc]
  · rw [hpiece, byteLength_append]

@[simp]
theorem slice_self (text : List Char) (n : Nat) : slice text n n = [] := by
  unfold slice slice?
  cases splitAt? n text <;> simp [splitAt?]

/-- Pieces next to each other make one piece. -/
theorem slice_append_slice (hlo : IsBoundary text lo) (hmid : IsBoundary text mid)
    (hhi : IsBoundary text hi) (hle : lo ≤ mid) (hle' : mid ≤ hi) :
    slice text lo mid ++ slice text mid hi = slice text lo hi := by
  obtain ⟨before, rest, hfirst, hbefore, hmiddle⟩ := hlo.split hmid hle
  obtain ⟨start, after, hsecond, hstart, hend⟩ := hmid.split hhi hle'
  generalize slice text lo mid = x at *
  generalize slice text mid hi = y at *
  have hlength : byteLength (before ++ x) = byteLength start := by
    rw [byteLength_append, hbefore, hmiddle, hstart]
  have hboth : before ++ x ++ rest = start ++ (y ++ after) := by
    rw [← hfirst, ← List.append_assoc, ← hsecond]
  obtain ⟨piece, hpiece, -⟩ := exists_between hboth (Nat.le_of_eq hlength)
  obtain rfl : piece = [] := by
    rw [hpiece, byteLength_append (before ++ x)] at hlength
    exact eq_nil_of_byteLength (by omega)
  have htext : text = before ++ (x ++ y) ++ after := by
    rw [hsecond, hpiece]
    simp
  have hjoined := slice_middle before (x ++ y) after
  rw [← htext, byteLength_append, hbefore, ← Nat.add_assoc, hmiddle, hend] at hjoined
  exact hjoined.symm

/-! ### Sorting in parts -/

variable {α : Type} {le : α → α → Bool}

theorem insertSorted_append_of_le {a : α} {ys : List α} (h : ∀ y ∈ ys, le a y = true)
    (xs : List α) : insertSorted le a (xs ++ ys) = insertSorted le a xs ++ ys := by
  induction xs with
  | nil =>
    cases ys with
    | nil => rfl
    | cons y ys => exact if_pos (h y (List.mem_cons_self ..))
  | cons x xs ih =>
    simp only [List.cons_append, insertSorted, ih]
    split <;> rfl

theorem insertSorted_append_of_not_le {a : α} {xs : List α} (h : ∀ x ∈ xs, le a x = false)
    (ys : List α) : insertSorted le a (xs ++ ys) = xs ++ insertSorted le a ys := by
  induction xs with
  | nil => rfl
  | cons x xs ih =>
    have hx : ¬ le a x = true := by simp [h x (List.mem_cons_self ..)]
    have hrest := ih fun y hy => h y (List.mem_cons_of_mem _ hy)
    simp only [List.cons_append, insertSorted, if_neg hx, hrest]

/-- When all elements with a property come before all others, both kinds may be sorted apart. -/
theorem sortBy_eq_append (p : α → Bool) {as : List α}
    (h : ∀ a ∈ as, ∀ b ∈ as, p a = true → p b = false → le a b = true ∧ le b a = false) :
    sortBy le as = sortBy le (as.filter p) ++ sortBy le (as.filter (!p ·)) := by
  induction as with
  | nil => rfl
  | cons a as ih =>
    have hrest := ih fun b hb c hc => h b (List.mem_cons_of_mem _ hb) c (List.mem_cons_of_mem _ hc)
    have hmem {q : α → Bool} {b : α} (hb : b ∈ sortBy le (as.filter q)) : b ∈ as ∧ q b = true :=
      List.mem_filter.mp ((sortBy_perm le _).mem_iff.mp hb)
    have hinsert : sortBy le (a :: as) = insertSorted le a (sortBy le as) := rfl
    rw [hinsert, hrest]
    cases hp : p a with
    | true =>
      rw [List.filter_cons_of_pos hp, List.filter_cons_of_neg (by simp [hp])]
      refine insertSorted_append_of_le (fun b hb => ?_) _
      obtain ⟨hb, hpb⟩ := hmem hb
      exact (h a (List.mem_cons_self ..) b (List.mem_cons_of_mem _ hb) hp (by simpa using hpb)).1
    | false =>
      rw [List.filter_cons_of_neg (by simp [hp]), List.filter_cons_of_pos (by simp [hp])]
      refine insertSorted_append_of_not_le (fun b hb => ?_) _
      obtain ⟨hb, hpb⟩ := hmem hb
      exact (h b (List.mem_cons_of_mem _ hb) a (List.mem_cons_self ..) hpb hp).2

end Text

/-! ### Splicing in halves -/

/-- Both ends of the edit fall between characters of the source. -/
def Edit.OnBoundaries (source : List Char) (e : Edit) : Prop :=
  Text.IsBoundary source e.lo ∧ Text.IsBoundary source e.hi

instance (source : List Char) (e : Edit) : Decidable (e.OnBoundaries source) :=
  inferInstanceAs (Decidable (_ ∧ _))

section

variable {source : List Char} {cursor mid hi : Nat}

/-- What stands before the first edit is copied, up to any place before it. -/
theorem spliceFrom_gap (hcursor : Text.IsBoundary source cursor) (hmid : Text.IsBoundary source mid)
    (hhi : Text.IsBoundary source hi) (hle : cursor ≤ mid) (hle' : mid ≤ hi) {edits : List Edit}
    (hedits : ∀ e ∈ edits, mid ≤ e.lo ∧ e.OnBoundaries source) :
    spliceFrom source hi cursor edits =
      Text.slice source cursor mid ++ spliceFrom source hi mid edits := by
  induction edits with
  | nil => exact (Text.slice_append_slice hcursor hmid hhi hle hle').symm
  | cons e es ih =>
    obtain ⟨hlo, hbounds⟩ := hedits e (List.mem_cons_self ..)
    have hrest := ih fun x hx => hedits x (List.mem_cons_of_mem _ hx)
    have hsame : (e.lo < cursor || hi < e.hi || e.hi < e.lo) =
        (e.lo < mid || hi < e.hi || e.hi < e.lo) := by
      have hcursor' : decide (e.lo < cursor) = false := by
        rw [decide_eq_false_iff_not]
        omega
      have hmid' : decide (e.lo < mid) = false := by
        rw [decide_eq_false_iff_not]
        omega
      rw [hcursor', hmid']
    simp only [spliceFrom, hsame, hrest]
    split
    · rfl
    · rw [← Text.slice_append_slice hcursor hmid hbounds.1 hle hlo]
      simp only [List.append_assoc]

/-- A range may be spliced in two halves if every edit lies in one of them. -/
theorem spliceFrom_append (hcursor : Text.IsBoundary source cursor)
    (hmid : Text.IsBoundary source mid) (hhi : Text.IsBoundary source hi) (hle : cursor ≤ mid)
    (hle' : mid ≤ hi) {xs ys : List Edit}
    (hxs : ∀ e ∈ xs, e.hi ≤ mid ∧ e.OnBoundaries source)
    (hys : ∀ e ∈ ys, mid ≤ e.lo ∧ e.OnBoundaries source) :
    spliceFrom source hi cursor (xs ++ ys) =
      spliceFrom source mid cursor xs ++ spliceFrom source hi mid ys := by
  induction xs generalizing cursor with
  | nil => exact spliceFrom_gap hcursor hmid hhi hle hle' hys
  | cons e es ih =>
    obtain ⟨hend, hbounds⟩ := hxs e (List.mem_cons_self ..)
    have hes : ∀ x ∈ es, x.hi ≤ mid ∧ x.OnBoundaries source := fun x hx =>
      hxs x (List.mem_cons_of_mem _ hx)
    have hsame : (e.lo < cursor || hi < e.hi || e.hi < e.lo) =
        (e.lo < cursor || mid < e.hi || e.hi < e.lo) := by
      have hhi' : decide (hi < e.hi) = false := by
        rw [decide_eq_false_iff_not]
        omega
      have hmid' : decide (mid < e.hi) = false := by
        rw [decide_eq_false_iff_not]
        omega
      rw [hhi', hmid']
    simp only [List.cons_append, spliceFrom, hsame]
    split
    · exact ih hcursor hle hes
    · rw [ih hbounds.2 hend hes]
      simp only [List.append_assoc]

end

/-! ### Splices inside splices -/

/-- An edit lies in a range and keeps to the characters of the source. -/
structure Edit.Within (source : List Char) (range : Span) (e : Edit) : Prop where
  le : e.lo ≤ e.hi
  inside : e.span.Inside range
  bounds : e.OnBoundaries source

instance (source : List Char) (range : Span) (e : Edit) : Decidable (e.Within source range) :=
  decidable_of_iff (e.lo ≤ e.hi ∧ e.span.Inside range ∧ e.OnBoundaries source)
    ⟨fun h => ⟨h.1, h.2.1, h.2.2⟩, fun h => ⟨h.le, h.inside, h.bounds⟩⟩

theorem Edit.Within.widen {source : List Char} {range wider : Span} {e : Edit}
    (h : e.Within source range) (hin : range.Inside wider) : e.Within source wider :=
  ⟨h.le, h.inside.trans hin, h.bounds⟩

/-- An edit apart from a part of the range stands before the part or after it. -/
theorem Edit.Within.beside {source : List Char} {range part : Span} {e : Edit}
    (h : e.Within source range) (hapart : e.span.Apart part) :
    e.Within source ⟨range.lo, part.lo⟩ ∨ e.Within source ⟨part.hi, range.hi⟩ := by
  rcases hapart with hend | hstart
  · exact .inl ⟨h.le, ⟨h.inside.1, hend⟩, h.bounds⟩
  · exact .inr ⟨h.le, ⟨hstart, h.inside.2⟩, h.bounds⟩

section

variable {source : List Char} {lo a b hi : Nat}

/-- A range is spliced in two halves if the edits of the first half are sorted before those of the
second. -/
theorem splice_eq_append (hlo : lo ≤ a) (hhi : a ≤ hi)
    (hbounds : ∀ n ∈ [lo, a, hi], Text.IsBoundary source n) (p : Edit → Bool) {edits : List Edit}
    (hfirst : ∀ e ∈ edits, p e = true → e.Within source ⟨lo, a⟩)
    (hsecond : ∀ e ∈ edits, p e = false → e.Within source ⟨a, hi⟩)
    (hsorted : ∀ x ∈ edits, ∀ y ∈ edits, p x = true → p y = false →
      x.lo < y.lo ∨ x.lo = y.lo ∧ x.hi < y.hi) :
    splice source lo hi edits =
      splice source lo a (edits.filter p) ++ splice source a hi (edits.filter (!p ·)) := by
  have hsort : Edit.sort edits =
      Edit.sort (edits.filter p) ++ Edit.sort (edits.filter (!p ·)) := by
    refine Text.sortBy_eq_append p fun x hx y hy hpx hpy => ?_
    have hlt := hsorted x hx y hy hpx hpy
    rw [← Bool.not_eq_true, Edit.before_iff, Edit.before_iff]
    omega
  have hxs : ∀ e ∈ Edit.sort (edits.filter p), e.hi ≤ a ∧ e.OnBoundaries source := by
    intro e he
    obtain ⟨he, hp⟩ := List.mem_filter.mp (Edit.mem_sort.mp he)
    exact ⟨(hfirst e he hp).inside.2, (hfirst e he hp).bounds⟩
  have hys : ∀ e ∈ Edit.sort (edits.filter (!p ·)), a ≤ e.lo ∧ e.OnBoundaries source := by
    intro e he
    obtain ⟨he, hp⟩ := List.mem_filter.mp (Edit.mem_sort.mp he)
    have hwithin := hsecond e he (by simpa using hp)
    exact ⟨hwithin.inside.1, hwithin.bounds⟩
  rw [splice, splice, splice, hsort, spliceFrom_append (hbounds lo (by simp)) (hbounds a (by simp))
    (hbounds hi (by simp)) hlo hhi hxs hys, String.ofList_append]

/-- Where every edit lies in one of two halves, an insertion between them may go to the first. -/
theorem splice_insertions_first (hlo : lo ≤ a) (hhi : a ≤ hi)
    (hbounds : ∀ n ∈ [lo, a, hi], Text.IsBoundary source n) {edits : List Edit}
    (h : ∀ e ∈ edits, e.Within source ⟨lo, a⟩ ∨ e.Within source ⟨a, hi⟩) :
    splice source lo hi edits = splice source lo a (edits.filter (·.hi ≤ a)) ++
      splice source a hi (edits.filter fun e => !decide (e.hi ≤ a)) := by
  have hplaces : ∀ e ∈ edits, e.lo ≤ e.hi ∧ (e.hi ≤ a ∨ a ≤ e.lo) := by
    intro e he
    rcases h e he with hin | hin
    · exact ⟨hin.le, .inl hin.inside.2⟩
    · exact ⟨hin.le, .inr hin.inside.1⟩
  refine splice_eq_append hlo hhi hbounds (·.hi ≤ a) (fun e he hp => ?_) (fun e he hp => ?_)
    fun x hx y hy hpx hpy => ?_
  · have hend := of_decide_eq_true hp
    rcases h e he with hin | hin
    · exact hin
    · exact ⟨hin.le, ⟨Nat.le_trans hlo hin.inside.1, hend⟩, hin.bounds⟩
  · exact (h e he).resolve_left fun hin => of_decide_eq_false hp hin.inside.2
  · have hend := of_decide_eq_true hpx
    have hend' := of_decide_eq_false hpy
    have hx := hplaces x hx
    have hy := hplaces y hy
    omega

/-- It may go to the second as well. -/
theorem splice_insertions_second (hlo : lo ≤ a) (hhi : a ≤ hi)
    (hbounds : ∀ n ∈ [lo, a, hi], Text.IsBoundary source n) {edits : List Edit}
    (h : ∀ e ∈ edits, e.Within source ⟨lo, a⟩ ∨ e.Within source ⟨a, hi⟩) :
    splice source lo hi edits = splice source lo a (edits.filter (·.lo < a)) ++
      splice source a hi (edits.filter fun e => !decide (e.lo < a)) := by
  refine splice_eq_append hlo hhi hbounds (·.lo < a) (fun e he hp => ?_) (fun e he hp => ?_)
    fun x hx y hy hpx hpy => ?_
  · have hstart := of_decide_eq_true hp
    exact (h e he).resolve_right fun hin => Nat.not_lt.mpr hin.inside.1 hstart
  · have hstart := of_decide_eq_false hp
    rcases h e he with hin | hin
    · exact ⟨hin.le, ⟨Nat.not_lt.mp hstart, Nat.le_trans hin.inside.2 hhi⟩, hin.bounds⟩
    · exact hin
  · have hstart := of_decide_eq_true hpx
    have hstart' := of_decide_eq_false hpy
    omega

/-- A range with a part in the middle is spliced in three. -/
theorem splice_eq_thirds (hlo : lo ≤ a) (hab : a < b) (hhi : b ≤ hi)
    (hbounds : ∀ n ∈ [lo, a, b, hi], Text.IsBoundary source n) {edits : List Edit}
    (h : ∀ e ∈ edits, e.Within source ⟨lo, a⟩ ∨ e.Within source ⟨a, b⟩ ∨
      e.Within source ⟨b, hi⟩) :
    splice source lo hi edits = splice source lo a (edits.filter (·.hi ≤ a)) ++
      (splice source a b (edits.filter fun e => e.lo < b && !decide (e.hi ≤ a)) ++
        splice source b hi (edits.filter fun e => !decide (e.lo < b) && !decide (e.hi ≤ a))) := by
  have hfirst : ∀ e ∈ edits, e.Within source ⟨lo, a⟩ ∨ e.Within source ⟨a, hi⟩ := by
    intro e he
    rcases h e he with hin | hin | hin
    · exact .inl hin
    · exact .inr (hin.widen ⟨Nat.le_refl _, hhi⟩)
    · exact .inr (hin.widen ⟨hab.le, Nat.le_refl _⟩)
  have hsecond : ∀ e ∈ edits.filter fun e => !decide (e.hi ≤ a),
      e.Within source ⟨a, b⟩ ∨ e.Within source ⟨b, hi⟩ := by
    intro e he
    obtain ⟨he, hend⟩ := List.mem_filter.mp he
    refine (h e he).resolve_left fun hin => ?_
    have hle : e.hi ≤ a := hin.inside.2
    simp [hle] at hend
  have hleft : [lo, a, hi] ⊆ [lo, a, b, hi] := by simp
  have hright : [a, b, hi] ⊆ [lo, a, b, hi] := by simp
  rw [splice_insertions_first hlo (by omega) (fun n hn => hbounds n (hleft hn)) hfirst,
    splice_insertions_second hab.le hhi (fun n hn => hbounds n (hright hn)) hsecond,
    List.filter_filter, List.filter_filter]

/-- The text around a part of the range does not depend on the edits inside the part. -/
theorem exists_splice_around (hlo : lo ≤ a) (hab : a < b) (hhi : b ≤ hi)
    (hbounds : ∀ n ∈ [lo, a, b, hi], Text.IsBoundary source n) {before after : List Edit}
    (houter : ∀ e ∈ before ++ after, e.Within source ⟨lo, a⟩ ∨ e.Within source ⟨b, hi⟩) :
    ∃ left right, ∀ inner : List Edit,
      (∀ e ∈ inner, e.lo < e.hi ∧ e.Within source ⟨a, b⟩) →
        splice source lo hi (before ++ inner ++ after) =
          left ++ (splice source a b inner ++ right) := by
  refine ⟨splice source lo a ((before ++ after).filter (·.hi ≤ a)),
    splice source b hi ((before ++ after).filter fun e => !decide (e.lo < b) && !decide (e.hi ≤ a)),
    fun inner hinner => ?_⟩
  have hall : ∀ e ∈ before ++ inner ++ after, e.Within source ⟨lo, a⟩ ∨
      e.Within source ⟨a, b⟩ ∨ e.Within source ⟨b, hi⟩ := by
    intro e he
    have hcases : e ∈ inner ∨ e ∈ before ++ after := by
      simp only [List.mem_append] at he ⊢
      tauto
    rcases hcases with he | he
    · exact .inr (.inl (hinner e he).2)
    · exact (houter e he).imp_right .inr
  have hplaces : ∀ e ∈ inner, a < e.hi ∧ e.lo < b := by
    intro e he
    obtain ⟨hne, hin⟩ := hinner e he
    exact ⟨Nat.lt_of_le_of_lt hin.inside.1 hne, Nat.lt_of_lt_of_le hne hin.inside.2⟩
  have hsides : ∀ e ∈ before ++ after, e.lo < b → e.hi ≤ a := fun e he hlt =>
    (houter e he).elim (·.inside.2) fun hin => absurd hin.inside.1 (Nat.not_le.mpr hlt)
  have hleft : (inner.filter fun e => e.hi ≤ a) = [] := by
    simpa [List.filter_eq_nil_iff] using fun e he => (hplaces e he).1
  have hinner' : (inner.filter fun e => e.lo < b && !decide (e.hi ≤ a)) = inner := by
    simpa [List.filter_eq_self] using fun e he => ⟨(hplaces e he).2, (hplaces e he).1⟩
  have hright : (inner.filter fun e => !decide (e.lo < b) && !decide (e.hi ≤ a)) = [] := by
    simpa [List.filter_eq_nil_iff] using fun e he hle =>
      absurd (hplaces e he).2 (Nat.not_lt.mpr hle)
  have hnone : ((before ++ after).filter fun e => e.lo < b && !decide (e.hi ≤ a)) = [] := by
    refine List.filter_eq_nil_iff.mpr fun e he => ?_
    simpa using hsides e he
  obtain ⟨hbefore, hafter⟩ := List.append_eq_nil_iff.mp (List.filter_append .. ▸ hnone)
  rw [splice_eq_thirds hlo hab hhi hbounds hall]
  simp only [List.filter_append, hleft, hinner', hright, hbefore, hafter, List.append_nil,
    List.nil_append]

@[simp]
theorem splice_single (hle : lo ≤ hi) (text key : String) :
    splice source lo hi [⟨lo, hi, text, key⟩] = text := by
  simp [splice, Edit.sort, Text.sortBy, Text.insertSorted, spliceFrom, Nat.not_lt.mpr hle]

/-- A part spliced on its own and put in as one edit gives what its edits give. -/
theorem splice_replace (hlo : lo ≤ a) (hab : a < b) (hhi : b ≤ hi)
    (hbounds : ∀ n ∈ [lo, a, b, hi], Text.IsBoundary source n) {before inner after : List Edit}
    (houter : ∀ e ∈ before ++ after, e.Within source ⟨lo, a⟩ ∨ e.Within source ⟨b, hi⟩)
    (hinner : ∀ e ∈ inner, e.lo < e.hi ∧ e.Within source ⟨a, b⟩) (key : String) :
    splice source lo hi (before ++ [⟨a, b, splice source a b inner, key⟩] ++ after) =
      splice source lo hi (before ++ inner ++ after) := by
  obtain ⟨left, right, haround⟩ := exists_splice_around hlo hab hhi hbounds houter
  have hone : ∀ e ∈ [(⟨a, b, splice source a b inner, key⟩ : Edit)],
      e.lo < e.hi ∧ e.Within source ⟨a, b⟩ := by
    intro e he
    obtain rfl := List.mem_singleton.mp he
    exact ⟨hab, hab.le, Span.Inside.refl _, hbounds a (by simp), hbounds b (by simp)⟩
  rw [haround _ hone, haround inner hinner, splice_single hab.le]

end

/-! ### Rebuilding from the leaves -/

/-- How a piece of code is rebuilt: as a given edit, or as the splice of its rebuilt parts. -/
inductive Rebuild where
  | leaf (edit : Edit)
  | node (span : Span) (key : String) (parts : List Rebuild)

namespace Rebuild

/-- The piece that is rebuilt. -/
def span : Rebuild → Span
  | leaf e => e.span
  | node span _ _ => span

mutual

/-- The edit that a rebuilt piece is for the code around it. -/
def edit (source : List Char) : Rebuild → Edit
  | leaf e => e
  | node span key parts =>
    ⟨span.lo, span.hi, splice source span.lo span.hi (editAll source parts), key⟩

def editAll (source : List Char) : List Rebuild → List Edit
  | [] => []
  | p :: ps => p.edit source :: editAll source ps

end

mutual

/-- The given edits inside a piece. -/
def leaves : Rebuild → List Edit
  | leaf e => [e]
  | node _ _ parts => allLeaves parts

def allLeaves : List Rebuild → List Edit
  | [] => []
  | p :: ps => p.leaves ++ allLeaves ps

end

/-- The parts of a piece lie in it apart from each other, none of them empty. -/
inductive Laid (source : List Char) : Rebuild → Prop
  | leaf {e : Edit} : e.lo < e.hi → e.OnBoundaries source → Laid source (leaf e)
  | node {span : Span} {key : String} {parts : List Rebuild} : span.lo < span.hi →
      Text.IsBoundary source span.lo → Text.IsBoundary source span.hi →
      (∀ p ∈ parts, Laid source p) → (∀ p ∈ parts, p.span.Inside span) →
      (parts.map Rebuild.span).Pairwise Span.Apart → Laid source (node span key parts)

variable {source : List Char}

theorem mem_allLeaves {e : Edit} {parts : List Rebuild} :
    e ∈ allLeaves parts ↔ ∃ p ∈ parts, e ∈ p.leaves := by
  induction parts with
  | nil => simp [allLeaves]
  | cons p ps ih => simp [allLeaves, ih]

theorem Laid.leaves_within {r : Rebuild} (h : r.Laid source) :
    ∀ e ∈ r.leaves, e.lo < e.hi ∧ e.Within source r.span := by
  induction h with
  | leaf hne hbounds =>
    intro e he
    obtain rfl := List.mem_singleton.mp he
    exact ⟨hne, hne.le, Span.Inside.refl _, hbounds⟩
  | node _ _ _ _ hinside _ ih =>
    intro e he
    obtain ⟨p, hp, hleaf⟩ := mem_allLeaves.mp he
    obtain ⟨hne, hwithin⟩ := ih p hp e hleaf
    exact ⟨hne, hwithin.widen (hinside p hp)⟩

theorem edit_span (source : List Char) (r : Rebuild) : (r.edit source).span = r.span := by
  cases r <;> rfl

/-- A piece is not empty and keeps to the characters of the source. -/
theorem Laid.piece {r : Rebuild} (h : r.Laid source) : r.span.lo < r.span.hi ∧
    Text.IsBoundary source r.span.lo ∧ Text.IsBoundary source r.span.hi := by
  cases h with
  | leaf hne hbounds => exact ⟨hne, hbounds⟩
  | node hne hlo hhi _ _ _ => exact ⟨hne, hlo, hhi⟩

theorem Laid.edit_within {r : Rebuild} (h : r.Laid source) :
    (r.edit source).Within source r.span := by
  obtain ⟨hne, hbounds⟩ := h.piece
  rw [← edit_span source r] at hne hbounds ⊢
  exact ⟨hne.le, Span.Inside.refl _, hbounds⟩

theorem mem_editAll {e : Edit} {parts : List Rebuild} :
    e ∈ editAll source parts ↔ ∃ p ∈ parts, p.edit source = e := by
  induction parts with
  | nil => simp [editAll]
  | cons p ps ih => simp [editAll, ih, eq_comm]

/-- Parts may be taken apart into their leaves one after the other. -/
theorem splice_editAll {range : Span} (hlo : Text.IsBoundary source range.lo)
    (hhi : Text.IsBoundary source range.hi) {parts : List Rebuild}
    (hlaid : ∀ p ∈ parts, p.Laid source) (hinside : ∀ p ∈ parts, p.span.Inside range)
    (hapart : (parts.map Rebuild.span).Pairwise Span.Apart)
    (hparts : ∀ p ∈ parts, (p.edit source).text = splice source p.span.lo p.span.hi p.leaves)
    {others : List Edit} (hothers : ∀ e ∈ others, e.Within source range)
    (hclear : ∀ e ∈ others, ∀ p ∈ parts, e.span.Apart p.span) :
    splice source range.lo range.hi (others ++ editAll source parts) =
      splice source range.lo range.hi (others ++ allLeaves parts) := by
  induction parts generalizing others with
  | nil => rfl
  | cons p ps ih =>
    rw [List.forall_mem_cons] at hlaid hinside hparts
    obtain ⟨hfirst, hrest⟩ := List.pairwise_cons.mp hapart
    obtain ⟨hne, hspan⟩ := hlaid.1.piece
    have hbounds : ∀ n ∈ [range.lo, p.span.lo, p.span.hi, range.hi],
        Text.IsBoundary source n := by
      simpa using ⟨hlo, hspan.1, hspan.2, hhi⟩
    have hleaves := hlaid.1.leaves_within
    have houter : ∀ e ∈ others ++ editAll source ps,
        e.Within source ⟨range.lo, p.span.lo⟩ ∨ e.Within source ⟨p.span.hi, range.hi⟩ := by
      intro e he
      rcases List.mem_append.mp he with he | he
      · exact (hothers e he).beside (hclear e he p (List.mem_cons_self ..))
      · obtain ⟨q, hq, rfl⟩ := mem_editAll.mp he
        refine ((hlaid.2 q hq).edit_within.widen (hinside.2 q hq)).beside ?_
        rw [edit_span]
        exact (hfirst q.span (List.mem_map_of_mem hq)).symm
    have hothers' : ∀ e ∈ others ++ p.leaves, e.Within source range := by
      intro e he
      rcases List.mem_append.mp he with he | he
      · exact hothers e he
      · exact (hleaves e he).2.widen hinside.1
    have hclear' : ∀ e ∈ others ++ p.leaves, ∀ q ∈ ps, e.span.Apart q.span := by
      intro e he q hq
      rcases List.mem_append.mp he with he | he
      · exact hclear e he q (List.mem_cons_of_mem _ hq)
      · exact (hfirst q.span (List.mem_map_of_mem hq)).inside (hleaves e he).2.inside
          (Span.Inside.refl _)
    have hsplice : p.edit source = ⟨p.span.lo, p.span.hi,
        splice source p.span.lo p.span.hi p.leaves, (p.edit source).key⟩ := by
      rw [← hparts.1, ← edit_span source p]
      rfl
    calc splice source range.lo range.hi (others ++ editAll source (p :: ps))
        = splice source range.lo range.hi (others ++ [p.edit source] ++ editAll source ps) := by
          simp [editAll]
      _ = splice source range.lo range.hi (others ++ p.leaves ++ editAll source ps) := by
          rw [hsplice]
          exact splice_replace hinside.1.1 hne hinside.1.2 hbounds houter hleaves _
      _ = splice source range.lo range.hi (others ++ allLeaves (p :: ps)) := by
          rw [ih hlaid.2 hinside.2 hrest hparts.2 hothers' hclear', List.append_assoc]
          rfl

/-- Rebuilding from the leaves up applies all leaves at once. -/
theorem Laid.edit_text {r : Rebuild} (h : r.Laid source) :
    (r.edit source).text = splice source r.span.lo r.span.hi r.leaves := by
  induction h with
  | leaf hne _ => exact (splice_single hne.le _ _).symm
  | node _ hlo hhi hlaid hinside hapart ih =>
    exact splice_editAll hlo hhi hlaid hinside hapart ih (List.forall_mem_nil _)
      (List.forall_mem_nil _)

end Rebuild

/-- Splicing composes. A part of a range may be spliced first and put in as one edit, with other
edits next to it on both sides. So code rebuilt from the leaves up, at any depth, is the code with
all leaves applied at once. -/
theorem splice_nested (source : List Char) :
    (∀ (lo a b hi : Nat) (outer inner : List Edit) (key : String), lo ≤ a → a < b → b ≤ hi →
      (∀ n ∈ [lo, a, b, hi], Text.IsBoundary source n) →
      (∀ e ∈ inner, e.lo < e.hi ∧ e.Within source ⟨a, b⟩) →
      (∀ e ∈ outer, e.Within source ⟨lo, a⟩ ∨ e.Within source ⟨b, hi⟩) →
        splice source lo hi (outer ++ [⟨a, b, splice source a b inner, key⟩]) =
          splice source lo hi (outer ++ inner)) ∧
    ∀ r : Rebuild, r.Laid source →
      (r.edit source).text = splice source r.span.lo r.span.hi r.leaves := by
  refine ⟨fun lo a b hi outer inner key hlo hab hhi hbounds hinner houter => ?_,
    fun r h => h.edit_text⟩
  have houter' : ∀ e ∈ outer ++ [], e.Within source ⟨lo, a⟩ ∨ e.Within source ⟨b, hi⟩ := by
    simpa using houter
  simpa using splice_replace hlo hab hhi hbounds houter' hinner key

/-- Insertions at both ends of the part and edits in it that overlap. -/
theorem splice_nested_insertions :
    splice "aé(bçd)e".toList 0 10 ([⟨3, 3, "<", ""⟩, ⟨9, 9, ">", ""⟩, ⟨1, 3, "x", ""⟩] ++
      [⟨3, 9, splice "aé(bçd)e".toList 3 9 [⟨7, 8, "D", ""⟩, ⟨4, 7, "BC", ""⟩, ⟨5, 7, "c", ""⟩],
        "k"⟩]) = "ax<(BCD)>e" ∧
    splice "aé(bçd)e".toList 0 10 ([⟨3, 3, "<", ""⟩, ⟨9, 9, ">", ""⟩, ⟨1, 3, "x", ""⟩] ++
      [⟨7, 8, "D", ""⟩, ⟨4, 7, "BC", ""⟩, ⟨5, 7, "c", ""⟩]) = "ax<(BCD)>e" ∧
    ((Rebuild.node ⟨3, 9⟩ "k" [.node ⟨5, 8⟩ "" [.leaf ⟨7, 8, "D", ""⟩], .leaf ⟨4, 5, "B", ""⟩]).edit
      "aé(bçd)e".toList).text =
      splice "aé(bçd)e".toList 3 9 [⟨7, 8, "D", ""⟩, ⟨4, 5, "B", ""⟩] := by
  have hnested := (splice_nested "aé(bçd)e".toList).1 0 3 9 10
    [⟨3, 3, "<", ""⟩, ⟨9, 9, ">", ""⟩, ⟨1, 3, "x", ""⟩]
    [⟨7, 8, "D", ""⟩, ⟨4, 7, "BC", ""⟩, ⟨5, 7, "c", ""⟩] "k" (by decide) (by decide) (by decide)
    (by decide) (by decide) (by decide)
  have hflat : splice "aé(bçd)e".toList 0 10 ([⟨3, 3, "<", ""⟩, ⟨9, 9, ">", ""⟩, ⟨1, 3, "x", ""⟩] ++
      [⟨7, 8, "D", ""⟩, ⟨4, 7, "BC", ""⟩, ⟨5, 7, "c", ""⟩]) = "ax<(BCD)>e" := by decide
  refine ⟨hnested.trans hflat, hflat, (splice_nested "aé(bçd)e".toList).2 _ ?_⟩
  have hleaf {lo hi : Nat} {text : String} (h : lo < hi ∧
      (⟨lo, hi, text, ""⟩ : Edit).OnBoundaries "aé(bçd)e".toList) :
      Rebuild.Laid "aé(bçd)e".toList (.leaf ⟨lo, hi, text, ""⟩) := .leaf h.1 h.2
  have hnode : Rebuild.Laid "aé(bçd)e".toList (.node ⟨5, 8⟩ "" [.leaf ⟨7, 8, "D", ""⟩]) :=
    .node (by decide) (by decide) (by decide) (by simpa using hleaf (by decide)) (by decide)
      (by decide)
  exact .node (by decide) (by decide) (by decide) (by simpa using ⟨hnode, hleaf (by decide)⟩)
    (by decide) (by decide)

/-! ### Edits that lie apart -/

/-- One change of a text: what is kept before it, what it takes away, and the edit that says what
to put there. -/
structure Change where
  kept : List Char
  removed : List Char
  edit : Edit

namespace Change

/-- The text that the changes are made in. -/
def olds (changes : List Change) : List Char := changes.flatMap fun c => c.kept ++ c.removed

/-- The text that they make of it. -/
def news (changes : List Change) : List Char :=
  changes.flatMap fun c => c.kept ++ c.edit.text.toList

/-- From `start` on, each edit names the bytes that its change takes away. -/
def Placed : Nat → List Change → Prop
  | _, [] => True
  | start, c :: cs => c.edit.lo = start + Text.byteLength c.kept ∧
      c.edit.hi = c.edit.lo + Text.byteLength c.removed ∧ Placed c.edit.hi cs

end Change

/-- Edits in order leave the text between them as it is and take nothing else away. -/
theorem exists_changes {source : List Char} {cursor hi : Nat} {edits : List Edit}
    (hcursor : Text.IsBoundary source cursor) (hhi : Text.IsBoundary source hi) (hle : cursor ≤ hi)
    (hwithin : ∀ e ∈ edits, e.Within source ⟨cursor, hi⟩)
    (hsorted : edits.Pairwise fun a b => a.hi ≤ b.lo) :
    ∃ (changes : List Change) (last : List Char), changes.map Change.edit = edits ∧
      Change.Placed cursor changes ∧
      Text.slice source cursor hi = Change.olds changes ++ last ∧
      placeAll source hi cursor edits = Change.news changes ++ last := by
  induction edits generalizing cursor with
  | nil => exact ⟨[], Text.slice source cursor hi, rfl, trivial, rfl, rfl⟩
  | cons e es ih =>
    rw [List.forall_mem_cons] at hwithin
    obtain ⟨⟨hedit, ⟨hlo, hend⟩, hbounds⟩, hrest⟩ := hwithin
    obtain ⟨hfirst, hsorted⟩ := List.pairwise_cons.mp hsorted
    have hafter : ∀ x ∈ es, x.Within source ⟨e.hi, hi⟩ := fun x hx =>
      ⟨(hrest x hx).le, ⟨hfirst x hx, (hrest x hx).inside.2⟩, (hrest x hx).bounds⟩
    obtain ⟨changes, last, hedits, hplaced, hslice, hplace⟩ := ih hbounds.2 hend hafter hsorted
    obtain ⟨-, -, -, -, hkept⟩ := hcursor.split hbounds.1 hlo
    obtain ⟨-, -, -, -, hremoved⟩ := hbounds.1.split hbounds.2 hedit
    refine ⟨⟨Text.slice source cursor e.lo, Text.slice source e.lo e.hi, e⟩ :: changes, last,
      congrArg (e :: ·) hedits, ⟨hkept.symm, hremoved.symm, hplaced⟩, ?_, ?_⟩
    · rw [← Text.slice_append_slice hcursor hbounds.2 hhi (Nat.le_trans hlo hedit) hend,
        ← Text.slice_append_slice hcursor hbounds.1 hbounds.2 hlo hedit, hslice,
        ← List.append_assoc]
      rfl
    · rw [placeAll, hplace, ← List.append_assoc]
      rfl

/-- Edits of different ranges are sorted alike, in whatever order they are given. -/
theorem Edit.sort_eq_of_perm {xs ys : List Edit} (hperm : xs.Perm ys)
    (hdistinct : (ys.map Edit.span).Nodup) : Edit.sort xs = Edit.sort ys := by
  have hsorts : (Edit.sort xs).Perm (Edit.sort ys) :=
    (Text.sortBy_perm Edit.before xs).trans (hperm.trans (Text.sortBy_perm Edit.before ys).symm)
  refine hsorts.eq_of_pairwise (fun a b ha hb hab hba => ?_) (Edit.sort_pairwise xs)
    (Edit.sort_pairwise ys)
  have hspan : a.span = b.span := by
    rw [Edit.before_iff] at hab hba
    rw [Edit.span, Edit.span, Span.mk.injEq]
    omega
  have ha' : a ∈ ys := hperm.mem_iff.mp (Edit.mem_sort.mp ha)
  exact List.inj_on_of_nodup_map hdistinct ha' (Edit.mem_sort.mp hb) hspan

/-- Edits of different ranges that lie apart are all applied. The source is `before`, the changes
and what is left, and `after`. The splice puts in the text of every edit and keeps everything else,
whatever the order in which the edits are given. -/
theorem splice_apart {source : List Char} {lo hi : Nat} {edits : List Edit} (hle : lo ≤ hi)
    (hlo : Text.IsBoundary source lo) (hhi : Text.IsBoundary source hi)
    (hwithin : ∀ e ∈ edits, e.Within source ⟨lo, hi⟩)
    (hapart : (edits.map Edit.span).Pairwise Span.Apart)
    (hdistinct : (edits.map Edit.span).Nodup) :
    ∃ (changes : List Change) (before last after : List Char),
      (changes.map Change.edit).Perm edits ∧ Change.Placed lo changes ∧
      source = before ++ (Change.olds changes ++ last) ++ after ∧ Text.byteLength before = lo ∧
      lo + Text.byteLength (Change.olds changes ++ last) = hi ∧
      ∀ edits' : List Edit, edits'.Perm edits →
        splice source lo hi edits' = String.ofList (Change.news changes ++ last) := by
  have hfit : Edit.FitIn ⟨lo, hi⟩ edits :=
    ⟨fun e he => ⟨(hwithin e he).le, (hwithin e he).inside⟩, hapart⟩
  have hsorted : ∀ e ∈ Edit.sort edits, e.Within source ⟨lo, hi⟩ := fun e he =>
    hwithin e (Edit.mem_sort.mp he)
  obtain ⟨changes, last, hedits, hplaced, hslice, hplace⟩ :=
    exists_changes hlo hhi hle hsorted hfit.sorted
  obtain ⟨before, after, htext, hbefore, hlength⟩ := hlo.split hhi hle
  rw [hslice] at htext hlength
  refine ⟨changes, before, last, after, ?_, hplaced, htext, hbefore, hlength,
    fun edits' hperm => ?_⟩
  · rw [hedits]
    exact Text.sortBy_perm Edit.before edits
  · have hsplice : splice source lo hi edits = String.ofList (placeAll source hi lo _) :=
      splice_eq_placeAll source hfit
    rw [← hplace, ← hsplice, splice, splice, Edit.sort_eq_of_perm hperm hdistinct]

/-- Insertions at the ends of other edits, and a deletion, in two orders. -/
theorem splice_apart_insertions :
    splice "aé(bçd)e".toList 1 9 [⟨9, 9, ">", ""⟩, ⟨3, 5, "[b", ""⟩, ⟨3, 3, "<", ""⟩,
      ⟨7, 8, "", ""⟩, ⟨1, 3, "É", ""⟩] = "É<[bç)>" ∧
    splice "aé(bçd)e".toList 1 9 [⟨1, 3, "É", ""⟩, ⟨3, 3, "<", ""⟩, ⟨3, 5, "[b", ""⟩,
      ⟨7, 8, "", ""⟩, ⟨9, 9, ">", ""⟩] = "É<[bç)>" := by
  obtain ⟨changes, _, last, _, _, _, _, _, _, hall⟩ := splice_apart (by decide)
    (by decide : Text.IsBoundary "aé(bçd)e".toList 1)
    (by decide : Text.IsBoundary "aé(bçd)e".toList 9)
    (by decide : ∀ e ∈ ([⟨1, 3, "É", ""⟩, ⟨3, 3, "<", ""⟩, ⟨3, 5, "[b", ""⟩, ⟨7, 8, "", ""⟩,
      ⟨9, 9, ">", ""⟩] : List Edit), e.Within "aé(bçd)e".toList ⟨1, 9⟩) (by decide) (by decide)
  have hsorted : splice "aé(bçd)e".toList 1 9 [⟨1, 3, "É", ""⟩, ⟨3, 3, "<", ""⟩,
      ⟨3, 5, "[b", ""⟩, ⟨7, 8, "", ""⟩, ⟨9, 9, ">", ""⟩] = "É<[bç)>" := by decide
  have hperm := hall [⟨9, 9, ">", ""⟩, ⟨3, 5, "[b", ""⟩, ⟨3, 3, "<", ""⟩, ⟨7, 8, "", ""⟩,
    ⟨1, 3, "É", ""⟩] (by decide)
  exact ⟨hperm.trans ((hall _ (.refl _)).symm.trans hsorted), hsorted⟩

end Phrasebook
