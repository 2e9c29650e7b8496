import Mathlib.Data.List.DropRight
import Phrasebook.Markup.Clean
import Phrasebook.Script.Entity

/-!
Markup text at its ends. White space around a text is rendered as it would be without the text, and
the text as it would be without the space: cleaning does not look across the place where they meet.
Cleaning a text from its end gives the same, so what holds at the start of a text holds at its end.
-/
namespace Phrasebook

open Script

namespace Text

variable {α : Type} {p : α → Bool}

theorem rdropWhile_append_of_ne_nil {before after : List α} (h : after.rdropWhile p ≠ []) :
    (before ++ after).rdropWhile p = before ++ after.rdropWhile p := by
  have hne : (after.reverse.dropWhile p).isEmpty = false := by
    simpa [List.rdropWhile] using h
  simp [List.rdropWhile, List.dropWhile_append, hne]

theorem rdropWhile_append_of_pos {before after : List α} (h : ∀ a ∈ after, p a = true) :
    (before ++ after).rdropWhile p = before.rdropWhile p := by
  simp only [List.rdropWhile, List.reverse_append]
  rw [List.dropWhile_append_of_pos (by simpa using h)]

theorem rdropWhile_append_cons_of_neg {a : α} (h : ¬ p a = true) (before after : List α) :
    (before ++ a :: after).rdropWhile p = before ++ a :: after.rdropWhile p := by
  simp only [List.rdropWhile, List.reverse_append, List.reverse_cons, List.append_assoc,
    List.singleton_append, List.dropWhile_append, List.dropWhile_cons_of_neg h]
  split <;> simp_all

theorem dropWhile_reverse (l : List α) : l.reverse.dropWhile p = (l.rdropWhile p).reverse := by
  simp [List.rdropWhile]

/-- It does not matter which end of a list is taken off first. -/
theorem dropWhile_rdropWhile (l : List α) :
    (l.rdropWhile p).dropWhile p = (l.dropWhile p).rdropWhile p := by
  induction l with
  | nil => rfl
  | cons a l ih =>
    by_cases hnil : l.rdropWhile p = []
    · have hall := List.rdropWhile_eq_nil_iff.mp hnil
      by_cases ha : p a = true
      · have hcons : ∀ b ∈ a :: l, p b = true := by simpa [ha] using hall
        rw [List.rdropWhile_eq_nil_iff.mpr hcons, List.dropWhile_eq_nil_iff.mpr hcons]
        rfl
      · have hsingle : (a :: l).rdropWhile p = [a] := by
          rw [show a :: l = [a] ++ l from rfl, rdropWhile_append_of_pos hall,
            List.rdropWhile_singleton, if_neg ha]
        rw [List.dropWhile_cons_of_neg ha, hsingle, List.dropWhile_cons_of_neg ha]
    · have hcons : ([a] ++ l).rdropWhile p = [a] ++ l.rdropWhile p :=
        rdropWhile_append_of_ne_nil hnil
      simp only [List.singleton_append] at hcons
      by_cases ha : p a = true
      · rw [hcons, List.dropWhile_cons_of_pos ha, List.dropWhile_cons_of_pos ha, ih]
      · rw [hcons, List.dropWhile_cons_of_neg ha, List.dropWhile_cons_of_neg ha, hcons]

/-- What is taken off anyway may as well stand around the list. -/
theorem trim_between {before inner after : List α} (hbefore : ∀ a ∈ before, p a = true)
    (hafter : ∀ a ∈ after, p a = true) :
    ((before ++ inner ++ after).dropWhile p).rdropWhile p = (inner.dropWhile p).rdropWhile p := by
  rw [List.append_assoc, List.dropWhile_append_of_pos hbefore, ← dropWhile_rdropWhile,
    rdropWhile_append_of_pos hafter, dropWhile_rdropWhile]

/-- Nothing is taken off a list that starts and ends with something else. -/
theorem trim_eq_self_iff {l : List α} : (l.dropWhile p).rdropWhile p = l ↔
    (∀ a ∈ l.head?, p a = false) ∧ ∀ a ∈ l.getLast?, p a = false := by
  have hstart : l.dropWhile p = l ↔ ∀ a ∈ l.head?, p a = false := by
    cases l <;> simp [List.dropWhile_eq_self_iff]
  have hend : l.rdropWhile p = l ↔ ∀ a ∈ l.getLast?, p a = false := by
    rw [List.rdropWhile_eq_self_iff]
    by_cases hl : l = []
    · simp [hl]
    · simp [hl, List.getLast?_eq_some_getLast hl]
  rw [← hstart, ← hend]
  constructor
  · intro h
    have hdrop : l.dropWhile p = l := by
      refine (List.dropWhile_suffix p).eq_of_length_le ?_
      calc l.length = ((l.dropWhile p).rdropWhile p).length := by rw [h]
        _ ≤ (l.dropWhile p).length := (List.rdropWhile_prefix p _).length_le
    exact ⟨hdrop, by rwa [hdrop] at h⟩
  · rintro ⟨hdrop, hrdrop⟩
    rw [hdrop, hrdrop]

end Text

namespace Markup

/-! ### Lines -/

/-- A tab is rendered as a space. -/
def untab (c : Char) : Char := if c == '\t' then ' ' else c

theorem isSpace_untab {c : Char} (h : isSpace c = true) : isSpace (untab c) = true := by
  unfold untab
  split
  · rfl
  · exact h

theorem untab_of_not_isSpace {c : Char} (h : isSpace c = false) : untab c = c := by
  have hne : c ≠ '\t' := by
    rintro rfl
    cases h
  simp [untab, hne]

theorem ne_break_of_not_isSpace {c : Char} (h : isSpace c = false) : c ≠ '\n' := by
  rintro rfl
  cases h

theorem cleanLine_eq (first last : Bool) (line : List Char) : cleanLine first last line =
    let started := if first then line.map untab else (line.map untab).dropWhile isSpace
    if last then started else started.rdropWhile isSpace := rfl

theorem splitLines_ne_nil (raw : List Char) : splitLines raw ≠ [] := by
  cases raw with
  | nil => simp [splitLines]
  | cons c rest =>
    unfold splitLines
    split
    · exact List.cons_ne_nil _ _
    · split <;> exact List.cons_ne_nil _ _

theorem isEmpty_splitLines (raw : List Char) : (splitLines raw).isEmpty = false :=
  List.isEmpty_eq_false_iff.mpr (splitLines_ne_nil raw)

theorem splitLines_of_not_mem {line : List Char} (h : '\n' ∉ line) : splitLines line = [line] := by
  induction line with
  | nil => rfl
  | cons c line ih =>
    rw [List.mem_cons, not_or] at h
    simp [splitLines, Ne.symm h.1, ih h.2]

/-- Without a line feed, characters stand at the start of the first line. -/
theorem splitLines_append {before raw line : List Char} {lines : List (List Char)}
    (hbefore : '\n' ∉ before) (h : splitLines raw = line :: lines) :
    splitLines (before ++ raw) = (before ++ line) :: lines := by
  induction before with
  | nil => exact h
  | cons c before ih =>
    rw [List.mem_cons, not_or] at hbefore
    simp [splitLines, Ne.symm hbefore.1, ih hbefore.2]

/-- A line feed separates the lines before it from the lines after it. -/
theorem splitLines_append_break (before after : List Char) :
    splitLines (before ++ '\n' :: after) = splitLines before ++ splitLines after := by
  induction before with
  | nil => rfl
  | cons c before ih =>
    obtain ⟨line, lines, hlines⟩ := List.exists_cons_of_ne_nil (splitLines_ne_nil before)
    by_cases hc : c = '\n'
    · simp [splitLines, hc, ih]
    · simp [splitLines, hc, ih, hlines]

theorem splitLines_reverse (raw : List Char) :
    splitLines raw.reverse = ((splitLines raw).map List.reverse).reverse := by
  by_cases h : '\n' ∈ raw
  · obtain ⟨line, rest, rfl, hline⟩ := List.eq_append_cons_of_mem h
    have ih := splitLines_reverse rest
    have hreverse : (line ++ '\n' :: rest).reverse = rest.reverse ++ '\n' :: line.reverse := by
      simp
    have hline' : '\n' ∉ line.reverse := by simpa using hline
    rw [hreverse, splitLines_append_break, splitLines_append_break, ih,
      splitLines_of_not_mem hline, splitLines_of_not_mem hline']
    simp
  · rw [splitLines_of_not_mem h, splitLines_of_not_mem (by simpa using h)]
    rfl
termination_by raw.length

/-- Lines from a text, which the text starts with or ends with or neither. -/
def cleanBlock (first last : Bool) : List (List Char) → List (List Char)
  | [] => []
  | line :: rest => cleanLine first (last && rest.isEmpty) line :: cleanBlock false last rest

theorem cleanLines_eq (first : Bool) (lines : List (List Char)) :
    cleanLines first lines = cleanBlock first true lines := by
  induction lines generalizing first with
  | nil => rfl
  | cons line rest ih => simp [cleanLines, cleanBlock, ih]

theorem cleanBlock_append {first last : Bool} {before after : List (List Char)}
    (hbefore : before ≠ []) (hafter : after ≠ []) : cleanBlock first last (before ++ after) =
      cleanBlock first false before ++ cleanBlock false last after := by
  induction before generalizing first with
  | nil => exact absurd rfl hbefore
  | cons line rest ih =>
    have hlast : (rest ++ after).isEmpty = false := by simp [hafter]
    simp only [List.cons_append, cleanBlock, hlast, Bool.and_false, Bool.false_and]
    cases rest with
    | nil => rfl
    | cons next rest => rw [ih (List.cons_ne_nil _ _)]

theorem cleanLine_reverse (first last : Bool) (line : List Char) :
    cleanLine first last line.reverse = (cleanLine last first line).reverse := by
  cases first <;> cases last <;>
    simp [cleanLine_eq, Text.dropWhile_reverse, List.rdropWhile_reverse, Text.dropWhile_rdropWhile]

theorem cleanBlock_reverse (first last : Bool) (lines : List (List Char)) :
    cleanBlock first last (lines.map List.reverse).reverse =
      ((cleanBlock last first lines).map List.reverse).reverse := by
  induction lines generalizing last with
  | nil => rfl
  | cons line rest ih =>
    by_cases hrest : rest = []
    · simp [hrest, cleanBlock, cleanLine_reverse]
    · rw [List.map_cons, List.reverse_cons, cleanBlock_append (by simpa using hrest) (by simp), ih]
      simp [cleanBlock, cleanLine_reverse, List.isEmpty_eq_false_iff.mpr hrest]

theorem intercalate_append_singleton {sep line : List Char} {lines : List (List Char)}
    (h : lines ≠ []) : sep.intercalate (lines ++ [line]) = sep.intercalate lines ++ sep ++ line := by
  induction lines with
  | nil => exact absurd rfl h
  | cons first rest ih =>
    cases rest with
    | nil => simp
    | cons next rest =>
      have hrest := ih (List.cons_ne_nil _ _)
      simp only [List.cons_append] at hrest
      simp [List.intercalate_cons_cons, hrest]

theorem intercalate_reverse (sep : Char) (lines : List (List Char)) :
    [sep].intercalate (lines.map List.reverse).reverse = ([sep].intercalate lines).reverse := by
  induction lines with
  | nil => rfl
  | cons line rest ih =>
    cases rest with
    | nil => simp
    | cons next rest =>
      rw [List.map_cons, List.reverse_cons, intercalate_append_singleton (by simp), ih]
      simp [List.intercalate_cons_cons]

/-- Cleaning a text from its end gives the same. -/
theorem cleanChars_reverse (raw : List Char) : cleanChars raw.reverse = (cleanChars raw).reverse := by
  have hshown : ∀ lines : List (List Char), ((lines.map List.reverse).filter (!·.isEmpty)) =
      (lines.filter (!·.isEmpty)).map List.reverse := by
    intro lines
    simp [List.filter_map, Function.comp_def]
  rw [cleanChars, cleanChars, cleanLines_eq, cleanLines_eq, splitLines_reverse,
    cleanBlock_reverse, List.filter_reverse, hshown, intercalate_reverse]

/-! ### White space at the ends -/

/-- The lines that are rendered, of a whole text or of what follows a line feed. -/
def shownLines (first : Bool) (raw : List Char) : List (List Char) :=
  (cleanLines first (splitLines raw)).filter (!·.isEmpty)

theorem cleanLine_append_space {before line : List Char} {last : Bool}
    (hbefore : ∀ c ∈ before, isSpace c = true) :
    cleanLine false last (before ++ line) = cleanLine false last line := by
  have hspace : ∀ c ∈ before.map untab, isSpace c = true := by
    intro c hc
    obtain ⟨d, hd, rfl⟩ := List.mem_map.mp hc
    exact isSpace_untab (hbefore d hd)
  simp [cleanLine_eq, List.dropWhile_append_of_pos hspace]

theorem cleanLine_of_space {first : Bool} {line : List Char}
    (hline : ∀ c ∈ line, isSpace c = true) : cleanLine first false line = [] := by
  have hspace : ∀ c ∈ line.map untab, isSpace c = true := by
    intro c hc
    obtain ⟨d, hd, rfl⟩ := List.mem_map.mp hc
    exact isSpace_untab (hline d hd)
  cases first
  · simp [cleanLine_eq, List.dropWhile_eq_nil_iff.mpr hspace]
  · simp [cleanLine_eq, List.rdropWhile_eq_nil_iff.mpr hspace]

/-- A visible character is rendered, and in the first line also what stands before it. -/
theorem cleanLine_visible {c : Char} (hc : isSpace c = false) (last : Bool) (line : List Char) :
    ∃ rest, cleanLine false last (c :: line) = c :: rest ∧
      ∀ before, cleanLine true last (before ++ c :: line) = before.map untab ++ c :: rest := by
  have hshown : ¬ isSpace c = true := by simp [hc]
  cases last
  · refine ⟨(line.map untab).rdropWhile isSpace, ?_, fun before => ?_⟩
    · have hstart := Text.rdropWhile_append_cons_of_neg hshown [] (line.map untab)
      simpa [cleanLine_eq, untab_of_not_isSpace hc, hc] using hstart
    · simp [cleanLine_eq, untab_of_not_isSpace hc, Text.rdropWhile_append_cons_of_neg hshown]
  · exact ⟨line.map untab, by simp [cleanLine_eq, untab_of_not_isSpace hc, hc],
      fun before => by simp [cleanLine_eq, untab_of_not_isSpace hc]⟩

/-- White space after a line feed is not rendered. -/
theorem shownLines_append_space {before rest : List Char}
    (hbefore : ∀ c ∈ before, isSpace c = true) :
    shownLines false (before ++ rest) = shownLines false rest := by
  induction before with
  | nil => rfl
  | cons c before ih =>
    rw [List.forall_mem_cons] at hbefore
    rw [List.cons_append, ← ih hbefore.2]
    obtain ⟨line, lines, hlines⟩ :=
      List.exists_cons_of_ne_nil (splitLines_ne_nil (before ++ rest))
    by_cases hc : c = '\n'
    · simp [shownLines, splitLines, hc, cleanLines, cleanLine_eq]
    · have hbreak : '\n' ∉ [c] := by simpa using Ne.symm hc
      have hsplit : splitLines (c :: (before ++ rest)) = ([c] ++ line) :: lines :=
        splitLines_append hbreak hlines
      simp only [shownLines, hsplit, hlines, cleanLines]
      rw [cleanLine_append_space (by simpa using hbefore.1)]

/-- A first line of white space is not rendered. -/
theorem shownLines_space_break {line rest : List Char} (hbreak : '\n' ∉ line)
    (hline : ∀ c ∈ line, isSpace c = true) :
    shownLines true (line ++ '\n' :: rest) = shownLines false rest := by
  simp [shownLines, splitLines_append_break, splitLines_of_not_mem hbreak, cleanLines,
    isEmpty_splitLines, cleanLine_of_space hline]

theorem shownLines_visible {c : Char} (hc : isSpace c = false) (rest : List Char) :
    ∃ line lines, shownLines false (c :: rest) = (c :: line) :: lines ∧
      ∀ before, '\n' ∉ before →
        shownLines true (before ++ c :: rest) = (before.map untab ++ c :: line) :: lines := by
  obtain ⟨next, lines, hlines⟩ := List.exists_cons_of_ne_nil (splitLines_ne_nil rest)
  have hbreak : '\n' ∉ [c] := by simpa using (ne_break_of_not_isSpace hc).symm
  have hsplit : splitLines (c :: rest) = (c :: next) :: lines := splitLines_append hbreak hlines
  obtain ⟨line, hline, hfirst⟩ := cleanLine_visible hc lines.isEmpty next
  refine ⟨line, (cleanLines false lines).filter (!·.isEmpty), ?_, fun before hbefore => ?_⟩
  · simp [shownLines, hsplit, cleanLines, hline]
  · simp [shownLines, splitLines_append hbefore hsplit, cleanLines, hfirst]

theorem cleanChars_eq (raw : List Char) : cleanChars raw = [' '].intercalate (shownLines true raw) :=
  rfl

theorem cleanChars_nil : cleanChars [] = [] := rfl

/-- White space in one line is rendered, tabs as spaces. -/
theorem cleanChars_of_not_mem {raw : List Char} (h : '\n' ∉ raw) :
    cleanChars raw = raw.map untab := by
  cases raw with
  | nil => rfl
  | cons c rest => simp [cleanChars, splitLines_of_not_mem h, cleanLines, cleanLine_eq]

/-- White space over several lines is not rendered. -/
theorem cleanChars_of_space {raw : List Char} (hraw : ∀ c ∈ raw, isSpace c = true)
    (h : '\n' ∈ raw) : cleanChars raw = [] := by
  obtain ⟨line, rest, rfl, hline⟩ := List.eq_append_cons_of_mem h
  rw [List.forall_mem_append, List.forall_mem_cons] at hraw
  have hrest : shownLines false (rest ++ []) = shownLines false [] :=
    shownLines_append_space hraw.2.2
  rw [cleanChars_eq, shownLines_space_break hline hraw.1, ← List.append_nil rest, hrest]
  rfl

/-- White space before a text is rendered as it is without the text. -/
theorem cleanChars_space_append {before rest : List Char}
    (hbefore : ∀ c ∈ before, isSpace c = true) (hrest : ∀ c ∈ rest.head?, isSpace c = false) :
    cleanChars (before ++ rest) = cleanChars before ++ cleanChars rest := by
  cases rest with
  | nil => rw [List.append_nil, cleanChars_nil, List.append_nil]
  | cons c rest =>
    obtain ⟨line, lines, hshown, hfirst⟩ := shownLines_visible (hrest c rfl) rest
    have hself : shownLines true (c :: rest) = (c :: line) :: lines := hfirst [] (by simp)
    by_cases hbreak : '\n' ∈ before
    · rw [cleanChars_of_space hbefore hbreak]
      obtain ⟨first, after, rfl, hnone⟩ := List.eq_append_cons_of_mem hbreak
      rw [List.forall_mem_append, List.forall_mem_cons] at hbefore
      rw [cleanChars_eq, List.append_assoc, List.cons_append,
        shownLines_space_break hnone hbefore.1, shownLines_append_space hbefore.2.2, hshown,
        ← hself]
      rfl
    · rw [cleanChars_eq, hfirst before hbreak, cleanChars_of_not_mem hbreak,
        cleanChars_eq (c :: rest), hself]
      cases lines <;> simp [List.intercalate_cons_cons]

/-- White space after a text is rendered as it is without the text. -/
theorem cleanChars_append_space {rest after : List Char}
    (hafter : ∀ c ∈ after, isSpace c = true) (hrest : ∀ c ∈ rest.getLast?, isSpace c = false) :
    cleanChars (rest ++ after) = cleanChars rest ++ cleanChars after := by
  have hreverse : cleanChars (after.reverse ++ rest.reverse) =
      cleanChars after.reverse ++ cleanChars rest.reverse :=
    cleanChars_space_append (by simpa using hafter) (by simpa using hrest)
  rw [← List.reverse_append, cleanChars_reverse, cleanChars_reverse, cleanChars_reverse] at hreverse
  simpa using congrArg List.reverse hreverse

theorem not_isSpace_head?_dropWhile (raw : List Char) :
    ∀ c ∈ (raw.dropWhile isSpace).head?, isSpace c = false := by
  intro c hc
  have hhead := List.head?_dropWhile_not isSpace raw
  rw [Option.mem_def.mp hc] at hhead
  exact hhead

theorem not_isSpace_getLast?_rdropWhile (raw : List Char) :
    ∀ c ∈ (raw.rdropWhile isSpace).getLast?, isSpace c = false := by
  intro c hc
  exact not_isSpace_head?_dropWhile raw.reverse c (by simpa [List.rdropWhile] using hc)

theorem cleanChars_split_start (raw : List Char) : cleanChars raw =
    cleanChars (raw.takeWhile isSpace) ++ cleanChars (raw.dropWhile isSpace) := by
  rw [← cleanChars_space_append (fun c hc => List.mem_takeWhile_imp hc)
    (not_isSpace_head?_dropWhile raw), List.takeWhile_append_dropWhile]

theorem cleanChars_split_end (raw : List Char) : cleanChars raw =
    cleanChars (raw.rdropWhile isSpace) ++ cleanChars (raw.rtakeWhile isSpace) := by
  rw [← cleanChars_append_space (fun c hc => List.mem_rtakeWhile_imp hc)
    (not_isSpace_getLast?_rdropWhile raw), List.rdropWhile_append_rtakeWhile]

/-- A text that starts with a visible character is rendered from that character on. -/
theorem head?_cleanChars {raw : List Char} (h : ∀ c ∈ raw.head?, isSpace c = false) :
    (cleanChars raw).head? = raw.head? := by
  cases raw with
  | nil => rfl
  | cons c rest =>
    obtain ⟨line, lines, -, hfirst⟩ := shownLines_visible (h c rfl) rest
    have hself : shownLines true (c :: rest) = (c :: line) :: lines := hfirst [] (by simp)
    rw [cleanChars_eq, hself]
    cases lines <;> simp [List.intercalate_cons_cons]

theorem getLast?_cleanChars {raw : List Char} (h : ∀ c ∈ raw.getLast?, isSpace c = false) :
    (cleanChars raw).getLast? = raw.getLast? := by
  have hreverse : (cleanChars raw.reverse).head? = raw.reverse.head? :=
    head?_cleanChars (by simpa using h)
  simpa [cleanChars_reverse] using hreverse

theorem isSpace_of_mem_cleanChars {raw : List Char} (hraw : ∀ c ∈ raw, isSpace c = true) :
    ∀ c ∈ cleanChars raw, isSpace c = true := by
  intro c hc
  by_cases hbreak : '\n' ∈ raw
  · rw [cleanChars_of_space hraw hbreak] at hc
    cases hc
  · rw [cleanChars_of_not_mem hbreak] at hc
    obtain ⟨d, hd, rfl⟩ := List.mem_map.mp hc
    exact isSpace_untab (hraw d hd)

/-! ### Line breaks of two characters -/

theorem joinLineBreaks_of_not_mem {line : List Char} (h : '\n' ∉ line) :
    joinLineBreaks line = line := by
  fun_induction joinLineBreaks line with
  | case1 => rfl
  | case2 => simp at h
  | case3 c rest _ ih => rw [ih (fun hrest => h (List.mem_cons_of_mem _ hrest))]

/-- A line loses at most the carriage return at its end. -/
theorem joinLineBreaks_append_break {line : List Char} (hline : '\n' ∉ line) (rest : List Char) :
    ∃ kept, joinLineBreaks (line ++ '\n' :: rest) = kept ++ '\n' :: joinLineBreaks rest ∧
      (line = kept ∨ line = kept ++ ['\r']) := by
  induction line with
  | nil => exact ⟨[], by simp [joinLineBreaks], .inl rfl⟩
  | cons c line ih =>
    rw [List.mem_cons, not_or] at hline
    by_cases hreturn : c = '\r' ∧ line = []
    · obtain ⟨rfl, rfl⟩ := hreturn
      exact ⟨[], by simp [joinLineBreaks], .inr rfl⟩
    · obtain ⟨kept, hkept, hline'⟩ := ih hline.2
      refine ⟨c :: kept, ?_, ?_⟩
      · rw [List.cons_append, joinLineBreaks, hkept, List.cons_append]
        rintro after rfl heq
        cases line with
        | nil => exact hreturn ⟨rfl, rfl⟩
        | cons d line => simp_all
      · rcases hline' with rfl | rfl
        · exact .inl rfl
        · exact .inr rfl

theorem cleanLine_append_return (first : Bool) (line : List Char) :
    cleanLine first false (line ++ ['\r']) = cleanLine first false line := by
  have hreturn : ∀ c ∈ ['\r'].map untab, isSpace c = true :=
    List.all_eq_true.mp (by decide)
  cases first
  · simp only [cleanLine_eq, List.map_append, Bool.false_eq_true, if_false]
    rw [← Text.dropWhile_rdropWhile, Text.rdropWhile_append_of_pos hreturn,
      Text.dropWhile_rdropWhile]
  · simp only [cleanLine_eq, List.map_append, Bool.false_eq_true, if_false, if_true]
    rw [Text.rdropWhile_append_of_pos hreturn]

theorem cleanLines_joinLineBreaks (first : Bool) (raw : List Char) :
    cleanLines first (splitLines (joinLineBreaks raw)) = cleanLines first (splitLines raw) := by
  by_cases h : '\n' ∈ raw
  · obtain ⟨line, rest, rfl, hline⟩ := List.eq_append_cons_of_mem h
    have ih := cleanLines_joinLineBreaks false rest
    obtain ⟨kept, hkept, hcases⟩ := joinLineBreaks_append_break hline rest
    have hbreak : '\n' ∉ kept := by
      rcases hcases with rfl | rfl
      · exact hline
      · exact fun hmem => hline (List.mem_append_left _ hmem)
    have hclean : cleanLine first false line = cleanLine first false kept := by
      rcases hcases with rfl | rfl
      · rfl
      · exact cleanLine_append_return first kept
    rw [hkept, splitLines_append_break, splitLines_append_break, splitLines_of_not_mem hbreak,
      splitLines_of_not_mem hline]
    simp [cleanLines, ih, hclean, isEmpty_splitLines]
  · rw [joinLineBreaks_of_not_mem h]
termination_by raw.length

/-- How line breaks are written is not rendered. -/
theorem cleanChars_joinLineBreaks (raw : List Char) :
    cleanChars (joinLineBreaks raw) = cleanChars raw := by
  rw [cleanChars, cleanLines_joinLineBreaks, cleanChars]

end Markup

end Phrasebook
