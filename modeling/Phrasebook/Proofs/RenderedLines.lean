import Phrasebook.Proofs.Planning

/-!
Markup text line by line. A second account of how it is rendered goes through the lines with the
position of the last one that shows anything, and ends every other line that is kept with a space.
Both accounts agree as long as a carriage return belongs to a line break. Whatever the text is,
cleaning it leaves one line without tabs, and nothing to clean.
-/
namespace Phrasebook

open Script

namespace Text

variable {α : Type} {p q : α → Bool} {l : List α}

theorem dropWhile_congr (h : ∀ a ∈ l, p a = q a) : l.dropWhile p = l.dropWhile q := by
  induction l with
  | nil => rfl
  | cons a l ih =>
    rw [List.forall_mem_cons] at h
    rw [List.dropWhile_cons, List.dropWhile_cons, h.1, ih h.2]

theorem rdropWhile_congr (h : ∀ a ∈ l, p a = q a) : l.rdropWhile p = l.rdropWhile q := by
  rw [List.rdropWhile, List.rdropWhile, dropWhile_congr fun a ha => h a (List.mem_reverse.mp ha)]

end Text

namespace Markup

/-! ### The text rule of markup -/

/-- The lines of a text, between line breaks of one character or two. -/
def breakLines : List Char → List (List Char)
  | [] => [[]]
  | '\r' :: '\n' :: rest => [] :: breakLines rest
  | '\n' :: rest => [] :: breakLines rest
  | c :: rest => (breakLines rest).modifyHead (c :: ·)

/-- A carriage return stands only in line breaks. -/
def returnsInBreaks : List Char → Bool
  | [] => true
  | c :: rest => (c != '\r' || rest.head? == some '\n') && returnsInBreaks rest

def showsAnything (line : List Char) : Bool := line.any fun c => c != ' ' && c != '\t'

/-- The position of the last line that shows anything; the first one if none does. -/
def lastShown (lines : List (List Char)) : Nat :=
  lines.zipIdx.foldl (fun last (line, i) => if showsAnything line then i else last) 0

/-- The line at position `i` of `count`, with its tabs as spaces, without spaces before it unless it
is the first and without spaces after it unless it is the last. -/
def strippedLine (count i : Nat) (line : List Char) : List Char :=
  let spaced := line.map untab
  let started := if i == 0 then spaced else spaced.dropWhile (· == ' ')
  if i + 1 == count then started else started.rdropWhile (· == ' ')

/-- A line that is not empty, followed by a space unless it is the one at position `last`. -/
def spacedLine (last : Nat) (line : List Char × Nat) : List Char :=
  if line.1.isEmpty then [] else if line.2 == last then line.1 else line.1 ++ [' ']

/-- The text as its lines are rendered. -/
def renderedByLine (raw : List Char) : List Char :=
  let lines := breakLines raw
  (lines.mapIdx (strippedLine lines.length)).zipIdx.flatMap (spacedLine (lastShown lines))

/-! ### Lines -/

theorem splitLines_cons {c : Char} (hc : c ≠ '\n') (rest : List Char) :
    splitLines (c :: rest) = (splitLines rest).modifyHead (c :: ·) := by
  obtain ⟨line, lines, hlines⟩ := List.exists_cons_of_ne_nil (splitLines_ne_nil rest)
  rw [← List.singleton_append, splitLines_append (by simpa using Ne.symm hc) hlines, hlines]
  rfl

theorem breakLines_eq (raw : List Char) : breakLines raw = splitLines (joinLineBreaks raw) := by
  fun_induction breakLines raw with
  | case1 => rfl
  | case2 rest ih => simp [joinLineBreaks, splitLines, ih]
  | case3 rest ih => simp [joinLineBreaks, splitLines, ih]
  | case4 c rest hreturn hfeed ih =>
    rw [joinLineBreaks, splitLines_cons (fun heq => hfeed heq), ih]
    exact hreturn

/-- A line holds no character of a line break. -/
def IsLine (line : List Char) : Prop := '\r' ∉ line ∧ '\n' ∉ line

theorem isLine_nil : IsLine [] := ⟨List.not_mem_nil, List.not_mem_nil⟩

theorem IsLine.cons {c : Char} {line : List Char} (h : IsLine line) (hreturn : c ≠ '\r')
    (hfeed : c ≠ '\n') : IsLine (c :: line) :=
  ⟨List.not_mem_cons_of_ne_of_not_mem hreturn.symm h.1,
    List.not_mem_cons_of_ne_of_not_mem hfeed.symm h.2⟩

theorem isLine_of_mem_breakLines {raw : List Char} (h : returnsInBreaks raw = true) :
    ∀ line ∈ breakLines raw, IsLine line := by
  fun_induction breakLines raw with
  | case1 => exact List.forall_mem_singleton.mpr isLine_nil
  | case2 rest ih =>
    simp only [returnsInBreaks, Bool.and_eq_true] at h
    exact List.forall_mem_cons.mpr ⟨isLine_nil, ih h.2.2⟩
  | case3 rest ih =>
    simp only [returnsInBreaks, Bool.and_eq_true] at h
    exact List.forall_mem_cons.mpr ⟨isLine_nil, ih h.2⟩
  | case4 c rest hreturn hfeed ih =>
    simp only [returnsInBreaks, Bool.and_eq_true, Bool.or_eq_true, bne_iff_ne, beq_iff_eq] at h
    have hc : c ≠ '\r' := by
      rintro rfl
      obtain ⟨after, rfl⟩ := List.head?_eq_some_iff.mp (h.1.resolve_left (fun hne => hne rfl))
      exact hreturn after rfl rfl
    have hlines := ih h.2
    cases hbreak : breakLines rest with
    | nil => exact List.forall_mem_nil _
    | cons line lines =>
      rw [hbreak, List.forall_mem_cons] at hlines
      exact List.forall_mem_cons.mpr ⟨hlines.1.cons hc fun heq => hfeed heq, hlines.2⟩

/-! ### Spaces at the ends of a line -/

theorem isSpace_untab_of_isLine {line : List Char} (h : IsLine line) :
    ∀ c ∈ line.map untab, isSpace c = (c == ' ') := by
  intro c hc
  obtain ⟨d, hd, rfl⟩ := List.mem_map.mp hc
  have hreturn : d ≠ '\r' := fun heq => h.1 (heq ▸ hd)
  have hfeed : d ≠ '\n' := fun heq => h.2 (heq ▸ hd)
  by_cases htab : d = '\t'
  · simp [untab, htab, isSpace]
  · simp [untab, isSpace, beq_false_of_ne htab, beq_false_of_ne hreturn, beq_false_of_ne hfeed]

/-- In a line, the only white space besides tabs are spaces. -/
theorem cleanLine_eq_strippedLine {line : List Char} (h : IsLine line) (count i : Nat) :
    cleanLine (i == 0) (i + 1 == count) line = strippedLine count i line := by
  have hspaces := isSpace_untab_of_isLine h
  have hstart : (line.map untab).dropWhile isSpace = (line.map untab).dropWhile (· == ' ') :=
    Text.dropWhile_congr hspaces
  have hstarted : ∀ c ∈ (if (i == 0) = true then line.map untab
      else (line.map untab).dropWhile (· == ' ')), isSpace c = (c == ' ') := by
    intro c hc
    split at hc
    · exact hspaces c hc
    · exact hspaces c ((List.dropWhile_sublist _).mem hc)
  simp only [cleanLine_eq, strippedLine, hstart, Text.rdropWhile_congr hstarted]

theorem cleanLines_eq_mapIdx {lines : List (List Char)} (h : ∀ line ∈ lines, IsLine line)
    (start : Nat) : cleanLines (start == 0) lines =
      lines.mapIdx fun i => strippedLine (start + lines.length) (start + i) := by
  induction lines generalizing start with
  | nil => rfl
  | cons line rest ih =>
    rw [List.forall_mem_cons] at h
    have hlast : rest.isEmpty = (start + 1 == start + (line :: rest).length) := by
      cases rest <;> simp
    have hrest : cleanLines false rest =
        rest.mapIdx fun i => strippedLine (start + 1 + rest.length) (start + 1 + i) :=
      ih h.2 (start + 1)
    rw [cleanLines, hlast, cleanLine_eq_strippedLine h.1, hrest, List.mapIdx_cons]
    simp only [List.length_cons, Nat.add_assoc, Nat.add_comm 1, Nat.add_zero]

/-! ### Joining the lines that are kept -/

theorem intercalate_append_line (lines : List (List Char)) (line : List Char) :
    [' '].intercalate (lines ++ [line]) = lines.flatMap (· ++ [' ']) ++ line := by
  induction lines with
  | nil => simp
  | cons first rest ih =>
    rw [List.cons_append, List.intercalate_cons_of_ne_nil (by simp), ih, List.flatMap_cons]
    simp

theorem flatMap_spacedLine_of_empty {last start : Nat} {lines : List (List Char)}
    (h : ∀ line ∈ lines, line = []) : (lines.zipIdx start).flatMap (spacedLine last) = [] := by
  rw [List.flatMap_eq_nil_iff]
  intro p hp
  simp [spacedLine, h p.1 (List.fst_mem_of_mem_zipIdx hp)]

theorem flatMap_spacedLine_of_before {last start : Nat} {lines : List (List Char)}
    (h : start + lines.length ≤ last) : (lines.zipIdx start).flatMap (spacedLine last) =
      (lines.filter (!·.isEmpty)).flatMap (· ++ [' ']) := by
  induction lines generalizing start with
  | nil => rfl
  | cons line rest ih =>
    rw [List.length_cons] at h
    have hlast : (start == last) = false := beq_false_of_ne (by omega)
    rw [List.zipIdx_cons, List.flatMap_cons, ih (by omega), spacedLine]
    cases hempty : line.isEmpty <;> simp [hempty, hlast]

/-- Lines are joined by single spaces if the last of them that is not empty gets none. -/
theorem flatMap_spacedLine_eq_intercalate (before : List (List Char)) {after : List (List Char)}
    {line : List Char} (hline : line ≠ []) (hafter : ∀ line ∈ after, line = []) :
    (before ++ line :: after).zipIdx.flatMap (spacedLine before.length) =
      [' '].intercalate ((before ++ line :: after).filter (!·.isEmpty)) := by
  have hshown : line.isEmpty = false := by simpa using hline
  have hnone : after.filter (!·.isEmpty) = [] := by
    rw [List.filter_eq_nil_iff]
    intro line hmem
    simp [hafter line hmem]
  have hfilter : (before ++ line :: after).filter (!·.isEmpty) =
      before.filter (!·.isEmpty) ++ [line] := by
    rw [List.filter_append, List.filter_cons_of_pos (by simp [hshown]), hnone]
  rw [hfilter, intercalate_append_line, List.zipIdx_append, List.flatMap_append, List.zipIdx_cons,
    List.flatMap_cons, flatMap_spacedLine_of_before (by omega), flatMap_spacedLine_of_empty hafter]
  simp [spacedLine, hshown]

/-! ### The last line that shows anything -/

theorem foldl_lastShown {lines : List (List Char)} (h : ∀ line ∈ lines, showsAnything line = false)
    (start last : Nat) : (lines.zipIdx start).foldl
      (fun last (line, i) => if showsAnything line then i else last) last = last := by
  induction lines generalizing start with
  | nil => rfl
  | cons line rest ih =>
    rw [List.forall_mem_cons] at h
    simp [h.1, ih h.2]

theorem lastShown_eq {before after : List (List Char)} {line : List Char}
    (hline : showsAnything line = true) (hafter : ∀ line ∈ after, showsAnything line = false) :
    lastShown (before ++ line :: after) = before.length := by
  rw [lastShown, List.zipIdx_append, List.foldl_append, List.zipIdx_cons, List.foldl_cons]
  simp only [hline, if_true, foldl_lastShown hafter, Nat.zero_add]

theorem exists_last_shown (lines : List (List Char)) :
    (∀ line ∈ lines, showsAnything line = false) ∨
    ∃ before line after, lines = before ++ line :: after ∧ showsAnything line = true ∧
      ∀ line ∈ after, showsAnything line = false := by
  induction lines with
  | nil => exact .inl (List.forall_mem_nil _)
  | cons line rest ih =>
    obtain hnone | ⟨before, last, after, rfl, hlast, hafter⟩ := ih
    · cases hline : showsAnything line with
      | true => exact .inr ⟨[], line, rest, rfl, hline, hnone⟩
      | false => exact .inl (List.forall_mem_cons.mpr ⟨hline, hnone⟩)
    · exact .inr ⟨line :: before, last, after, rfl, hlast, hafter⟩

theorem isSpace_of_not_showsAnything {line : List Char} (h : showsAnything line = false) :
    ∀ c ∈ line, isSpace c = true := by
  intro c hc
  have hblank := List.any_eq_false.mp h c hc
  by_cases hspace : c = ' '
  · simp [isSpace, hspace]
  · simp_all [isSpace]

/-- A line that shows nothing is kept only if it is both the first and the last. -/
theorem strippedLine_eq_nil {count i : Nat} {line : List Char} (h : showsAnything line = false)
    (hline : IsLine line) (hpos : i ≠ 0 ∨ i + 1 ≠ count) : strippedLine count i line = [] := by
  have hspace := isSpace_of_not_showsAnything h
  rw [← cleanLine_eq_strippedLine hline]
  rcases hpos with hfirst | hlast
  · have hnil : cleanLine false (i + 1 == count) (line ++ []) =
        cleanLine false (i + 1 == count) [] := cleanLine_append_space hspace
    rw [List.append_nil] at hnil
    rw [beq_false_of_ne hfirst, hnil]
    simp [cleanLine_eq]
  · rw [beq_false_of_ne hlast, cleanLine_of_space hspace]

theorem strippedLine_ne_nil {count i : Nat} {line : List Char} (h : showsAnything line = true)
    (hline : IsLine line) : strippedLine count i line ≠ [] := by
  intro hnil
  obtain ⟨c, hc, hshows⟩ := List.any_eq_true.mp h
  have hvisible : c ∈ visible line := by
    have hreturn : c ≠ '\r' := fun heq => hline.1 (heq ▸ hc)
    have hfeed : c ≠ '\n' := fun heq => hline.2 (heq ▸ hc)
    simp_all [visible, isSpace]
  rw [← visible_cleanLine (i == 0) (i + 1 == count), cleanLine_eq_strippedLine hline,
    hnil] at hvisible
  cases hvisible

/-- Ending every kept line but the last one shown with a space joins them by single spaces. -/
theorem strippedLines_joined {lines : List (List Char)} (h : ∀ line ∈ lines, IsLine line) :
    (lines.mapIdx (strippedLine lines.length)).zipIdx.flatMap (spacedLine (lastShown lines)) =
      [' '].intercalate ((lines.mapIdx (strippedLine lines.length)).filter (!·.isEmpty)) := by
  obtain hnone | ⟨before, line, after, rfl, hline, hafter⟩ := exists_last_shown lines
  · have hlast : lastShown lines = 0 := foldl_lastShown hnone 0 0
    rw [hlast]
    by_cases hsingle : ∃ line, lines = [line]
    · -- Without a line break, white space alone is kept.
      obtain ⟨line, rfl⟩ := hsingle
      cases hempty : (strippedLine 1 0 line).isEmpty <;> simp [spacedLine, hempty]
    · have hempty : ∀ line ∈ lines.mapIdx (strippedLine lines.length), line = [] := by
        intro line hmem
        obtain ⟨i, hi, rfl⟩ := List.mem_mapIdx.mp hmem
        have hline := List.getElem_mem hi
        refine strippedLine_eq_nil (hnone _ hline) (h _ hline) ?_
        by_contra hone
        exact hsingle (List.length_eq_one_iff.mp (by omega))
      have hfilter : (lines.mapIdx (strippedLine lines.length)).filter (!·.isEmpty) = [] := by
        rw [List.filter_eq_nil_iff]
        intro line hmem
        simp [hempty line hmem]
      rw [flatMap_spacedLine_of_empty hempty, hfilter]
      rfl
  · rw [lastShown_eq hline hafter, List.mapIdx_append, List.mapIdx_cons]
    have hkept : strippedLine (before ++ line :: after).length (0 + before.length) line ≠ [] :=
      strippedLine_ne_nil hline (h line (List.mem_append_right _ (List.mem_cons_self ..)))
    have hrest : ∀ shown ∈ after.mapIdx (fun i =>
        strippedLine (before ++ line :: after).length (i + 1 + before.length)), shown = [] := by
      intro shown hmem
      obtain ⟨i, hi, rfl⟩ := List.mem_mapIdx.mp hmem
      have hnext := List.getElem_mem hi
      exact strippedLine_eq_nil (hafter _ hnext)
        (h _ (List.mem_append_right _ (List.mem_cons_of_mem _ hnext))) (.inl (by omega))
    have hjoin := flatMap_spacedLine_eq_intercalate
      (before.mapIdx (strippedLine (before ++ line :: after).length)) hkept hrest
    rwa [List.length_mapIdx] at hjoin

theorem cleanChars_eq_renderedByLine {raw : List Char} (h : returnsInBreaks raw = true) :
    cleanChars raw = renderedByLine raw := by
  have hlines := isLine_of_mem_breakLines h
  have hkept : cleanLines true (breakLines raw) =
      (breakLines raw).mapIdx (strippedLine (breakLines raw).length) := by
    simpa using cleanLines_eq_mapIdx hlines 0
  have hbroken : cleanLines true (splitLines raw) = cleanLines true (breakLines raw) := by
    rw [breakLines_eq, cleanLines_joinLineBreaks]
  rw [cleanChars, hbroken, hkept, renderedByLine, strippedLines_joined hlines]

/-! ### What is left after cleaning -/

theorem break_not_mem_of_mem_splitLines (raw : List Char) :
    ∀ line ∈ splitLines raw, '\n' ∉ line := by
  induction raw with
  | nil => simp [splitLines]
  | cons c rest ih =>
    by_cases hc : c = '\n'
    · simpa [splitLines, hc] using ih
    · obtain ⟨line, lines, hlines⟩ := List.exists_cons_of_ne_nil (splitLines_ne_nil rest)
      rw [hlines, List.forall_mem_cons] at ih
      rw [splitLines_cons hc, hlines]
      exact List.forall_mem_cons.mpr
        ⟨List.not_mem_cons_of_ne_of_not_mem (Ne.symm hc) ih.1, ih.2⟩

theorem cleanLine_subset (first last : Bool) (line : List Char) :
    cleanLine first last line ⊆ line.map untab := by
  have hdrop : (line.map untab).dropWhile isSpace ⊆ line.map untab :=
    (List.dropWhile_sublist _).subset
  have hrdrop (text : List Char) : text.rdropWhile isSpace ⊆ text :=
    (List.rdropWhile_prefix _ _).subset
  rw [cleanLine_eq]
  cases first <;> cases last
  · exact List.Subset.trans (hrdrop _) hdrop
  · exact hdrop
  · exact hrdrop _
  · exact List.Subset.refl _

theorem exists_of_mem_cleanLines {first : Bool} {lines : List (List Char)} {shown : List Char}
    (h : shown ∈ cleanLines first lines) : ∃ line ∈ lines, shown ⊆ line.map untab := by
  induction lines generalizing first with
  | nil => cases h
  | cons line rest ih =>
    rcases List.mem_cons.mp h with rfl | h
    · exact ⟨line, List.mem_cons_self .., cleanLine_subset ..⟩
    · obtain ⟨other, hother, hsub⟩ := ih h
      exact ⟨other, List.mem_cons_of_mem _ hother, hsub⟩

theorem mem_intercalate {c : Char} {lines : List (List Char)} (h : c ∈ [' '].intercalate lines) :
    c = ' ' ∨ ∃ line ∈ lines, c ∈ line := by
  induction lines with
  | nil => cases h
  | cons line rest ih =>
    cases rest with
    | nil => exact .inr ⟨line, List.mem_cons_self .., by simpa using h⟩
    | cons next rest =>
      rw [List.intercalate_cons_cons, List.mem_append, List.mem_append] at h
      obtain (hline | hspace) | hrest := h
      · exact .inr ⟨line, List.mem_cons_self .., hline⟩
      · exact .inl (List.mem_singleton.mp hspace)
      · exact (ih hrest).imp_right fun ⟨other, hother, hc⟩ =>
          ⟨other, List.mem_cons_of_mem _ hother, hc⟩

theorem ne_of_mem_cleanChars {c : Char} {raw : List Char} (h : c ∈ cleanChars raw) :
    c ≠ '\n' ∧ c ≠ '\t' := by
  obtain rfl | ⟨shown, hshown, hc⟩ := mem_intercalate h
  · decide
  · obtain ⟨line, hline, hsub⟩ := exists_of_mem_cleanLines (List.mem_filter.mp hshown).1
    obtain ⟨d, hd, rfl⟩ := List.mem_map.mp (hsub hc)
    have hfeed : d ≠ '\n' := fun heq =>
      break_not_mem_of_mem_splitLines raw line hline (heq ▸ hd)
    by_cases htab : d = '\t'
    · simp [untab, htab]
    · simpa [untab, htab] using hfeed

/-- Nothing is left to clean. -/
theorem cleanChars_cleanChars (raw : List Char) : cleanChars (cleanChars raw) = cleanChars raw := by
  have huntab : ∀ c ∈ cleanChars raw, untab c = id c := by
    intro c hc
    simp [untab, (ne_of_mem_cleanChars hc).2]
  rw [cleanChars_of_not_mem fun h => (ne_of_mem_cleanChars h).1 rfl, List.map_congr_left huntab,
    List.map_id]

/-- A text whose carriage returns all belong to line breaks is cleaned as the text rule of markup
says. Any text is cleaned to one without line feeds and tabs, which cleaning does not change again;
it has the same visible characters in the same order, so it has target text just if there was some. -/
theorem clean_by_line (raw : String) :
    (returnsInBreaks raw.toList = true → clean raw = String.ofList (renderedByLine raw.toList)) ∧
      '\n' ∉ (clean raw).toList ∧ '\t' ∉ (clean raw).toList ∧
      clean (clean raw) = clean raw ∧
      (clean raw).toList.filter (!isSpace ·) = raw.toList.filter (!isSpace ·) ∧
      Text.hasTarget (clean raw) = Text.hasTarget raw := by
  have hchars : (clean raw).toList = cleanChars raw.toList := String.toList_ofList
  refine ⟨?_, ?_, ?_, ?_, ?_, hasTarget_clean raw⟩
  · intro hreturns
    rw [clean, cleanChars_eq_renderedByLine hreturns]
  · rw [hchars]
    exact fun h => (ne_of_mem_cleanChars h).1 rfl
  · rw [hchars]
    exact fun h => (ne_of_mem_cleanChars h).2 rfl
  · rw [clean, hchars, cleanChars_cleanChars, clean]
  · rw [hchars]
    exact visible_cleanChars raw.toList

/-- Lines that end in two characters, some of them blank, with tabs and spaces around. -/
theorem clean_by_line_breaks :
    let raw := "\t甲 \r\n \t\r\n  乙\t丙 \r\n\r\n丁\t\n "
    returnsInBreaks raw.toList = true ∧ clean raw = " 甲 乙 丙 丁" ∧
      clean raw = String.ofList (renderedByLine raw.toList) := by
  intro raw
  have hreturns : returnsInBreaks raw.toList = true := by decide +kernel
  exact ⟨hreturns, by decide +kernel, (clean_by_line raw).1 hreturns⟩

/-- A carriage return on its own is no line break here. -/
example : clean "甲\r 乙" = "甲\r 乙" ∧ returnsInBreaks "甲\r 乙".toList = false := by
  decide +kernel

end Markup

end Phrasebook
