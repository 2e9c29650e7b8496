import Phrasebook.Proofs.Statements
import Phrasebook.Script.Source

/-!
A module as the list of its items. Each item is read on its own from its first token, so where two
texts go on alike, so do their items.
-/
namespace Phrasebook.Script

open Text (byteLength)

/-! ### The first token of a text -/

/-- The text from its first token on. -/
def tokenStart? (text : List Char) : Option (List Char) :=
  (skipTrivia (text.length + 1) ⟨text, 0⟩ false).map (·.1.rest)

section

variable {text start : List Char} {i : Input} {fuel : Nat}

theorem map_skipTrivia (h : i.rest.length < fuel) :
    (skipTrivia fuel i false).map (·.1.rest) = tokenStart? i.rest := by
  have hsame : (skipTrivia fuel i false).map _ = _ :=
    skipTrivia_congr (i := ⟨i.rest, 0⟩) rfl (Nat.lt_succ_self _) h
  have hmap := congrArg (Option.map Prod.fst) hsame
  simpa only [tokenStart?, Option.map_map, Function.comp_def] using hmap

theorem tokenStart?_solid (h : startsGap false text = false) : tokenStart? text = some text := by
  have hskip : skipTrivia (text.length + 1) ⟨text, 0⟩ false = _ := skipTrivia_solid h
  rw [tokenStart?, hskip]
  rfl

theorem startsGap_tokenStart? (h : tokenStart? text = some start) :
    startsGap false start = false := by
  obtain ⟨⟨first, lines⟩, hskip, rfl⟩ := Option.map_eq_some_iff.mp h
  have hsolid := startsGap_skipTrivia hskip
  cases lines with
  | false => exact hsolid
  | true => exact startsGap_mono hsolid

theorem tokenStart?_tokenStart? (h : tokenStart? text = some start) :
    tokenStart? start = some start :=
  tokenStart?_solid (startsGap_tokenStart? h)

/-- A line break in front changes nothing, except where an arrow ends a comment. -/
theorem tokenStart?_break (h : startsGap true text = false) :
    tokenStart? ('\n' :: text) = some text := by
  have hbreak : skipTrivia (text.length + 1 + 1) ⟨'\n' :: text, 0⟩ false =
      skipTrivia (text.length + 1) ⟨text, 0 + '\n'.utf8Size⟩ true := skipTrivia_break (by decide)
  have hskip : skipTrivia (text.length + 1) ⟨text, 0 + '\n'.utf8Size⟩ true = _ := skipTrivia_solid h
  rw [tokenStart?, List.length_cons, hbreak, hskip]
  rfl

theorem tokenStart?_break_end (h : tokenStart? text = some []) :
    tokenStart? ('\n' :: text) = some [] := by
  obtain ⟨⟨first, lines⟩, hskip, hfirst⟩ := Option.map_eq_some_iff.mp h
  have hend : first.rest = [] := hfirst
  obtain ⟨lines', hbroken⟩ := skipTrivia_to_end hskip hend true
  have hbreak : skipTrivia (text.length + 1 + 1) ⟨'\n' :: text, 0⟩ false =
      skipTrivia (text.length + 1) ⟨text, 0 + '\n'.utf8Size⟩ true := skipTrivia_break (by decide)
  have hsame : (skipTrivia (text.length + 1) ⟨text, 0 + '\n'.utf8Size⟩ true).map _ = _ :=
    skipTrivia_congr (i := ⟨text, 0⟩) rfl (Nat.lt_succ_self _) (Nat.lt_succ_self _)
  rw [Bool.false_or] at hbroken
  rw [hbroken] at hsame
  have hmap := congrArg (Option.map Prod.fst) hsame
  rw [tokenStart?, List.length_cons, hbreak]
  simpa only [Option.map_map, Function.comp_def, Option.map_some, hend] using hmap

/-- What stands before a token is skipped alike before any other one. -/
theorem exists_before_tokenStart? (h : tokenStart? text = some start) (hne : start ≠ []) :
    ∃ lead, text = lead ++ start ∧
      ∀ other, startsGap true other = false → tokenStart? (lead ++ other) = some other := by
  obtain ⟨⟨first, lines⟩, hskip, rfl⟩ := Option.map_eq_some_iff.mp h
  obtain ⟨lead, htext, -, hother⟩ := skipsTo_of_skipTrivia hskip hne
  refine ⟨lead, htext, fun other hsolid => ?_⟩
  rw [tokenStart?, hother other _ (startsGap_mono hsolid) (Nat.lt_succ_self _)]
  rfl

/-- The token behind the cursor is the first one of the text there. -/
theorem tokenStart?_next {c : Cursor} (h : c.stop.rest.length < c.fuel) :
    tokenStart? c.next.start.rest = tokenStart? c.stop.rest := by
  unfold Cursor.next Cursor.readFrom
  have hmap := map_skipTrivia h
  cases hskip : skipTrivia c.fuel c.stop false with
  | none => rfl
  | some found =>
    rw [hskip, Option.map_some] at hmap
    dsimp only
    rw [← hmap]
    exact tokenStart?_tokenStart? hmap.symm

end

/-! ### Items -/

/-- The item at the start of a text, with offsets from there, and the text from the token behind it
on. -/
def passItem (markup : Bool) (start : List Char) : Option (Node × List Char) :=
  if start.isEmpty then none
  else
    match readItem markup start with
    | .ok item behind => some (item, behind.start.rest)
    | .error .. => none

/-- The first items of a text and the text from the token behind them on. -/
def passItems (markup : Bool) : Nat → List Char → Option (List Node × List Char)
  | 0, text => do
    return ([], ← tokenStart? text)
  | count + 1, text => do
    let (item, rest) ← passItem markup (← tokenStart? text)
    let (items, rest) ← passItems markup count rest
    return (item :: items, rest)

section

variable {markup : Bool} {text start rest mid : List Char} {item : Node}
  {items read more : List Node} {count m n : Nat}

theorem passItem_of_read {behind : Cursor} (h : readItem markup start = .ok item behind)
    (hne : start ≠ []) : passItem markup start = some (item, behind.start.rest) := by
  rw [passItem, if_neg (by simpa using hne), h]

theorem passItem_inv (h : passItem markup start = some (item, rest)) :
    start ≠ [] ∧ ∃ behind, readItem markup start = .ok item behind ∧ behind.start.rest = rest := by
  unfold passItem at h
  split at h
  · cases h
  · rename_i hne
    split at h
    · rename_i behind hread
      cases h
      exact ⟨by simpa using hne, behind, hread, rfl⟩
    · cases h

theorem passItems_zero (h : tokenStart? text = some rest) :
    passItems markup 0 text = some ([], rest) := by
  rw [passItems, h]
  rfl

theorem passItems_succ (hstart : tokenStart? text = some start)
    (hitem : passItem markup start = some (item, mid))
    (hitems : passItems markup count mid = some (items, rest)) :
    passItems markup (count + 1) text = some (item :: items, rest) := by
  rw [passItems, hstart]
  simp only [bind, Option.bind_some, hitem, hitems]
  rfl

theorem passItems_zero_inv (h : passItems markup 0 text = some (items, rest)) :
    items = [] ∧ tokenStart? text = some rest := by
  simp only [passItems, bind, Option.bind_eq_some_iff] at h
  obtain ⟨start, hstart, hnone⟩ := h
  cases hnone
  exact ⟨rfl, hstart⟩

/-- What a text of more than no items starts with. -/
theorem passItems_succ_inv (h : passItems markup (count + 1) text = some (items, rest)) :
    ∃ start item mid more, tokenStart? text = some start ∧
      passItem markup start = some (item, mid) ∧
      passItems markup count mid = some (more, rest) ∧ items = item :: more := by
  simp only [passItems, bind, Option.bind_eq_some_iff] at h
  obtain ⟨start, hstart, ⟨item, mid⟩, hitem, ⟨more, rest'⟩, hitems, hmore⟩ := h
  cases hmore
  exact ⟨start, item, mid, more, hstart, hitem, hitems, rfl⟩

theorem length_of_passItems (h : passItems markup count text = some (items, rest)) :
    items.length = count := by
  induction count generalizing text items with
  | zero =>
    obtain ⟨rfl, -⟩ := passItems_zero_inv h
    rfl
  | succ count ih =>
    obtain ⟨_, _, _, _, -, -, hitems, rfl⟩ := passItems_succ_inv h
    rw [List.length_cons, ih hitems]

/-- What stands before the first token changes no items. -/
theorem passItems_congr {other : List Char} (h : tokenStart? text = tokenStart? other) :
    passItems markup count text = passItems markup count other := by
  cases count with
  | zero => rw [passItems, passItems, h]
  | succ count => rw [passItems, passItems, h]

theorem tokenStart?_passItems (h : passItems markup count text = some (items, rest)) :
    tokenStart? rest = some rest := by
  induction count generalizing text items with
  | zero =>
    exact tokenStart?_tokenStart? (passItems_zero_inv h).2
  | succ count ih =>
    obtain ⟨_, _, _, _, -, -, hitems, -⟩ := passItems_succ_inv h
    exact ih hitems

/-- Items behind others are read from where those end. -/
theorem passItems_append (h : passItems markup m text = some (items, mid))
    (hmore : passItems markup n mid = some (more, rest)) :
    passItems markup (m + n) text = some (items ++ more, rest) := by
  induction m generalizing text items with
  | zero =>
    obtain ⟨rfl, hstart⟩ := passItems_zero_inv h
    rw [Nat.zero_add, passItems_congr (hstart.trans (tokenStart?_tokenStart? hstart).symm)]
    exact hmore
  | succ m ih =>
    obtain ⟨start, item, behind, others, hstart, hitem, hitems, rfl⟩ := passItems_succ_inv h
    rw [Nat.succ_add]
    exact passItems_succ hstart hitem (ih hitems)

/-- Items can be read in two parts. -/
theorem passItems_split (h : passItems markup (m + n) text = some (read, rest)) :
    ∃ items mid more, passItems markup m text = some (items, mid) ∧
      passItems markup n mid = some (more, rest) ∧ read = items ++ more := by
  induction m generalizing text read with
  | zero =>
    rw [Nat.zero_add] at h
    obtain ⟨start, hstart⟩ : ∃ start, tokenStart? text = some start := by
      cases hstart : tokenStart? text with
      | none => cases n <;> simp [passItems, hstart] at h
      | some start => exact ⟨start, rfl⟩
    rw [passItems_congr (hstart.trans (tokenStart?_tokenStart? hstart).symm)] at h
    exact ⟨[], start, read, passItems_zero hstart, h, rfl⟩
  | succ m ih =>
    rw [Nat.succ_add] at h
    obtain ⟨start, item, behind, others, hstart, hitem, hitems, rfl⟩ := passItems_succ_inv h
    obtain ⟨items, mid, more, hfirst, hmore, rfl⟩ := ih hitems
    exact ⟨item :: items, mid, more, passItems_succ hstart hitem hfirst, hmore, rfl⟩

end

/-! ### Whole modules -/

/-- A text where a module goes on after the line that names an interpreter. -/
def moduleText (text : List Char) : List Char := (skipHashbang text).rest

theorem moduleText_eq_self {text : List Char} (h : text.head? ≠ some '#') :
    moduleText text = text := by
  unfold moduleText skipHashbang
  split
  · exact absurd rfl h
  · rfl

theorem moduleText_hashbang (text : List Char) :
    moduleText ('#' :: '!' :: text) = (skipLineComment text 2).rest := rfl

/-- Before the first token a module starts alike whatever the token is. -/
theorem tokenStart?_moduleText {before start other : List Char}
    (h : tokenStart? (moduleText (before ++ start)) = some start) (hne : start ≠ [])
    (hother : startsGap true other = false) (hhead : other.head? ≠ some '#') :
    tokenStart? (moduleText (before ++ other)) = some other := by
  obtain ⟨lead, hlead, hskip⟩ := exists_before_tokenStart? h hne
  by_cases hline : ∃ tail, before ++ start = '#' :: '!' :: tail
  · obtain ⟨tail, htail⟩ := hline
    rw [htail, moduleText_hashbang] at hlead
    obtain ⟨comment, rfl, -, hread⟩ :=
      exists_lineComment_before hlead hne (startsGap_tokenStart? h)
    obtain rfl : before = '#' :: '!' :: (comment ++ lead) :=
      List.append_cancel_right (htail.trans rfl)
    rw [List.cons_append, List.cons_append, moduleText_hashbang, List.append_assoc, hread]
    exact hskip other hother
  · have hplain : moduleText (before ++ start) = before ++ start := by
      unfold moduleText skipHashbang
      split
      · exact absurd ⟨_, ‹_›⟩ hline
      · rfl
    rw [hplain] at hlead
    obtain rfl : before = lead := List.append_cancel_right hlead
    rw [moduleText_eq_self]
    · exact hskip other hother
    · cases before with
      | nil => exact hhead
      | cons c lead =>
        -- a text that starts with the mark is no gap
        rintro ⟨⟩
        have hsolid : tokenStart? ('#' :: (lead ++ start)) = some _ := tokenStart?_solid rfl
        rw [hplain] at h
        have hlength := congrArg List.length (Option.some.inj (hsolid.symm.trans h))
        simp only [List.length_cons, List.length_append] at hlength
        omega

section

variable {markup : Bool} {start rest : List Char} {item : Node} {items read : List Node}
  {i behind : Input} {fuel count last last' : Nat}

theorem nextItem_of_skip {first : Input} {lines : Bool}
    (h : skipTrivia (i.rest.length + 1) i false = some (first, lines)) :
    tokenStart? i.rest = some first.rest := by
  rw [← map_skipTrivia (Nat.lt_succ_self _), h]
  rfl

theorem nextItem_none (h : nextItem markup i = .ok none) : tokenStart? i.rest = some [] := by
  unfold nextItem at h
  split at h
  · cases h
  · rename_i first lines hskip
    rw [nextItem_of_skip hskip]
    split at h
    · rename_i hempty
      rw [List.isEmpty_iff.mp hempty]
    · split at h <;> cases h

theorem nextItem_some (h : nextItem markup i = .ok (some (item, last, behind))) :
    ∃ start found, tokenStart? i.rest = some start ∧
      passItem markup start = some (found, behind.rest) ∧ found.alike item = true := by
  unfold nextItem at h
  split at h
  · cases h
  · rename_i first lines hskip
    refine ⟨first.rest, ?_⟩
    split at h
    · cases h
    · rename_i hne
      split at h
      · cases h
      · rename_i found next hread
        cases h
        exact ⟨found, nextItem_of_skip hskip, passItem_of_read hread (by simpa using hne),
          found.alike_shift _⟩

theorem nextItem_of_end (h : tokenStart? i.rest = some []) : nextItem markup i = .ok none := by
  rw [← map_skipTrivia (Nat.lt_succ_self _)] at h
  obtain ⟨⟨first, lines⟩, hskip, hend⟩ := Option.map_eq_some_iff.mp h
  have hempty : first.rest.isEmpty = true := List.isEmpty_iff.mpr hend
  simp only [nextItem, hskip, hempty, if_true]

theorem nextItem_of_passItem (hstart : tokenStart? i.rest = some start)
    (h : passItem markup start = some (item, rest)) :
    ∃ found last behind, nextItem markup i = .ok (some (found, last, behind)) ∧
      item.alike found = true ∧ behind.rest = rest := by
  rw [← map_skipTrivia (Nat.lt_succ_self _)] at hstart
  obtain ⟨⟨first, lines⟩, hskip, hfirst⟩ := Option.map_eq_some_iff.mp hstart
  subst hfirst
  obtain ⟨hne, next, hread, rfl⟩ := passItem_inv h
  simp only [nextItem, hskip, hread]
  rw [if_neg (by simpa using hne)]
  exact ⟨_, _, _, rfl, Node.alike_shift .., rfl⟩

/-- The items of a module are those that its text passes up to the end. -/
theorem passItems_of_readItems (h : readItems markup fuel i last = .ok (items, last')) :
    items.length < fuel ∧ ∃ read, passItems markup items.length i.rest = some (read, []) ∧
      alikeAll read items = true := by
  induction fuel generalizing i last items with
  | zero => cases h
  | succ fuel ih =>
    simp only [readItems, bind, Except.bind] at h
    split at h
    · cases h
    · rename_i next hnext
      split at h
      · cases h
        exact ⟨Nat.succ_pos _, [], passItems_zero (nextItem_none hnext), rfl⟩
      · rename_i item last behind
        split at h
        · cases h
        · rename_i found hmore
          cases h
          obtain ⟨hcount, read, hread, halike⟩ := ih hmore
          obtain ⟨start, first, hstart, hitem, hfirst⟩ := nextItem_some hnext
          exact ⟨Nat.succ_lt_succ hcount, first :: read, passItems_succ hstart hitem hread,
            Bool.and_eq_true_iff.mpr ⟨hfirst, halike⟩⟩

theorem readItems_of_passItems (h : passItems markup count i.rest = some (read, []))
    (hfuel : count < fuel) (last : Nat) :
    ∃ items last', readItems markup fuel i last = .ok (items, last') ∧
      alikeAll read items = true := by
  induction count generalizing fuel i last read with
  | zero =>
    obtain ⟨fuel, rfl⟩ : ∃ n, fuel = n + 1 := ⟨fuel - 1, by omega⟩
    obtain ⟨rfl, hstart⟩ := passItems_zero_inv h
    refine ⟨[], last, ?_, rfl⟩
    simp only [readItems, bind, Except.bind, nextItem_of_end hstart]
    rfl
  | succ count ih =>
    obtain ⟨fuel, rfl⟩ : ∃ n, fuel = n + 1 := ⟨fuel - 1, by omega⟩
    obtain ⟨start, item, mid, more, hstart, hitem, hitems, rfl⟩ := passItems_succ_inv h
    obtain ⟨found, here, behind, hnext, hfound, rfl⟩ := nextItem_of_passItem hstart hitem
    obtain ⟨items, last', hread, halike⟩ := ih hitems (Nat.lt_of_succ_lt_succ hfuel) here
    refine ⟨found :: items, last', ?_, Bool.and_eq_true_iff.mpr ⟨hfound, halike⟩⟩
    simp only [readItems, bind, Except.bind, hnext, hread]
    rfl

end

namespace Source

variable {markup : Bool} {text : List Char} {code : String} {source : Source} {read : List Node}
  {count : Nat}

theorem passItems_of_read (h : Source.read markup code = .ok source)
    (hmark : withoutMark code.toList = code.toList) :
    source.tree.children.length ≤ code.toList.length ∧ ∃ read,
      passItems markup source.tree.children.length (moduleText code.toList) = some (read, []) ∧
      alikeAll read source.tree.children = true := by
  simp only [Source.read, parseModule, hmark, bind, Except.bind] at h
  split at h
  · cases h
  · rename_i tree htree
    split at htree
    · cases htree
    · rename_i found hitems
      cases htree
      cases h
      obtain ⟨hcount, hread⟩ := passItems_of_readItems hitems
      exact ⟨Nat.le_of_lt_succ hcount, hread⟩

theorem read_of_passItems (h : passItems markup count (moduleText text) = some (read, []))
    (hmark : withoutMark text = text) (hcount : count ≤ text.length) :
    ∃ source, Source.read markup (String.ofList text) = .ok source ∧
      alikeAll read source.tree.children = true := by
  obtain ⟨items, last, hitems, halike⟩ :=
    readItems_of_passItems h (Nat.lt_succ_of_le hcount) (skipHashbang text).pos
  refine ⟨⟨text, .mk .module ⟨0, last⟩ items⟩, ?_, halike⟩
  simp only [Source.read, parseModule, String.toList_ofList, hmark, bind, Except.bind, hitems]
  rfl

end Source

end Phrasebook.Script
