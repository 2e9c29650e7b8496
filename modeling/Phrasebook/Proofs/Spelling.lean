import Phrasebook.Proofs.Json
import Phrasebook.Proofs.Shifting

/-!
How tokens are spelled. What stands between tokens is skipped whatever comes after it, and a name, a
quoted text or a mark is read as its token before whatever does not go on with it.
-/
namespace Phrasebook.Script

open Text (byteLength)

/-! ### White space and comments -/

/-- The text starts with white space or a comment; the closing mark of a comment in markup is one at
the start of a line. -/
def startsGap (broken : Bool) : List Char → Bool
  | '/' :: '/' :: _ | '/' :: '*' :: _ | '<' :: '!' :: '-' :: '-' :: _ => true
  | '-' :: '-' :: '>' :: _ => broken
  | c :: _ => isLineBreak c || isBlank c
  | [] => false

theorem startsGap_mono {text : List Char} (h : startsGap true text = false) {broken : Bool} :
    startsGap broken text = false := by
  unfold startsGap at h ⊢
  split at h
  any_goals cases h; done
  · exact h
  · rfl

section

variable {fuel : Nat} {i first : Input} {broken lines : Bool}

theorem skipTrivia_solid (h : startsGap broken i.rest = false) :
    skipTrivia (fuel + 1) i broken = some (i, broken) := by
  obtain ⟨rest, pos⟩ := i
  dsimp only at h
  unfold startsGap at h
  split at h
  any_goals cases h; done
  · simp [skipTrivia, h]
  · obtain ⟨hbreak, hblank⟩ := Bool.or_eq_false_iff.mp h
    rw [skipTrivia]
    simp [hbreak, hblank]
  · rfl

theorem skipTrivia_break {c : Char} {rest : List Char} {pos : Nat} (h : isLineBreak c = true) :
    skipTrivia (fuel + 1) ⟨c :: rest, pos⟩ broken =
      skipTrivia fuel ⟨rest, pos + c.utf8Size⟩ true := by
  have hmark : c ≠ '/' ∧ c ≠ '<' ∧ c ≠ '-' := by
    refine ⟨?_, ?_, ?_⟩ <;> rintro rfl <;> exact absurd h (by decide)
  simp [skipTrivia, h, hmark]

theorem skipTrivia_blank {c : Char} {rest : List Char} {pos : Nat} (hbreak : isLineBreak c = false)
    (h : isBlank c = true) :
    skipTrivia (fuel + 1) ⟨c :: rest, pos⟩ broken =
      skipTrivia fuel ⟨rest, pos + c.utf8Size⟩ broken := by
  have hmark : c ≠ '/' ∧ c ≠ '<' ∧ c ≠ '-' := by
    refine ⟨?_, ?_, ?_⟩ <;> rintro rfl <;> exact absurd h (by decide)
  simp [skipTrivia, hbreak, h, hmark]

theorem startsGap_skipTrivia (h : skipTrivia fuel i broken = some (first, lines)) :
    startsGap lines first.rest = false := by
  induction fuel generalizing i broken with
  | zero => cases h
  | succ fuel ih =>
    obtain ⟨rest, pos⟩ := i
    unfold skipTrivia at h
    dsimp only at h
    split at h
    · exact ih h
    · simp only [bind, Option.bind_eq_some_iff] at h
      obtain ⟨_, -, hmore⟩ := h
      exact ih hmore
    · exact ih h
    · split at h
      · exact ih h
      · cases h
        simp_all [startsGap]
    · split at h
      · exact ih h
      · split at h
        · exact ih h
        · cases h
          simp_all [startsGap]
    · cases h
      rfl

theorem isLineBreak_eq_false {c : Char} {rest : List Char}
    (h : startsGap broken (c :: rest) = false) : isLineBreak c = false := by
  unfold startsGap at h
  split at h
  any_goals cases h; done
  · rename_i heq
    cases heq
    decide
  · rename_i heq
    cases heq
    exact (Bool.or_eq_false_iff.mp h).1
  · rename_i heq
    cases heq

theorem skipLineComment_append {comment rest : List Char}
    (hcomment : ∀ c ∈ comment, isLineBreak c = false)
    (hrest : ∀ c ∈ rest.head?, isLineBreak c = true) (pos : Nat) :
    skipLineComment (comment ++ rest) pos = ⟨rest, pos + byteLength comment⟩ := by
  induction comment generalizing pos with
  | nil =>
    cases rest with
    | nil => rfl
    | cons c rest => simp [skipLineComment, hrest c rfl, byteLength]
  | cons c comment ih =>
    have hc := hcomment c (List.mem_cons_self ..)
    simp [skipLineComment, hc, ih (fun d hd => hcomment d (List.mem_cons_of_mem _ hd)), byteLength,
      Nat.add_assoc]

/-- A line comment ends at a line break or with the text. -/
theorem exists_skipLineComment (text : List Char) (pos : Nat) :
    ∃ comment, text = comment ++ (skipLineComment text pos).rest ∧
      (∀ c ∈ comment, isLineBreak c = false) ∧
      ∀ c ∈ (skipLineComment text pos).rest.head?, isLineBreak c = true := by
  induction text generalizing pos with
  | nil => exact ⟨[], rfl, by simp, by simp [skipLineComment]⟩
  | cons c rest ih =>
    cases hc : isLineBreak c with
    | true => exact ⟨[], by simp [skipLineComment, hc], by simp, by simp [skipLineComment, hc]⟩
    | false =>
      obtain ⟨comment, htext, hcomment, hhead⟩ := ih (pos + c.utf8Size)
      refine ⟨c :: comment, ?_, ?_, ?_⟩
      · simpa [skipLineComment, hc] using htext
      · simpa [hc] using hcomment
      · simpa [skipLineComment, hc] using hhead

/-- A block comment is read alike whatever follows it. -/
theorem exists_skipBlockComment {text : List Char} {pos : Nat} {next : Input}
    (h : skipBlockComment text pos broken = some (next, lines)) :
    ∃ comment, comment ≠ [] ∧ text = comment ++ next.rest ∧ next.pos = pos + byteLength comment ∧
      ∀ rest, skipBlockComment (comment ++ rest) pos broken = some (⟨rest, next.pos⟩, lines) := by
  fun_induction skipBlockComment text pos broken with
  | case1 => cases h
  | case2 rest pos broken =>
    cases h
    exact ⟨['*', '/'], by simp, rfl, rfl, fun _ => rfl⟩
  | case3 c rest pos broken hclose ih =>
    obtain ⟨comment, hne, htext, hpos, hread⟩ := ih h
    refine ⟨c :: comment, by simp, by rw [htext]; rfl, by rw [hpos, byteLength]; omega, ?_⟩
    intro after
    rw [List.cons_append, skipBlockComment, hread]
    -- the text after the star is the same, so it does not close the comment either
    obtain ⟨d, comment, rfl⟩ := List.exists_cons_of_ne_nil hne
    intro tail hc htail
    refine hclose (comment ++ next.rest) hc ?_
    rw [htext]
    cases htail
    rfl

/-- A line comment before something that is skipped up to a token is read alike whatever the token
is. -/
theorem exists_lineComment_before {text lead rest : List Char} {pos : Nat}
    (hlead : (skipLineComment text pos).rest = lead ++ rest) (hne : rest ≠ [])
    (hsolid : startsGap lines rest = false) :
    ∃ comment, text = comment ++ lead ++ rest ∧
      (skipLineComment text pos).pos = pos + byteLength comment ∧
      ∀ after, skipLineComment (comment ++ (lead ++ after)) pos =
        ⟨lead ++ after, (skipLineComment text pos).pos⟩ := by
  obtain ⟨comment, htext, hcomment, hhead⟩ := exists_skipLineComment text pos
  rw [hlead] at hhead htext
  obtain ⟨c, rest, rfl⟩ := List.exists_cons_of_ne_nil hne
  cases lead with
  | nil =>
    -- the comment would end at the token, which is no line break
    have hbreak := hhead c rfl
    rw [isLineBreak_eq_false hsolid] at hbreak
    cases hbreak
  | cons d lead =>
    have hskip := skipLineComment_append hcomment hhead pos
    rw [← htext] at hskip
    refine ⟨comment, by rw [htext, List.append_assoc], by rw [hskip], fun after => ?_⟩
    rw [hskip]
    refine skipLineComment_append hcomment (fun x hx => hhead x ?_) pos
    simpa using hx

/-- What stands between two places is skipped, whatever token comes then. -/
def SkipsTo (i : Input) (broken : Bool) (first : Input) (lines : Bool) : Prop :=
  ∃ lead, i.rest = lead ++ first.rest ∧ first.pos = i.pos + byteLength lead ∧
    ∀ rest fuel, startsGap lines rest = false → (lead ++ rest).length < fuel →
      skipTrivia fuel ⟨lead ++ rest, i.pos⟩ broken = some (⟨rest, first.pos⟩, lines)

theorem SkipsTo.refl (i : Input) (broken : Bool) : SkipsTo i broken i broken := by
  refine ⟨[], rfl, rfl, fun rest fuel hsolid hfuel => ?_⟩
  obtain ⟨fuel, rfl⟩ : ∃ n, fuel = n + 1 := ⟨fuel - 1, by omega⟩
  exact skipTrivia_solid hsolid

/-- Skipping some more first, which takes one step. -/
theorem SkipsTo.after (more : List Char) {text : List Char} {pos : Nat} {broken' : Bool}
    (h : SkipsTo ⟨text, pos + byteLength more⟩ broken' first lines) (hne : more ≠ [])
    (hmore : ∀ rest fuel, skipTrivia (fuel + 1) ⟨more ++ rest, pos⟩ broken =
      skipTrivia fuel ⟨rest, pos + byteLength more⟩ broken') :
    SkipsTo ⟨more ++ text, pos⟩ broken first lines := by
  obtain ⟨lead, hrest, hpos, hskip⟩ := h
  refine ⟨more ++ lead, by simpa using hrest, ?_, ?_⟩
  · rw [hpos, Text.byteLength_append]
    exact Nat.add_assoc ..
  · intro rest fuel hsolid hfuel
    obtain ⟨fuel, rfl⟩ : ∃ n, fuel = n + 1 := ⟨fuel - 1, by omega⟩
    have hlength := List.length_pos_iff.mpr hne
    rw [List.append_assoc, hmore]
    refine hskip rest fuel hsolid ?_
    simp only [List.length_append] at hfuel ⊢
    omega

/-- Skipping a line comment first. -/
theorem SkipsTo.after_line (mark : List Char) {text : List Char} {pos : Nat}
    (h : SkipsTo (skipLineComment text (pos + byteLength mark)) broken first lines)
    (hne : first.rest ≠ []) (hsolid : startsGap lines first.rest = false) (hmark : mark ≠ [])
    (hline : ∀ rest fuel, skipTrivia (fuel + 1) ⟨mark ++ rest, pos⟩ broken =
      skipTrivia fuel (skipLineComment rest (pos + byteLength mark)) broken) :
    SkipsTo ⟨mark ++ text, pos⟩ broken first lines := by
  obtain ⟨lead, hrest, hpos, hskip⟩ := h
  obtain ⟨comment, htext, hcomment, hread⟩ := exists_lineComment_before hrest hne hsolid
  refine ⟨mark ++ (comment ++ lead), by simp [htext], ?_, ?_⟩
  · rw [hpos, hcomment, Text.byteLength_append, Text.byteLength_append]
    simp only [Nat.add_assoc]
  · intro rest fuel hsolid hfuel
    obtain ⟨fuel, rfl⟩ : ∃ n, fuel = n + 1 := ⟨fuel - 1, by omega⟩
    have hlength := List.length_pos_iff.mpr hmark
    rw [List.append_assoc, List.append_assoc, hline, hread]
    refine hskip rest fuel hsolid ?_
    simp only [List.length_append] at hfuel ⊢
    omega

/-- White space and comments are skipped alike, whatever token they stand before. -/
theorem skipsTo_of_skipTrivia (h : skipTrivia fuel i broken = some (first, lines))
    (hne : first.rest ≠ []) : SkipsTo i broken first lines := by
  have hsolid := startsGap_skipTrivia h
  induction fuel generalizing i broken with
  | zero => cases h
  | succ fuel ih =>
    obtain ⟨text, pos⟩ := i
    unfold skipTrivia at h
    dsimp only at h
    split at h
    · exact .after_line "//".toList (ih h) hne hsolid (by decide) fun _ _ => rfl
    · rename_i text
      simp only [bind, Option.bind_eq_some_iff] at h
      obtain ⟨⟨⟨rest, end_⟩, spans⟩, hblock, hmore⟩ := h
      obtain ⟨comment, -, htext, hpos, hread⟩ := exists_skipBlockComment hblock
      dsimp only at htext hpos hread hmore
      have hbytes : pos + byteLength ('/' :: '*' :: comment) = end_ := by
        rw [hpos, byteLength, byteLength, show '/'.utf8Size = 1 from rfl,
          show '*'.utf8Size = 1 from rfl]
        omega
      subst htext
      have hrest := ih hmore
      rw [← hbytes] at hrest
      refine .after ('/' :: '*' :: comment) hrest (by simp) fun after fuel => ?_
      simp [skipTrivia, hread, hbytes]
    · exact .after_line "<!--".toList (ih h) hne hsolid (by decide) fun _ _ => rfl
    · split at h
      · rename_i hbroken
        subst hbroken
        exact .after_line "-->".toList (ih h) hne hsolid (by decide) fun _ _ => rfl
      · cases h
        exact .refl _ _
    · rename_i c rest _ _ _ _
      split at h
      · rename_i hbreak
        exact .after [c] (ih h) (by simp) fun after fuel => skipTrivia_break hbreak
      · split at h
        · rename_i hbreak hblank
          exact .after [c] (ih h) (by simp) fun after fuel =>
            skipTrivia_blank (Bool.eq_false_iff.mpr hbreak) hblank
        · cases h
          exact .refl _ _
    · cases h
      exact .refl _ _

/-- Up to the end of the text, a line break before it changes nothing. -/
theorem skipTrivia_to_end (h : skipTrivia fuel i broken = some (first, lines))
    (hend : first.rest = []) (broken' : Bool) :
    ∃ lines', skipTrivia fuel i (broken || broken') = some (first, lines') := by
  induction fuel generalizing i broken with
  | zero => cases h
  | succ fuel ih =>
    obtain ⟨text, pos⟩ := i
    unfold skipTrivia at h ⊢
    dsimp only at h ⊢
    split at h
    · exact ih h
    · simp only [bind, Option.bind_eq_some_iff] at h ⊢
      obtain ⟨⟨next, spans⟩, hblock, hmore⟩ := h
      obtain ⟨lines', hlines⟩ := ih hmore
      refine ⟨lines', (next, spans), hblock, ?_⟩
      rw [← hlines]
      congr 1
      cases broken <;> cases spans <;> simp
    · exact ih h
    · split at h
      · rename_i hbroken
        subst hbroken
        exact ih h
      · cases h
        cases hend
    · split at h
      · rename_i hbreak
        simp only [hbreak, if_true]
        exact ⟨lines, h⟩
      · rename_i hbreak
        simp only [hbreak]
        split at h
        · rename_i hblank
          simp only [hblank, if_true]
          exact ih h
        · cases h
          cases hend
    · cases h
      exact ⟨_, rfl⟩

end

/-! ### Tokens as they are spelled -/

/-- Whatever stands before `rest` is read as this token. -/
structure Spells (token : Token) (spelling rest : List Char) : Prop where
  solid : startsGap true (spelling ++ rest) = false
  read : ∀ fuel pos, (spelling ++ rest).length < fuel →
    readToken fuel ⟨spelling ++ rest, pos⟩ = (token, ⟨rest, pos + byteLength spelling⟩)

/-- A name ends before this text. -/
def EndsName (rest : List Char) : Prop := ∀ c ∈ rest.head?, isNamePart c = false ∧ c ≠ '\\'

-- by the first character alone: an instance for every character would go through all of them
instance (rest : List Char) : Decidable (EndsName rest) :=
  decidable_of_iff (rest.head?.all (fun c => !isNamePart c && c != '\\') = true)
    (by simp [EndsName, Option.all_eq_true])

/-- The characters of a name. -/
def IsName (name : List Char) : Prop :=
  name.head?.any isNameStart = true ∧ ∀ c ∈ name, isNamePart c = true

instance (name : List Char) : Decidable (IsName name) :=
  decidable_of_iff ((name.head?.any isNameStart && name.all isNamePart) = true) (by simp [IsName])

theorem readName_append {word rest : List Char} (hword : ∀ c ∈ word, isNamePart c = true)
    (hrest : EndsName rest) {fuel pos : Nat} {read : List Char} {escaped : Bool}
    (hread : read ≠ []) (hfuel : word.length < fuel) :
    readName fuel ⟨word ++ rest, pos⟩ read escaped =
      some (read.reverse ++ word, escaped, ⟨rest, pos + byteLength word⟩) := by
  have hempty : read.isEmpty = false := by simpa using hread
  induction word generalizing fuel pos read with
  | nil =>
    obtain ⟨fuel, rfl⟩ : ∃ n, fuel = n + 1 := ⟨fuel - 1, by omega⟩
    cases rest with
    | nil => simp [readName, byteLength]
    | cons c rest =>
      obtain ⟨hpart, hslash⟩ := hrest c rfl
      simp [readName, hslash, hempty, hpart, byteLength]
  | cons c word ih =>
    obtain ⟨fuel, rfl⟩ : ∃ n, fuel = n + 1 := ⟨fuel - 1, by omega⟩
    have hpart := hword c (List.mem_cons_self ..)
    have hslash : c ≠ '\\' := by
      rintro rfl
      exact absurd hpart (by decide)
    have hmore : readName fuel ⟨word ++ rest, pos + c.utf8Size⟩ (c :: read) escaped = _ :=
      ih (fun d hd => hword d (List.mem_cons_of_mem _ hd)) (by simp) (Nat.lt_of_succ_lt_succ hfuel)
        rfl
    simp [readName, hslash, hempty, hpart, hmore, byteLength, Nat.add_assoc]

/-- The token of a word without escapes. -/
def Token.ofWord (word : List Char) : Token :=
  .word (String.ofList word)
    (if knownWords.contains (String.ofList word) then some (String.ofList word) else none)

theorem isNamePart_of_isNameStart {c : Char} (h : isNameStart c = true) : isNamePart c = true := by
  unfold isNameStart at h
  unfold isNamePart
  split at h
  · rename_i hascii
    rw [if_pos hascii]
    simp only [Bool.or_eq_true] at h ⊢
    exact h.imp_left (Or.imp_left fun halpha => by simp [Char.isAlphanum, halpha])
  · rename_i hascii
    rw [if_neg hascii]
    simp [h]

/-- No character that starts a name starts anything else. -/
theorem punctuators_apart :
    punctuators.all (fun p => p.toList.head?.any fun c => !isNameStart c) = true := by
  decide +kernel

theorem readPunct_of_isNameStart {c : Char} (hc : isNameStart c = true) (rest : List Char)
    (pos : Nat) : readPunct ⟨c :: rest, pos⟩ = none := by
  have hnone : punctuators.find? (fun p => startsWith p.toList (c :: rest)) = none := by
    rw [List.find?_eq_none]
    intro p hp hstarts
    have hapart := List.all_eq_true.mp punctuators_apart p hp
    cases hlist : p.toList with
    | nil =>
      rw [hlist] at hapart
      cases hapart
    | cons d tail =>
      rw [hlist, startsWith, Bool.and_eq_true, beq_iff_eq] at hstarts
      rw [hlist, List.head?_cons, Option.any_some, hstarts.1, hc] at hapart
      cases hapart
  simp [readPunct, hnone]

/-- White space past ASCII starts no name. -/
theorem startRanges_blank : ([0x85, 0xa0, 0xfeff, 0x1680, 0x202f, 0x205f, 0x3000, 0x2028, 0x2029] ++
    (List.range 12).map (0x2000 + ·)).all (fun n => !startRanges.contains n) = true := by
  decide +kernel

theorem apart_of_ascii : ∀ n < 0x80, isNameStart (Char.ofNat n) = true →
    isLineBreak (Char.ofNat n) = false ∧ isBlank (Char.ofNat n) = false ∧
      (Char.ofNat n).isDigit = false ∧
      Char.ofNat n ∉ ['/', '<', '-', '\\', '\x22', '\x27', '.', '#'] := by
  decide +kernel

/-- A character that starts a name starts no white space, comment, number or string. -/
theorem apart_of_isNameStart {c : Char} (h : isNameStart c = true) :
    isLineBreak c = false ∧ isBlank c = false ∧ c.isDigit = false ∧
      c ∉ ['/', '<', '-', '\\', '\x22', '\x27', '.', '#'] := by
  by_cases hascii : c.toNat < 0x80
  · have hapart := apart_of_ascii c.toNat hascii
    rw [Char.ofNat_toNat] at hapart
    exact hapart h
  · have hranges : startRanges.contains c.toNat = true := by
      simpa [isNameStart, hascii] using h
    have hblank : ∀ n ∈ [0x85, 0xa0, 0xfeff, 0x1680, 0x202f, 0x205f, 0x3000, 0x2028, 0x2029] ++
        (List.range 12).map (0x2000 + ·), c.toNat ≠ n := by
      rintro n hn rfl
      have := List.all_eq_true.mp startRanges_blank _ hn
      rw [hranges] at this
      cases this
    refine ⟨?_, ?_, ?_, ?_⟩
    · have hfeed : c ≠ '\n' := by
        rintro rfl
        exact hascii (by decide)
      have hreturn : c ≠ '\r' := by
        rintro rfl
        exact hascii (by decide)
      simp [isLineBreak, hfeed, hreturn, hblank]
    · rw [Bool.eq_false_iff]
      intro hmem
      simp only [isBlank, Bool.or_eq_true, Bool.and_eq_true, beq_iff_eq, decide_eq_true_eq] at hmem
      refine hblank c.toNat ?_ rfl
      simp only [List.mem_append, List.mem_cons, List.mem_map, List.mem_range]
      by_cases hrange : 0x2000 ≤ c.toNat ∧ c.toNat ≤ 0x200b
      · exact Or.inr ⟨c.toNat - 0x2000, by omega, by omega⟩
      · exact Or.inl (by omega)
    · rw [Bool.eq_false_iff]
      intro hdigit
      have hle : c.toNat ≤ '9'.toNat := by
        simp only [Char.isDigit, Bool.and_eq_true, decide_eq_true_eq] at hdigit
        exact UInt32.le_iff_toNat_le.mp hdigit.2
      exact hascii (Nat.lt_of_le_of_lt hle (by decide))
    · intro hmem
      have hall : ['/', '<', '-', '\\', '\x22', '\x27', '.', '#'].all
          (fun d => decide (d.toNat < 0x80)) = true := by decide
      exact hascii (of_decide_eq_true (List.all_eq_true.mp hall c hmem))

theorem Spells.word {word rest : List Char} (hword : IsName word) (hrest : EndsName rest) :
    Spells (.ofWord word) word rest := by
  obtain ⟨hstart, hparts⟩ := hword
  obtain ⟨c, word, rfl⟩ : ∃ c tail, word = c :: tail := by
    cases word with
    | nil => cases hstart
    | cons c tail => exact ⟨c, tail, rfl⟩
  rw [List.head?_cons, Option.any_some] at hstart
  obtain ⟨hbreak, hblank, hdigit, hother⟩ := apart_of_isNameStart hstart
  simp only [List.mem_cons, List.not_mem_nil, or_false, not_or] at hother
  obtain ⟨hslash, hangle, hminus, hescape, hquote, hquote', hpoint, hhash⟩ := hother
  constructor
  · simp [startsGap, hslash, hangle, hminus, hbreak, hblank]
  · intro fuel pos hfuel
    obtain ⟨fuel, rfl⟩ : ∃ n, fuel = n + 1 := ⟨fuel - 1, by omega⟩
    rw [List.cons_append] at hfuel ⊢
    have hname : readName (fuel + 1) ⟨c :: (word ++ rest), pos⟩ [] false =
        some (c :: word, false, ⟨rest, pos + byteLength (c :: word)⟩) := by
      have hmore : readName fuel ⟨word ++ rest, pos + c.utf8Size⟩ [c] false = _ :=
        readName_append (fun d hd => hparts d (List.mem_cons_of_mem _ hd)) hrest (by simp)
          (by simp only [List.length_cons, List.length_append] at hfuel; omega)
      simp [readName, hescape, hstart, hmore, byteLength, Nat.add_assoc]
    have hpunct := readPunct_of_isNameStart hstart (word ++ rest) pos
    have hread : readWord (fuel + 1) ⟨c :: (word ++ rest), pos⟩ =
        some (.ofWord (c :: word), ⟨rest, pos + byteLength (c :: word)⟩) := by
      have hfirst : (some c == some '\\') = false := by simpa using hescape
      simp only [readWord, hname, bind, Option.bind_some, guard, List.isEmpty_cons, Bool.not_false,
        if_true, pure, List.head?_cons, hfirst, Bool.false_or, Token.ofWord]
      cases knownWords.contains (String.ofList (c :: word)) <;> rfl
    simp [readToken, hquote, hquote', hdigit, hpoint, hhash, hpunct, hread]

/-! ### Punctuation -/

theorem Spells.semicolon (rest : List Char) : Spells (.punct ";") [';'] rest :=
  ⟨rfl, fun _ _ _ => rfl⟩

theorem Spells.comma (rest : List Char) : Spells (.punct ",") [','] rest :=
  ⟨rfl, fun _ _ _ => rfl⟩

theorem Spells.equals (rest : List Char) : Spells (.punct "=") ['='] (' ' :: rest) :=
  ⟨rfl, fun _ _ _ => rfl⟩

/-! ### Quoted texts -/

theorem hexDigits_read : ∀ n < 0x20, hexValue? (Text.hexDigits 4 n) = some n ∧
    (Text.hexDigits 4 n).head? ≠ some '\x7b' := by
  decide

theorem readUnicodeEscape_hexDigits {n : Nat} (hn : n < 0x20) (rest : List Char) (pos : Nat) :
    readUnicodeEscape ⟨Text.hexDigits 4 n ++ rest, pos⟩ =
      some (n, ⟨rest, pos + byteLength (Text.hexDigits 4 n)⟩) := by
  obtain ⟨hlength, -, -⟩ := Json.hexDigits_of_control n hn
  obtain ⟨hvalue, hhead⟩ := hexDigits_read n hn
  have hhex : readHex 4 ⟨Text.hexDigits 4 n ++ rest, pos⟩ =
      some (n, ⟨rest, pos + byteLength (Text.hexDigits 4 n)⟩) := by
    simp [readHex, List.take_left' hlength, List.drop_left' hlength, hlength, hvalue, Input.skip,
      Input.advance]
  unfold readUnicodeEscape
  dsimp only
  split
  · rename_i heq
    cases hdigits : Text.hexDigits 4 n with
    | nil => simp [hdigits] at hlength
    | cons d digits =>
      rw [hdigits, List.cons_append] at heq
      rw [hdigits, List.head?_cons, (List.cons.inj heq).1] at hhead
      exact absurd rfl hhead
  · exact hhex

/-- A character is written as it is, or after a backslash in a form that is read as this one. -/
theorem escapeChar_reads (c : Char) :
    (Text.escapeChar c = [c] ∧ c ≠ '\x22' ∧ c ≠ '\\' ∧ c ≠ '\n' ∧ c ≠ '\r') ∨
    ∃ code, Text.escapeChar c = '\\' :: code ∧ ∀ rest pos,
      readEscape true ⟨code ++ rest, pos⟩ = some ([c.toNat], ⟨rest, pos + byteLength code⟩) := by
  have hsimple : ∀ (x d : Char), c.toNat = d.toNat →
      (∀ rest pos, readEscape true ⟨x :: rest, pos⟩ =
        some ([d.toNat], ⟨rest, pos + x.utf8Size⟩)) →
      ∀ rest pos, readEscape true ⟨[x] ++ rest, pos⟩ =
        some ([c.toNat], ⟨rest, pos + byteLength [x]⟩) := by
    intro x d hcd hx rest pos
    rw [List.singleton_append, hx, hcd]
    rfl
  unfold Text.escapeChar
  split
  case _ h => exact .inr ⟨_, rfl, hsimple '\x22' '\x22' h fun _ _ => rfl⟩
  case _ h => exact .inr ⟨_, rfl, hsimple '\\' '\\' h fun _ _ => rfl⟩
  case _ h => exact .inr ⟨_, rfl, hsimple 'b' '\x08' h fun _ _ => rfl⟩
  case _ h => exact .inr ⟨_, rfl, hsimple 't' '\t' h fun _ _ => rfl⟩
  case _ h => exact .inr ⟨_, rfl, hsimple 'n' '\n' h fun _ _ => rfl⟩
  case _ h => exact .inr ⟨_, rfl, hsimple 'f' '\x0c' h fun _ _ => rfl⟩
  case _ h => exact .inr ⟨_, rfl, hsimple 'r' '\r' h fun _ _ => rfl⟩
  case _ hquote hslash _ _ hfeed _ hreturn =>
    split
    case isTrue hlow =>
      refine .inr ⟨_, rfl, fun rest pos => ?_⟩
      have hunicode : readUnicodeEscape ⟨Text.hexDigits 4 c.toNat ++ rest, pos + 1⟩ =
          some (c.toNat, ⟨rest, pos + 1 + byteLength (Text.hexDigits 4 c.toNat)⟩) :=
        readUnicodeEscape_hexDigits hlow rest (pos + 1)
      simp only [readEscape, List.cons_append, byteLength, show 'u'.utf8Size = 1 from rfl, hunicode,
        Option.map_some, Nat.add_assoc]
    case isFalse hlow =>
      exact .inl ⟨rfl, fun h => hquote (h ▸ rfl), fun h => hslash (h ▸ rfl),
        fun h => hfeed (h ▸ rfl), fun h => hreturn (h ▸ rfl)⟩

theorem readString_quoted (cs rest : List Char) {fuel pos : Nat} {points recent : List Nat}
    (hfuel : (cs.flatMap Text.escapeChar).length < fuel) :
    readString '\x22' fuel ⟨cs.flatMap Text.escapeChar ++ '\x22' :: rest, pos⟩ points recent =
      some (points.reverse ++ cs.map Char.toNat,
        ⟨rest, pos + byteLength (cs.flatMap Text.escapeChar) + 1⟩) := by
  induction cs generalizing fuel pos points recent with
  | nil =>
    obtain ⟨fuel, rfl⟩ : ∃ n, fuel = n + 1 := ⟨fuel - 1, by omega⟩
    simp [readString, byteLength, show '\x22'.utf8Size = 1 from rfl]
  | cons c cs ih =>
    obtain ⟨fuel, rfl⟩ : ∃ n, fuel = n + 1 := ⟨fuel - 1, by omega⟩
    obtain ⟨hplain, hquote, hslash, hfeed, hreturn⟩ | ⟨code, hcode, hescape⟩ := escapeChar_reads c
    · simp only [List.flatMap_cons, hplain, List.singleton_append, List.length_cons] at hfuel ⊢
      simp [readString, hquote, hslash, hfeed, hreturn, ih (Nat.lt_of_succ_lt_succ hfuel),
        byteLength, Nat.add_assoc]
    · simp only [List.flatMap_cons, hcode, List.cons_append, List.length_cons, List.append_assoc,
        List.length_append] at hfuel ⊢
      have hmore : (cs.flatMap Text.escapeChar).length < fuel := by omega
      simp [readString, hescape, ih hmore, byteLength, Nat.add_assoc]

theorem not_surrogate (c : Char) :
    isHighSurrogate c.toNat = false ∧ isLowSurrogate c.toNat = false := by
  have hvalid : c.toNat < 0xd800 ∨ 0xdfff < c.toNat := by
    rcases c.valid with h | h
    · exact .inl h
    · exact .inr h.1
  simp only [isHighSurrogate, isLowSurrogate, Bool.and_eq_false_iff, decide_eq_false_iff_not]
  omega

theorem joinSurrogates_toNat (cs : List Char) : joinSurrogates (cs.map Char.toNat) = some cs := by
  induction cs with
  | nil => rfl
  | cons c cs ih =>
    obtain ⟨hhigh, hlow⟩ := not_surrogate c
    cases cs with
    | nil => simp [joinSurrogates, hhigh, hlow, Char.ofNat_toNat]
    | cons d cs =>
      simp only [List.map_cons] at ih ⊢
      simp [joinSurrogates, hhigh, hlow, ih, Char.ofNat_toNat]

/-- A quoted text is read as a string with this value. -/
theorem Spells.quoted (text : String) (rest : List Char) :
    Spells (.string (some text)) (Text.quote text).toList rest := by
  rw [Json.toList_quote]
  refine ⟨by simp [startsGap, isLineBreak, isBlank], fun fuel pos hfuel => ?_⟩
  simp only [List.cons_append, List.append_assoc, List.length_cons, List.length_append] at hfuel ⊢
  have hstring : readString '\x22' fuel
      ⟨text.toList.flatMap Text.escapeChar ++ '\x22' :: rest, pos + 1⟩ [] [] = _ :=
    readString_quoted text.toList rest (by omega)
  simp [readToken, Input.skip, Input.advance, byteLength, show '\x22'.utf8Size = 1 from rfl,
    hstring, textOfPoints, joinSurrogates_toNat]
  omega

end Phrasebook.Script
