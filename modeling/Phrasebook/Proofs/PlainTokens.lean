import Phrasebook.Proofs.Spelling

/-!
Plain tokens: words, strings and the marks that imports are made of. As long as it holds no escape,
such a token is read alike before every text that goes on as the one behind it does.
-/
namespace Phrasebook.Script

open Text (byteLength)

/-- Tokens that imports and directives are made of. -/
def Token.isPlain : Token → Bool
  | .word .. | .string _ => true
  | .punct text => [";", ",", "*", "\x7b", "\x7d"].contains text
  | _ => false

/-- Behind a token that ends before `rest`, the text may as well go on like this. -/
def GoesOn (rest other : List Char) : Prop :=
  (other.head? = rest.head? ∧ other.head? ≠ some '\\') ∨ other.head? = some '\n'

/-- The characters between two places hold no escape. -/
def Unescaped (text rest : List Char) : Prop := '\\' ∉ text.take (text.length - rest.length)

section

variable {text rest other lead : List Char} {c : Char}

theorem Unescaped.of_cons (h : Unescaped (c :: text) rest) (hrest : rest.length ≤ text.length) :
    c ≠ '\\' ∧ Unescaped text rest := by
  have hlength : (c :: text).length - rest.length = (text.length - rest.length) + 1 := by
    rw [List.length_cons]
    omega
  rw [Unescaped, hlength, List.take_succ_cons, List.mem_cons, not_or] at h
  exact ⟨Ne.symm h.1, h.2⟩

theorem Unescaped.mono (h : Unescaped text rest) (hlength : rest.length ≤ other.length) :
    Unescaped text other :=
  fun hmem => h (List.take_subset_take_left _ (by omega) hmem)

theorem Unescaped.of_append (h : Unescaped (lead ++ text) rest)
    (hlength : rest.length ≤ text.length) : '\\' ∉ lead ∧ Unescaped text rest := by
  induction lead with
  | nil => exact ⟨List.not_mem_nil, h⟩
  | cons c lead ih =>
    obtain ⟨hc, htail⟩ := h.of_cons (Nat.le_trans hlength (List.length_append ▸ Nat.le_add_left ..))
    obtain ⟨hlead, htext⟩ := ih htail
    exact ⟨by simp [Ne.symm hc, hlead], htext⟩

theorem GoesOn.append (h : GoesOn rest other) (hescape : '\\' ∉ lead) :
    GoesOn (lead ++ rest) (lead ++ other) := by
  cases lead with
  | nil => exact h
  | cons c lead =>
    refine .inl ⟨rfl, ?_⟩
    rintro ⟨⟩
    exact hescape (List.mem_cons_self ..)

end

/-! ### Words -/

section

variable {fuel : Nat} {i next : Input} {read name : List Char} {escaped found : Bool}

/-- A name without escapes is what stands up to its end. -/
theorem exists_name (h : readName fuel i read escaped = some (name, found, next))
    (hescape : Unescaped i.rest next.rest) :
    ∃ word, i.rest = word ++ next.rest ∧ next.pos = i.pos + byteLength word ∧
      name = read.reverse ++ word ∧ found = escaped ∧ (∀ c ∈ word, isNamePart c = true) ∧
      (read = [] → ∀ c ∈ word.head?, isNameStart c = true) ∧
      (name ≠ [] → ∀ c ∈ next.rest.head?, isNamePart c = false) := by
  induction fuel generalizing i read escaped with
  | zero => cases h
  | succ fuel ih =>
    have hlength := length_readName h
    simp only [readName] at h
    split at h
    · rename_i tail hrest
      simp only [bind, Option.bind_eq_some_iff] at h
      obtain ⟨⟨n, after⟩, hunicode, -, -, hmore⟩ := h
      have hless : (i.skip 2).rest.length + 2 = i.rest.length := by
        simp [Input.skip, Input.advance, hrest]
      have hafter := length_readUnicodeEscape hunicode
      have hmore := length_readName hmore
      rw [hrest] at hescape
      refine absurd rfl (hescape.of_cons ?_).1
      rw [hrest] at hless
      simp only [List.length_cons] at hless hafter hmore ⊢
      omega
    · rename_i c rest _ hrest
      by_cases hallowed : (if read.isEmpty = true then isNameStart c else isNamePart c) = true
      · rw [if_pos hallowed] at h
        have hmore := length_readName h
        rw [hrest] at hescape
        obtain ⟨word, htext, hpos, hname, hfound, hparts, -, hend⟩ :=
          ih h (hescape.of_cons hmore).2
        have hpart : isNamePart c = true := by
          split at hallowed
          · exact isNamePart_of_isNameStart hallowed
          · exact hallowed
        refine ⟨c :: word, ?_, ?_, ?_, hfound, ?_, ?_, hend⟩
        · rw [hrest, List.cons_append, ← htext]
        · rw [hpos, byteLength, Nat.add_assoc]
        · rw [hname, List.reverse_cons, List.append_assoc, List.singleton_append]
        · intro d hd
          rcases List.mem_cons.mp hd with rfl | hd
          · exact hpart
          · exact hparts d hd
        · rintro rfl d hd
          cases hd
          simpa using hallowed
      · rw [if_neg hallowed] at h
        cases h
        refine ⟨[], rfl, rfl, by simp, rfl, by simp, by simp, ?_⟩
        intro hname d hd
        rw [hrest] at hd
        cases hd
        have hread : read.isEmpty = false := by simpa using hname
        rw [hread] at hallowed
        exact Bool.eq_false_iff.mpr hallowed
    · rename_i hrest
      cases h
      refine ⟨[], rfl, rfl, by simp, rfl, by simp, by simp, ?_⟩
      rw [hrest]
      simp

/-- A word without escapes is spelled by its characters before anything that does not go on
with it. -/
theorem exists_spelling_word {token : Token} (h : readWord fuel i = some (token, next))
    (hescape : Unescaped i.rest next.rest) :
    ∃ word, i.rest = word ++ next.rest ∧ next.pos = i.pos + byteLength word ∧
      ∀ other, GoesOn next.rest other → Spells token word other := by
  simp only [readWord, bind, Option.bind_eq_some_iff] at h
  obtain ⟨⟨name, escaped, after⟩, hname, _, hsome, h⟩ := h
  have hafter : after = next := by
    dsimp only at h
    repeat' split at h
    all_goals
      cases h
      rfl
  subst hafter
  obtain ⟨word, htext, hpos, hword, rfl, hparts, hstart, hend⟩ := exists_name hname hescape
  obtain rfl : name = word := hword
  have hne : name ≠ [] := by
    rintro rfl
    simp [guard] at hsome
  obtain ⟨c, tail, rfl⟩ := List.exists_cons_of_ne_nil hne
  have hfirst := hstart rfl c rfl
  have hslash : c ≠ '\\' := by
    rintro rfl
    exact absurd hfirst (by decide)
  have htoken : token = .ofWord (c :: tail) := by
    have hhead : (i.rest.head? == some '\\') = false := by
      rw [htext]
      simpa using hslash
    dsimp only at h
    rw [hhead, Bool.false_or] at h
    unfold Token.ofWord
    cases hknown : knownWords.contains (String.ofList (c :: tail)) with
    | true =>
      simp only [hknown, Bool.not_true, Bool.false_eq_true, if_false, Bool.not_false, if_true,
        pure, Option.some.injEq, Prod.mk.injEq] at h ⊢
      exact h.1.symm
    | false =>
      simp only [hknown, Bool.not_false, if_true, pure, Option.some.injEq, Prod.mk.injEq,
        Bool.false_eq_true, if_false] at h ⊢
      exact h.1.symm
  refine ⟨c :: tail, htext, hpos, fun other hother => ?_⟩
  rw [htoken]
  refine .word ⟨by simpa using hfirst, hparts⟩ ?_
  intro d hd
  rcases hother with ⟨hsame, hother⟩ | hbreak
  · refine ⟨hend hne d (hsame ▸ hd), ?_⟩
    rintro rfl
    exact hother hd
  · rw [hbreak] at hd
    cases hd
    decide

end

/-! ### Strings -/

section

variable {quote : Char} {fuel : Nat} {i next : Input} {points recent found : List Nat}

/-- Characters that stand for themselves in a string. -/
def IsBody (quote : Char) (body : List Char) : Prop :=
  ∀ c ∈ body, c ≠ quote ∧ c ≠ '\\' ∧ c ≠ '\n' ∧ c ≠ '\r'

/-- A string without escapes holds what stands up to its closing quote, or to the end of the line
without one. -/
theorem exists_body (h : readString quote fuel i points recent = some (found, next))
    (hescape : Unescaped i.rest next.rest) :
    ∃ body, IsBody quote body ∧
      (i.rest = body ++ quote :: next.rest ∧ next.pos = i.pos + byteLength (body ++ [quote]) ∧
          found = points.reverse ++ body.map Char.toNat ∨
        i.rest = body ++ next.rest ∧ next.pos = i.pos + byteLength body ∧
          found = recent.reverse ++ body.map Char.toNat ∧
          ∀ c ∈ next.rest.head?, c ≠ quote ∧ (c = '\n' ∨ c = '\r')) := by
  induction fuel generalizing i points recent with
  | zero => cases h
  | succ fuel ih =>
    simp only [readString] at h
    split at h
    · rename_i hrest
      cases h
      refine ⟨[], by simp [IsBody], .inr ⟨rfl, rfl, by simp, ?_⟩⟩
      rw [hrest]
      simp
    · rename_i c rest hrest
      split at h
      · rename_i hquote
        cases h
        rw [beq_iff_eq.mp hquote] at hrest ⊢
        exact ⟨[], by simp [IsBody], .inl ⟨hrest, rfl, by simp⟩⟩
      · rename_i hquote
        split at h
        · rename_i hslash
          simp only [bind, Option.bind_eq_some_iff] at h
          obtain ⟨⟨more, after⟩, hafter, hmore⟩ := h
          have hless := length_readEscape hafter
          have hlength := length_readString hmore
          rw [hrest] at hescape
          refine absurd (beq_iff_eq.mp hslash) (hescape.of_cons ?_).1
          dsimp only at hless hlength
          omega
        · rename_i hslash
          split at h
          · rename_i hbreak
            cases h
            refine ⟨[], by simp [IsBody], .inr ⟨rfl, rfl, by simp, ?_⟩⟩
            intro d hd
            rw [hrest] at hd
            cases hd
            exact ⟨by simpa using hquote, by simpa using hbreak⟩
          · rename_i hbreak
            have hlength := length_readString h
            rw [hrest] at hescape
            obtain ⟨body, hbody, hfound⟩ := ih h (hescape.of_cons hlength).2
            refine ⟨c :: body, ?_, ?_⟩
            · intro d hd
              rcases List.mem_cons.mp hd with rfl | hd
              · simp only [Bool.or_eq_true, beq_iff_eq, not_or] at hbreak
                exact ⟨by simpa using hquote, by simpa using hslash, hbreak⟩
              · exact hbody d hd
            · rw [hrest]
              rcases hfound with ⟨htext, hpos, hfound⟩ | ⟨htext, hpos, hfound, hend⟩
              · left
                dsimp only at htext
                refine ⟨by rw [htext]; rfl, ?_, by simp [hfound]⟩
                rw [hpos, List.cons_append, byteLength, Nat.add_assoc]
              · right
                dsimp only at htext
                refine ⟨by rw [htext]; rfl, ?_, by simp [hfound], hend⟩
                rw [hpos, byteLength, Nat.add_assoc]

/-- Such characters are read one by one. -/
theorem readString_body {body rest : List Char} (hbody : IsBody quote body) {pos : Nat}
    (hfuel : body.length ≤ fuel) :
    readString quote fuel ⟨body ++ rest, pos⟩ points recent =
      readString quote (fuel - body.length) ⟨rest, pos + byteLength body⟩
        ((body.map Char.toNat).reverse ++ points) ((body.map Char.toNat).reverse ++ recent) := by
  induction body generalizing fuel pos points recent with
  | nil => simp [byteLength]
  | cons c body ih =>
    obtain ⟨fuel, rfl⟩ : ∃ n, fuel = n + 1 := ⟨fuel - 1, by simp at hfuel; omega⟩
    obtain ⟨hquote, hslash, hfeed, hreturn⟩ := hbody c (List.mem_cons_self ..)
    have hmore : readString quote fuel ⟨body ++ rest, pos + c.utf8Size⟩ (c.toNat :: points)
        (c.toNat :: recent) = _ :=
      ih (fun d hd => hbody d (List.mem_cons_of_mem _ hd)) (Nat.le_of_succ_le_succ hfuel)
    rw [List.cons_append, readString]
    simp only [beq_eq_false_iff_ne.mpr hquote, beq_eq_false_iff_ne.mpr hslash,
      beq_eq_false_iff_ne.mpr hfeed, beq_eq_false_iff_ne.mpr hreturn, Bool.or_self,
      Bool.false_eq_true, if_false, hmore]
    simp [byteLength, Nat.add_assoc]

end

/-- A string without escapes is spelled alike before any text that ends it where it ended. -/
theorem exists_spelling_string {quote : Char} (hquote : quote = '\x22' ∨ quote = '\x27')
    {fuel : Nat} {i next : Input} {tail : List Char} {found : List Nat}
    (hi : i.rest = quote :: tail)
    (h : readString quote fuel (i.skip 1) [] [] = some (found, next))
    (hescape : Unescaped tail next.rest) :
    ∃ spelling, i.rest = spelling ++ next.rest ∧ next.pos = i.pos + byteLength spelling ∧
      ∀ other, GoesOn next.rest other → Spells (.string (textOfPoints found)) spelling other := by
  have hskip : (i.skip 1).rest = tail := by simp [Input.skip, Input.advance, hi]
  have hsize : quote.utf8Size = 1 := by
    rcases hquote with rfl | rfl <;> rfl
  have hsolid : ∀ text, startsGap true (quote :: text) = false := by
    intro text
    rcases hquote with rfl | rfl <;> rfl
  rw [← hskip] at hescape
  obtain ⟨body, hbody, hcases⟩ := exists_body h hescape
  rw [hskip] at hcases
  have htoken : ∀ {fuel text pos points next},
      readString quote fuel ⟨text, pos + 1⟩ [] [] = some (points, next) →
      readToken fuel ⟨quote :: text, pos⟩ = (.string (textOfPoints points), next) := by
    intro fuel text pos points next hread
    have hmark : (quote == '\x22' || quote == '\x27') = true := by simpa using hquote
    simp [readToken, hmark, Input.skip, Input.advance, byteLength, hsize, hread]
  have hplace : (i.skip 1).pos = i.pos + 1 := by
    simp [Input.skip, Input.advance, hi, byteLength, hsize]
  rw [hplace] at hcases
  rcases hcases with ⟨htext, hpos, rfl⟩ | ⟨htext, hpos, rfl, hend⟩
  · refine ⟨quote :: (body ++ [quote]), by rw [hi, htext]; simp, ?_, fun other _ => ?_⟩
    · rw [hpos, byteLength, hsize, Nat.add_assoc]
    refine ⟨hsolid _, fun fuel pos hfuel => ?_⟩
    have hread : readString quote fuel ⟨body ++ ([quote] ++ other), pos + 1⟩ [] [] =
        some (body.map Char.toNat, ⟨other, pos + 1 + byteLength body + 1⟩) := by
      have hlength : body.length + 1 < fuel := by
        simp only [List.cons_append, List.length_cons, List.length_append] at hfuel
        omega
      obtain ⟨n, hn⟩ : ∃ n, fuel - body.length = n + 1 := ⟨fuel - body.length - 1, by omega⟩
      rw [readString_body hbody (by omega), hn, List.singleton_append, readString]
      simp [hsize]
    rw [List.cons_append, List.append_assoc, htoken hread]
    simp only [byteLength, Text.byteLength_append, hsize]
    congr 2
    omega
  · refine ⟨quote :: body, by rw [hi, htext]; simp, ?_, fun other hother => ?_⟩
    · rw [hpos, byteLength, hsize, Nat.add_assoc]
    refine ⟨hsolid _, fun fuel pos hfuel => ?_⟩
    have hclose : ∀ c ∈ other.head?, c ≠ quote ∧ (c = '\n' ∨ c = '\r') := by
      intro c hc
      rcases hother with ⟨hsame, -⟩ | hbreak
      · exact hend c (hsame ▸ hc)
      · rw [hbreak] at hc
        cases hc
        rcases hquote with rfl | rfl <;> decide
    have hread : readString quote fuel ⟨body ++ other, pos + 1⟩ [] [] =
        some (body.map Char.toNat, ⟨other, pos + 1 + byteLength body⟩) := by
      have hlength : body.length < fuel := by
        simp only [List.cons_append, List.length_cons, List.length_append] at hfuel
        omega
      obtain ⟨n, hn⟩ : ∃ n, fuel - body.length = n + 1 := ⟨fuel - body.length - 1, by omega⟩
      rw [readString_body hbody (by omega), hn, readString]
      cases other with
      | nil => simp
      | cons c other =>
        obtain ⟨hne, hbreak⟩ := hclose c rfl
        have hslash : c ≠ '\\' := by
          rintro rfl
          rcases hbreak with h | h <;> cases h
        have hline : (c == '\n' || c == '\r') = true := by simpa using hbreak
        simp [hne, hslash, hline]
    rw [List.cons_append, htoken hread]
    simp [byteLength, hsize, Nat.add_assoc]

/-! ### Marks -/

theorem Spells.openBrace (rest : List Char) : Spells (.punct "\x7b") ['\x7b'] rest :=
  ⟨rfl, fun _ _ _ => rfl⟩

theorem Spells.closeBrace (rest : List Char) : Spells (.punct "\x7d") ['\x7d'] rest :=
  ⟨rfl, fun _ _ _ => rfl⟩

/-- A star is read alone unless it starts another mark. -/
theorem find?_star {rest : List Char} :
    punctuators.find? (fun p => startsWith p.toList ('*' :: rest)) = some "*" ↔
      ∀ c ∈ rest.head?, c ≠ '*' ∧ c ≠ '=' := by
  cases rest with
  | nil => exact ⟨fun _ => by simp, fun _ => rfl⟩
  | cons c rest =>
    by_cases hstar : c = '*'
    · subst hstar
      simp [punctuators, List.find?, startsWith]
      split <;> simp
    · by_cases hequals : c = '='
      · subst hequals
        simp [punctuators, List.find?, startsWith]
      · have hstar' : ('*' == c) = false := beq_eq_false_iff_ne.mpr (Ne.symm hstar)
        have hequals' : ('=' == c) = false := beq_eq_false_iff_ne.mpr (Ne.symm hequals)
        simp [punctuators, List.find?, startsWith, hstar', hequals', hstar, hequals]

theorem Spells.star {rest : List Char} (h : ∀ c ∈ rest.head?, c ≠ '*' ∧ c ≠ '=') :
    Spells (.punct "*") ['*'] rest := by
  refine ⟨rfl, fun fuel pos _ => ?_⟩
  have hpunct : readPunct ⟨'*' :: rest, pos⟩ = some (.punct "*", ⟨rest, pos + 1⟩) := by
    rw [readPunct, find?_star.mpr h]
    rfl
  simp [readToken, hpunct]
  rfl

theorem exists_spelling_punct {i next : Input} {token : Token}
    (h : readPunct i = some (token, next)) (hplain : token.isPlain = true) :
    ∃ spelling, spelling ≠ [] ∧ i.rest = spelling ++ next.rest ∧
      next.pos = i.pos + byteLength spelling ∧
      ∀ other, GoesOn next.rest other → Spells token spelling other := by
  obtain ⟨text, pos⟩ := i
  simp only [readPunct, bind, Option.bind_eq_some_iff, pure, Option.some.injEq] at h
  obtain ⟨mark, hfind, hfound⟩ := h
  cases hfound
  have hstarts := List.find?_some hfind
  have hmark : mark ∈ [";", ",", "*", "\x7b", "\x7d"] := List.contains_iff_mem.mp hplain
  obtain ⟨c, rest, hc, rfl⟩ : ∃ c rest, mark.toList = [c] ∧ text = c :: rest := by
    have hsingle : ∀ mark ∈ [";", ",", "*", "\x7b", "\x7d"], mark.toList.length = 1 := by decide
    obtain ⟨c, hc⟩ := List.length_eq_one_iff.mp (hsingle mark hmark)
    rw [hc] at hstarts
    cases text with
    | nil => cases hstarts
    | cons d rest =>
      rw [startsWith, Bool.and_eq_true, beq_iff_eq] at hstarts
      exact ⟨d, rest, by rw [hc, hstarts.1], rfl⟩
  have hlength : mark.length = 1 := by
    rw [← String.length_toList, hc]
    rfl
  rw [hlength]
  refine ⟨[c], by simp, rfl, rfl, fun other hother => ?_⟩
  replace hother : GoesOn rest other := hother
  simp only [List.mem_cons, List.not_mem_nil, or_false] at hmark
  rcases hmark with rfl | rfl | rfl | rfl | rfl
  all_goals
    cases hc
  · exact .semicolon other
  · exact .comma other
  · have hlone := find?_star.mp hfind
    refine .star fun d hd => ?_
    rcases hother with ⟨hsame, -⟩ | hbreak
    · exact hlone d (hsame ▸ hd)
    · rw [hbreak] at hd
      cases hd
      decide
  · exact .openBrace other
  · exact .closeBrace other

/-! ### Plain tokens -/

section

variable {i : Input}

theorem isPlain_readRadix (radix : Nat) : (readRadix radix i).1.isPlain = false := by
  unfold readRadix
  dsimp only
  repeat' split
  all_goals rfl

theorem isPlain_readDecimal : (readDecimal i).1.isPlain = false := by
  unfold readDecimal
  dsimp only
  repeat' split
  all_goals rfl

theorem isPlain_readNumeral : (readNumeral i).1.isPlain = false := by
  unfold readNumeral
  repeat' split
  all_goals first | exact isPlain_readRadix _ | exact isPlain_readDecimal

/-- Numbers are no plain tokens. -/
theorem isPlain_readNumber : (readNumber i).1.isPlain = false := by
  unfold readNumber
  dsimp only
  split
  · split
    · rfl
    · exact isPlain_readNumeral
  · exact isPlain_readNumeral

/-- A plain token without escapes is spelled alike before every text that goes on like the one
there. -/
theorem exists_spelling {fuel : Nat} {next : Input} {token : Token}
    (h : readToken fuel i = (token, next)) (hplain : token.isPlain = true)
    (hescape : Unescaped i.rest next.rest) :
    ∃ spelling, spelling ≠ [] ∧ i.rest = spelling ++ next.rest ∧
      next.pos = i.pos + byteLength spelling ∧
      ∀ other, GoesOn next.rest other → Spells token spelling other := by
  simp only [readToken] at h
  split at h
  · cases h
    cases hplain
  · rename_i c rest hrest
    split at h
    · rename_i hquote
      split at h
      · rename_i hstring
        cases h
        have hless : next.rest.length ≤ rest.length := by
          have hlength := length_readString hstring
          simpa [Input.skip, Input.advance, hrest] using hlength
        rw [hrest] at hescape
        obtain ⟨spelling, htext, hpos, hspells⟩ := exists_spelling_string (by simpa using hquote)
          hrest hstring (hescape.of_cons hless).2
        refine ⟨spelling, ?_, htext, hpos, hspells⟩
        rintro rfl
        have := congrArg List.length (hrest.symm.trans htext)
        simp only [List.length_cons, List.nil_append] at this
        omega
      · cases h
        cases hplain
    · split at h
      · have hnumber := congrArg (·.1.isPlain) h
        dsimp only at hnumber
        rw [isPlain_readNumber, hplain] at hnumber
        cases hnumber
      · split at h
        · split at h
          all_goals
            cases h
            cases hplain
        · split at h
          · rename_i hpunct
            subst h
            exact exists_spelling_punct hpunct hplain
          · cases hword : readWord fuel i with
            | none =>
              rw [hword] at h
              cases h
              cases hplain
            | some found =>
              rw [hword] at h
              subst h
              obtain ⟨word, htext, hpos, hspells⟩ := exists_spelling_word hword hescape
              refine ⟨word, ?_, htext, hpos, hspells⟩
              rintro rfl
              have hspell := (hspells _ (.inr rfl : GoesOn _ ['\n'])).solid
              cases hspell

end

theorem ne_nil_of_isPlain {fuel : Nat} {i : Input} (h : (readToken fuel i).1.isPlain = true) :
    i.rest ≠ [] := by
  intro hnil
  simp only [readToken, hnil] at h
  cases h

/-- The mark of a private name or an interpreter starts no plain token. -/
theorem head?_of_isPlain {fuel : Nat} {i : Input} (h : (readToken fuel i).1.isPlain = true) :
    i.rest.head? ≠ some '#' := by
  intro hhead
  obtain ⟨rest, hrest⟩ := List.head?_eq_some_iff.mp hhead
  have hquote : ('#' == '\x22' || '#' == '\x27') = false := rfl
  have hdigit : ('#'.isDigit || ('#' == '.' && rest.head?.any Char.isDigit)) = false := rfl
  simp only [readToken, hrest, hquote, hdigit, beq_self_eq_true, Bool.false_eq_true, if_false,
    if_true] at h
  split at h <;> cases h

end Phrasebook.Script
