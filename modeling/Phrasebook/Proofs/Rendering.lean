import Mathlib.Data.List.Chain
import Phrasebook.Outline.Walk
import Phrasebook.Proofs.Cleaning
import Phrasebook.Proofs.Layout

/-!
What is rendered where markup text becomes a message. The white space of the source that is kept
around the lookup is rendered as before; of what stands between it and the message, only white
space of other kinds is lost.
-/
namespace Phrasebook

open Script Outline

/-! ### Text as it stands in the source -/

namespace Script

/-- Somewhere in the text stands a character reference. -/
def hasReference : List Char → Bool
  | [] => false
  | c :: rest => (c == '&' && (readEntity? rest).isSome) || hasReference rest

theorem decodeEntitiesWith_of_not_hasReference (fuel : Nat) {text : List Char}
    (h : hasReference text = false) : decodeEntitiesWith fuel text = text := by
  fun_induction decodeEntitiesWith fuel text with
  | case1 => rfl
  | case2 => rfl
  | case3 fuel rest c after hread => simp [hasReference, hread] at h
  | case4 fuel rest hread ih => rw [ih (by simpa [hasReference, hread] using h)]
  | case5 fuel c rest _ ih =>
    rw [hasReference, Bool.or_eq_false_iff] at h
    rw [ih h.2]

theorem isSome_hexDigit? {digits : List Char} {start n : Nat}
    (h : digits.foldlM (fun n c => (hexDigit? c).map (n * 16 + ·)) start = some n) :
    ∀ c ∈ digits, (hexDigit? c).isSome = true := by
  induction digits generalizing start with
  | nil => simp
  | cons c digits ih =>
    cases hc : hexDigit? c with
    | none => simp [hc] at h
    | some d =>
      simp only [List.foldlM_cons, hc, Option.map_some, Option.bind_eq_bind, Option.bind_some] at h
      simpa [hc] using ih h

/-- The name of a reference stands in one line. -/
theorem not_mem_of_entityPoint? {name : List Char} {n : Nat} (h : entityPoint? name = some n) :
    '\n' ∉ name := by
  intro hmem
  unfold entityPoint? at h
  split at h
  · rename_i digits
    unfold hexValue? at h
    split at h
    · cases h
    · have hdigit := isSome_hexDigit? h '\n' (by simpa using hmem)
      exact absurd hdigit (by decide)
  · rename_i digits _
    split at h
    · rename_i hdigits
      rw [Bool.and_eq_true, List.all_eq_true] at hdigits
      exact absurd (hdigits.2 '\n' (by simpa using hmem)) (by decide)
    · cases h
  · obtain ⟨entity, hfind, -⟩ := Option.map_eq_some_iff.mp h
    have hname : entity.1.toList = name := by
      have := List.find?_some hfind
      simp_all
    have hnone : ∀ e ∈ entities, '\n' ∉ e.1.toList := by decide +kernel
    exact hnone entity (List.mem_of_find?_eq_some hfind) (hname ▸ hmem)

/-- A reference is a short name before a semicolon. -/
theorem isSome_readEntity?_iff {rest : List Char} : (readEntity? rest).isSome = true ↔
    ∃ name after n, rest = name ++ ';' :: after ∧ ';' ∉ name ∧ name.length < entityLimit ∧
      entityPoint? name = some n ∧ n.isValidChar := by
  constructor
  · intro h
    obtain ⟨found, hfound⟩ := Option.isSome_iff_exists.mp h
    simp only [readEntity?, Option.bind_eq_bind, Option.bind_eq_some_iff, Option.guard_eq_some']
      at hfound
    obtain ⟨-, hlength, n, hpoint, -, hvalid, -⟩ := hfound
    generalize hname : (rest.take entityLimit).takeWhile (· != ';') = name at hlength hpoint
    have hwindow : name ++ (rest.take entityLimit).dropWhile (· != ';') = rest.take entityLimit := by
      rw [← hname]
      exact List.takeWhile_append_dropWhile
    cases hafter : (rest.take entityLimit).dropWhile (· != ';') with
    | nil =>
      rw [hafter, List.append_nil] at hwindow
      exact absurd hlength (by simp [hwindow])
    | cons c after =>
      have hc : c = ';' := by
        have hhead := List.head?_dropWhile_not (· != ';') (rest.take entityLimit)
        simpa [hafter] using hhead
      refine ⟨name, after ++ rest.drop entityLimit, n, ?_, ?_, ?_, hpoint, hvalid⟩
      · rw [← List.cons_append, ← List.append_assoc, ← hc, ← hafter, hwindow,
          List.take_append_drop]
      · rw [← hname]
        intro hmem
        exact absurd (List.mem_takeWhile_imp hmem) (by simp)
      · exact Nat.lt_of_lt_of_le hlength (List.length_take_le _ _)
  · rintro ⟨name, after, n, rfl, hname, hlength, hpoint, hvalid⟩
    have hwindow : (name ++ ';' :: after).take entityLimit =
        name ++ ';' :: after.take (entityLimit - name.length - 1) := by
      rw [List.take_append, List.take_of_length_le (Nat.le_of_lt hlength)]
      obtain ⟨k, hk⟩ : ∃ k, entityLimit - name.length = k + 1 := ⟨entityLimit - name.length - 1, by omega⟩
      rw [hk]
      rfl
    have htake : (name ++ ';' :: after.take (entityLimit - name.length - 1)).takeWhile (· != ';') =
        name := by
      rw [List.takeWhile_append_of_pos (by grind)]
      simp
    simp only [readEntity?, hwindow, htake]
    simp [hpoint, hvalid]

theorem joinLineBreaks_prefix {raw before after : List Char} (hbefore : '\n' ∉ before)
    (h : joinLineBreaks raw = before ++ after) : ∃ rest, raw = before ++ rest := by
  cases before with
  | nil => exact ⟨raw, rfl⟩
  | cons c before =>
    rw [List.mem_cons, not_or] at hbefore
    fun_cases joinLineBreaks raw with
    | case1 => simp [joinLineBreaks] at h
    | case2 rest =>
      simp only [joinLineBreaks, List.cons_append, List.cons.injEq] at h
      exact absurd h.1 hbefore.1
    | case3 d rest hnot =>
      rw [joinLineBreaks.eq_3 _ _ hnot, List.cons_append, List.cons.injEq] at h
      obtain ⟨after', rfl⟩ := joinLineBreaks_prefix hbefore.2 h.2
      exact ⟨after', by simp [h.1]⟩
termination_by before.length

/-- Joining line breaks makes no references. -/
theorem hasReference_joinLineBreaks {raw : List Char} (h : hasReference raw = false) :
    hasReference (joinLineBreaks raw) = false := by
  fun_induction joinLineBreaks raw with
  | case1 => rfl
  | case2 rest ih => simpa [hasReference] using ih (by simpa [hasReference] using h)
  | case3 c rest _ ih =>
    rw [hasReference, Bool.or_eq_false_iff] at h ⊢
    refine ⟨?_, ih h.2⟩
    by_contra hread
    simp only [Bool.not_eq_false, Bool.and_eq_true, beq_iff_eq] at hread
    obtain ⟨rfl, hsome⟩ := hread
    obtain ⟨name, after, n, hjoined, hname, hlength, hpoint, hvalid⟩ :=
      isSome_readEntity?_iff.mp hsome
    have hline : '\n' ∉ name ++ [';'] := by simpa using not_mem_of_entityPoint? hpoint
    obtain ⟨after', hrest⟩ := joinLineBreaks_prefix hline (by simpa using hjoined)
    have hread : (readEntity? rest).isSome = true :=
      isSome_readEntity?_iff.mpr ⟨name, after', n, by simpa using hrest, hname, hlength, hpoint, hvalid⟩
    simp [hread] at h

/-- A text that was read from its place in the source, where no reference stands. -/
structure Source.Verbatim (source : Source) (span : Span) (value : String) : Prop where
  spelled : value.toList = decodeEntities (joinLineBreaks (source.snippet span).toList)
  unreferenced : hasReference (source.snippet span).toList = false

instance (source : Source) (span : Span) (value : String) :
    Decidable (source.Verbatim span value) :=
  decidable_of_iff
    (value.toList = decodeEntities (joinLineBreaks (source.snippet span).toList) ∧
      hasReference (source.snippet span).toList = false)
    ⟨fun h => ⟨h.1, h.2⟩, fun h => ⟨h.spelled, h.unreferenced⟩⟩

theorem Source.Verbatim.cleanChars_eq {source : Source} {span : Span} {value : String}
    (h : source.Verbatim span value) :
    Markup.cleanChars value.toList = Markup.cleanChars (source.snippet span).toList := by
  rw [h.spelled, decodeEntities,
    decodeEntitiesWith_of_not_hasReference _ (hasReference_joinLineBreaks h.unreferenced),
    Markup.cleanChars_joinLineBreaks]

end Script

/-! ### One text -/

namespace Markup

theorem isWhite_of_isSpace {c : Char} (h : isSpace c = true) : Text.isWhite c = true := by
  simp only [isSpace, Bool.or_eq_true, beq_iff_eq] at h
  obtain ((rfl | rfl) | rfl) | rfl := h <;> rfl

/-- No white space of other kinds stands at the ends of what is visible. -/
def Flush (raw : List Char) : Prop :=
  (∀ c ∈ (raw.dropWhile isSpace).head?, Text.isWhite c = false) ∧
    ∀ c ∈ (raw.rdropWhile isSpace).getLast?, Text.isWhite c = false

instance (raw : List Char) : Decidable (Flush raw) :=
  decidable_of_iff (((raw.dropWhile isSpace).head?.all (!Text.isWhite ·) &&
    (raw.rdropWhile isSpace).getLast?.all (!Text.isWhite ·)) = true)
    (by simp [Flush, Option.all_eq_true])

/-- The white space at the ends of a text is rendered on its own, and between it what stands from
the first to the last visible character. -/
theorem exists_cleanChars_between {raw : List Char} (hvisible : ∃ c ∈ raw, isSpace c = false) :
    ∃ inner, cleanChars raw = cleanChars (raw.takeWhile isSpace) ++ inner ++
        cleanChars (raw.rtakeWhile isSpace) ∧
      inner.head? = (raw.dropWhile isSpace).head? ∧
      inner.getLast? = (raw.rdropWhile isSpace).getLast? := by
  have hstart := not_isSpace_head?_dropWhile raw
  have hlead : ∀ c ∈ raw.takeWhile isSpace, isSpace c = true := fun c hc =>
    List.mem_takeWhile_imp hc
  have hraw : raw.takeWhile isSpace ++ raw.dropWhile isSpace = raw :=
    List.takeWhile_append_dropWhile
  generalize raw.takeWhile isSpace = lead, raw.dropWhile isSpace = rest at hstart hlead hraw ⊢
  subst hraw
  have hmid : rest.rdropWhile isSpace ≠ [] := by
    intro hnil
    obtain ⟨c, hc, hshown⟩ := hvisible
    have hspace := List.forall_mem_append.mpr ⟨hlead, List.rdropWhile_eq_nil_iff.mp hnil⟩
    simp [hspace c hc] at hshown
  have hdrop : (lead ++ rest).rdropWhile isSpace = lead ++ rest.rdropWhile isSpace :=
    Text.rdropWhile_append_of_ne_nil hmid
  have htake : (lead ++ rest).rtakeWhile isSpace = rest.rtakeWhile isSpace := by
    have hsplit : (lead ++ rest).rdropWhile isSpace ++ (lead ++ rest).rtakeWhile isSpace =
        lead ++ rest := List.rdropWhile_append_rtakeWhile
    rw [hdrop, List.append_assoc, List.append_cancel_left_eq] at hsplit
    exact List.append_cancel_left (hsplit.trans List.rdropWhile_append_rtakeWhile.symm)
  have hmidStart : (rest.rdropWhile isSpace).head? = rest.head? := by
    obtain ⟨c, mid, hcons⟩ := List.exists_cons_of_ne_nil hmid
    obtain ⟨after, hafter⟩ := List.rdropWhile_prefix isSpace rest
    rw [hcons] at hafter ⊢
    rw [← hafter]
    rfl
  have hmidEnd := not_isSpace_getLast?_rdropWhile rest
  refine ⟨cleanChars (rest.rdropWhile isSpace), ?_, ?_, ?_⟩
  · rw [cleanChars_space_append hlead hstart, cleanChars_split_end rest, htake, List.append_assoc]
  · rw [head?_cleanChars (hmidStart ▸ hstart), hmidStart]
  · rw [getLast?_cleanChars hmidEnd, hdrop, List.getLast?_append_of_ne_nil _ hmid]

/-- White space around `inner`, less what is white at its ends: nothing is lost exactly if nothing
at its ends is white. -/
theorem between_eq_iff {α : Type} {white : α → Bool} {before inner after : List α} :
    before ++ inner ++ after =
        before ++ (inner.dropWhile white).rdropWhile white ++ after ↔
      (∀ a ∈ inner.head?, white a = false) ∧ ∀ a ∈ inner.getLast?, white a = false := by
  rw [← Text.trim_eq_self_iff, List.append_cancel_right_eq, List.append_cancel_left_eq, eq_comm]

/-- Of a rendered text with target text, the message is what stands between the white space that
is kept, less the white space at its ends. -/
theorem exists_clean_between {source : Source} {span : Span} {value : String}
    (h : source.Verbatim span value) (htarget : Text.hasTarget (Text.trim (clean value)) = true) :
    let raw := source.snippet span
    ∃ inner : List Char,
      (clean value).toList =
        (clean (leading raw)).toList ++ inner ++ (clean (trailing raw)).toList ∧
      (Text.trim (clean value)).toList =
        (inner.dropWhile Text.isWhite).rdropWhile Text.isWhite ∧
      inner.head? = (raw.toList.dropWhile isSpace).head? ∧
      inner.getLast? = (raw.toList.rdropWhile isSpace).getLast? := by
  intro raw
  have hchars : (clean value).toList = cleanChars raw.toList := by
    rw [clean, String.toList_ofList, h.cleanChars_eq]
  have hvisible : ∃ c ∈ raw.toList, isSpace c = false := by
    by_contra hnone
    push Not at hnone
    have hall : ∀ c ∈ raw.toList, isSpace c = true := by simpa using hnone
    have hspace := isSpace_of_mem_cleanChars hall
    rw [Text.hasTarget_trim, Text.hasTarget, hchars, List.any_eq_true] at htarget
    obtain ⟨c, hc, hisTarget⟩ := htarget
    simp [Text.not_isTarget_of_isWhite (isWhite_of_isSpace (hspace c hc))] at hisTarget
  obtain ⟨inner, hinner, hhead, hlast⟩ := exists_cleanChars_between hvisible
  have hlead : (clean (leading raw)).toList = cleanChars (raw.toList.takeWhile isSpace) := by
    simp [clean, leading]
  have htrail : (clean (trailing raw)).toList = cleanChars (raw.toList.rtakeWhile isSpace) := by
    simp [clean, trailing, Text.takeEndWhile, List.rtakeWhile]
  refine ⟨inner, by rw [hchars, hinner, hlead, htrail], ?_, hhead, hlast⟩
  have hwhite : ∀ cs : List Char, (∀ c ∈ cs, isSpace c = true) →
      ∀ c ∈ cleanChars cs, Text.isWhite c = true := fun cs hcs c hc =>
    isWhite_of_isSpace (isSpace_of_mem_cleanChars hcs c hc)
  have htrim : (Text.trim (clean value)).toList =
      ((clean value).toList.dropWhile Text.isWhite).rdropWhile Text.isWhite := by
    rw [Text.trim, String.toList_ofList]
    rfl
  rw [htrim, hchars, hinner]
  exact Text.trim_between (hwhite _ fun c hc => List.mem_takeWhile_imp hc)
    (hwhite _ fun c hc => List.mem_rtakeWhile_imp hc)

end Markup

/-- A static text is left alone, or replaced by the lookup of the key that the handler gives. -/
theorem Walk.step_static {σ : Type} (s : Setting) (handle : Handler σ) (w : Walk σ)
    (kind : SiteKind) (span : Span) (lead trail text : String) :
    let after := Walk.step s handle w (.braced kind span lead trail [.text text] [])
    after.place = w.place ∨
      ∃ key, handle (w.siteAt s kind span text []) w.handler = (some key, after.handler) ∧
        after.place = w.place.addEdits [⟨span.lo, span.hi,
          lead ++ "\x7b" ++ renderLookup s.options.lookupFunction key [] ++ "\x7d" ++ trail, key⟩] := by
  have hbound : Bound.fill s.source {} [.text text] [] = { text := text } := by
    simp [Bound.fill, Bound.pushText]
  have hnames : ({} : SlotNames).names = [] ∧ ({} : SlotNames).bindings = [] := ⟨rfl, rfl⟩
  by_cases hshadowed : 0 < w.place.shadowed
  · left
    simp [Walk.step, Walk.values, hbound, Walk.finish, Walk.ask, hshadowed, Walk.addEdits,
      Walk.addNotes]
  · cases hhandle : handle (w.siteAt s kind span text []) w.handler with
    | mk answer state =>
      cases answer with
      | none =>
        left
        simp [Walk.step, Walk.values, hbound, hnames, Walk.finish, Walk.ask, hshadowed, hhandle,
          Walk.addEdits]
      | some key =>
        right
        refine ⟨key, ?_, ?_⟩ <;>
          simp [Walk.step, Walk.values, hbound, hnames, Walk.finish, Walk.ask, hshadowed, hhandle,
            Walk.addExtraction, Walk.addEdits, Walk.addKey]

/-- A text of markup is left alone or replaced by a lookup between the white space around it. The
text is then rendered as before but for white space next to the message, which is lost exactly if
the visible text starts or ends with it. -/
theorem text_replaced_between_space {σ : Type} (s : Setting) (handle : Handler σ) (w : Walk σ)
    {span : Span} {value : String} (h : s.source.Verbatim span value) :
    let raw := s.source.snippet span
    let after := Walk.steps s handle w (s.markupText span value)
    after.place = w.place ∨
      ∃ text key,
        handle (w.siteAt s .markupText span text []) w.handler = (some key, after.handler) ∧
        after.place = w.place.addEdits [⟨span.lo, span.hi,
          Markup.leading raw ++ "\x7b" ++ renderLookup s.options.lookupFunction key [] ++ "\x7d" ++
            Markup.trailing raw, key⟩] ∧
        (∃ before behind : List Char, (∀ c ∈ before ++ behind, Text.isWhite c = true) ∧
          Markup.clean value = Markup.clean (Markup.leading raw) ++ String.ofList before ++ text ++
            String.ofList behind ++ Markup.clean (Markup.trailing raw)) ∧
        (Markup.clean value =
            Markup.clean (Markup.leading raw) ++ text ++ Markup.clean (Markup.trailing raw) ↔
          Markup.Flush raw.toList) := by
  intro raw after
  by_cases htarget : Text.hasTarget (Text.trim (Markup.clean value)) = true
  case neg =>
    left
    simp [after, Setting.markupText, htarget, Walk.steps]
  by_cases hdata : s.file.isData = true
  case pos =>
    left
    simp [after, Setting.markupText, htarget, hdata, Walk.steps, Walk.step, Walk.addNotes]
  have hafter : after = Walk.step s handle w (.braced .markupText span (Markup.leading raw)
      (Markup.trailing raw) [.text (Text.trim (Markup.clean value))] []) := by
    simp [after, Setting.markupText, htarget, hdata, Walk.steps, raw]
  obtain ⟨inner, hclean, htrim, hhead, hlast⟩ := Markup.exists_clean_between h htarget
  rw [hafter]
  refine (Walk.step_static s handle w _ _ _ _ _).imp_right ?_
  rintro ⟨key, hhandle, hplace⟩
  refine ⟨_, key, hhandle, hplace, ?_, ?_⟩
  · refine ⟨inner.takeWhile Text.isWhite, (inner.dropWhile Text.isWhite).rtakeWhile Text.isWhite,
      ?_, ?_⟩
    · rw [List.forall_mem_append]
      exact ⟨fun c hc => List.mem_takeWhile_imp hc, fun c hc => List.mem_rtakeWhile_imp hc⟩
    · apply String.ext
      have hinner : inner.takeWhile Text.isWhite ++ (Text.trim (Markup.clean value)).toList ++
          (inner.dropWhile Text.isWhite).rtakeWhile Text.isWhite = inner := by
        rw [htrim, List.append_assoc, List.rdropWhile_append_rtakeWhile,
          List.takeWhile_append_dropWhile]
      rw [hclean]
      nth_rewrite 1 [← hinner]
      simp [raw]
  · have hiff : Markup.clean value = Markup.clean (Markup.leading raw) ++
          Text.trim (Markup.clean value) ++ Markup.clean (Markup.trailing raw) ↔
        (∀ c ∈ inner.head?, Text.isWhite c = false) ∧
          ∀ c ∈ inner.getLast?, Text.isWhite c = false := by
      rw [← Markup.between_eq_iff, ← htrim, ← hclean, ← String.toList_inj]
      simp [raw]
    rw [hiff, hhead, hlast]
    rfl

/-- A wide space after the text is lost, the tab before it and the space at the end are kept. -/
theorem text_replaced_between_space_wide :
    let code := "<p>\t保存\u3000" ++ " </p>"
    ∃ source, Source.read true code = .ok source ∧
      let value := "\t保存\u3000 "
      (∃ n ∈ source.tree.subnodes, n.kind = .text value ∧ n.span = ⟨3, 14⟩) ∧
      source.Verbatim ⟨3, 14⟩ value ∧
      let s := Setting.of source ⟨"src/a.tsx", .component⟩ {}
      let handle : Handler Unit := fun site h => (some site.text, h)
      let w : Walk Unit := { handler := (), place := { frames := [[]] } }
      let edit : Edit := ⟨3, 14, "\t\x7bt(\"保存\")\x7d ", "保存"⟩
      (Walk.steps s handle w (s.markupText ⟨3, 14⟩ value)).place.frames = [[edit]] ∧
      Markup.clean value ≠ Markup.clean "\t" ++ "保存" ++ Markup.clean " " := by
  intro code
  subst code
  generalize hcode : (_ : String) ++ (_ : String) = code
  have hchecked : (Source.read true code).toOption.any (fun source =>
      let value := "\t保存\u3000 "
      let s := Setting.of source ⟨"src/a.tsx", .component⟩ {}
      let handle : Handler Unit := fun site h => (some site.text, h)
      let w : Walk Unit := { handler := (), place := { frames := [[]] } }
      let edit : Edit := ⟨3, 14, "\t\x7bt(\"保存\")\x7d ", "保存"⟩
      decide ((∃ n ∈ source.tree.subnodes, n.kind = .text value ∧ n.span = ⟨3, 14⟩) ∧
        source.snippet ⟨3, 14⟩ = value ∧ source.Verbatim ⟨3, 14⟩ value ∧
        (Walk.steps s handle w (s.markupText ⟨3, 14⟩ value)).place.frames = [[edit]])) = true := by
    rw [← hcode]
    decide +kernel
  obtain ⟨source, hread, hnode, hraw, hverbatim, hframes⟩ := Source.exists_read hchecked
  refine ⟨source, hread, hnode, hverbatim, hframes, ?_⟩
  rcases text_replaced_between_space (Setting.of source ⟨"src/a.tsx", .component⟩ {})
    (fun site h => (some site.text, h)) { handler := (), place := { frames := [[]] } }
    hverbatim with hsame | ⟨text, key, hhandle, hplace, -, hiff⟩
  · simp [hsame] at hframes
  · have hkey : text = key := by simpa [Walk.siteAt] using congrArg Prod.fst hhandle
    have htext : key = "保存" := by
      rw [hplace] at hframes
      simp only [Place.addEdits, List.nil_append, List.cons.injEq, Edit.mk.injEq] at hframes
      exact hframes.1.1.2.2.2
    have hlost : ¬ Markup.Flush "\t保存\u3000 ".toList := by decide
    have hraw' : (Setting.of source ⟨"src/a.tsx", .component⟩ {}).source.snippet ⟨3, 14⟩ =
      "\t保存\u3000 " := hraw
    rw [hkey, htext, hraw'] at hiff
    exact fun heq => hlost (hiff.mp heq)

/-! ### Several children -/

namespace Markup

/-- What children render: characters, and the values of containers. -/
inductive Glyph where
  | char (c : Char)
  /-- The value of the container at a position among the children. -/
  | value (index : Nat)
deriving DecidableEq, Repr

def Glyph.isWhite : Glyph → Bool
  | .char c => Text.isWhite c
  | .value _ => false

def glyphs (text : String) : List Glyph := text.toList.map .char

def Piece.glyphs (index : Nat) : Piece → List Glyph
  | .static text => Markup.glyphs text
  | .dynamic => [.value index]

/-- What children next to each other render, the first of which has position `index`. -/
def content (index : Nat) : List Node → List Glyph
  | [] => []
  | child :: rest => (pieceOf child).glyphs index ++ content (index + 1) rest

def RunPart.glyphs : RunPart → List Glyph
  | .text static => Markup.glyphs static
  | .expr index => [.value index]

theorem glyphs_append (a b : String) : glyphs (a ++ b) = glyphs a ++ glyphs b := by
  simp [glyphs]

theorem content_append (before after : List Node) (index : Nat) :
    content index (before ++ after) = content index before ++ content (index + before.length) after := by
  induction before generalizing index with
  | nil => rfl
  | cons child rest ih =>
    simp [content, ih, Nat.add_assoc, Nat.add_comm 1]

/-! Texts are joined and trimmed without anything else being lost. -/

theorem glyphs_pushRunText (parts : List RunPart) (text : String) :
    (pushRunText parts text).flatMap RunPart.glyphs =
      parts.flatMap RunPart.glyphs ++ glyphs text := by
  unfold pushRunText
  split
  · rename_i last hlast
    obtain ⟨before, rfl⟩ := List.getLast?_eq_some_iff.mp hlast
    simp [RunPart.glyphs, glyphs_append]
  · simp [RunPart.glyphs]

theorem glyphs_runParts (members : List Node) (index : Nat) (parts : List RunPart) :
    (runParts index parts members).flatMap RunPart.glyphs =
      parts.flatMap RunPart.glyphs ++ content index members := by
  induction members generalizing index parts with
  | nil => simp [runParts, content]
  | cons child rest ih =>
    rw [runParts, content]
    cases hpiece : pieceOf child with
    | static text => simp [ih, glyphs_pushRunText, Piece.glyphs]
    | dynamic => simp [ih, RunPart.glyphs, Piece.glyphs]

def RunPart.isText : RunPart → Bool
  | .text _ => true
  | .expr _ => false

/-- No two texts stand next to each other. -/
def Alternating (parts : List RunPart) : Prop :=
  parts.IsChain fun a b => (a.isText && b.isText) = false

theorem alternating_concat {parts : List RunPart} {part : RunPart} : Alternating (parts ++ [part]) ↔
    Alternating parts ∧ ∀ last ∈ parts.getLast?, (last.isText && part.isText) = false := by
  simp [Alternating, List.isChain_append]

theorem alternating_pushRunText {parts : List RunPart} (h : Alternating parts) (text : String) :
    Alternating (pushRunText parts text) := by
  unfold pushRunText
  split
  · rename_i last hlast
    obtain ⟨before, rfl⟩ := List.getLast?_eq_some_iff.mp hlast
    rw [List.dropLast_concat]
    rw [alternating_concat] at h ⊢
    exact h
  · rename_i hnot
    refine alternating_concat.mpr ⟨h, fun last hlast => ?_⟩
    cases last with
    | text static => exact absurd hlast (hnot static)
    | expr index => rfl

theorem alternating_runParts (members : List Node) (index : Nat) {parts : List RunPart}
    (h : Alternating parts) : Alternating (runParts index parts members) := by
  induction members generalizing index parts with
  | nil => exact h
  | cons child rest ih =>
    rw [runParts]
    cases hpiece : pieceOf child with
    | static text => exact ih _ (alternating_pushRunText h text)
    | dynamic => exact ih _ (alternating_concat.mpr ⟨h, fun last _ => Bool.and_false _⟩)

theorem alternating_trimFirst {parts : List RunPart} (h : Alternating parts) :
    Alternating (trimFirst parts) := by
  unfold trimFirst
  split
  · rename_i text rest
    cases rest with
    | nil => exact .singleton _
    | cons next rest => exact List.isChain_cons_cons.mpr (List.isChain_cons_cons.mp h)
  · exact h

theorem glyphs_trimStart (text : String) :
    glyphs (Text.trimStart text) = (glyphs text).dropWhile Glyph.isWhite := by
  rw [glyphs, glyphs, Text.trimStart, String.toList_ofList, List.dropWhile_map]
  rfl

theorem glyphs_trimEnd (text : String) :
    glyphs (Text.trimEnd text) = (glyphs text).rdropWhile Glyph.isWhite := by
  rw [glyphs, glyphs, Text.trimEnd, String.toList_ofList, Text.dropEndWhile, List.rdropWhile,
    ← List.map_reverse, List.dropWhile_map, List.map_reverse]
  rfl

theorem glyphs_trimFirst {parts : List RunPart} (h : Alternating parts) :
    (trimFirst parts).flatMap RunPart.glyphs =
      (parts.flatMap RunPart.glyphs).dropWhile Glyph.isWhite := by
  unfold trimFirst
  split
  · rename_i text rest
    have hrest : (rest.flatMap RunPart.glyphs).dropWhile Glyph.isWhite =
        rest.flatMap RunPart.glyphs := by
      cases rest with
      | nil => rfl
      | cons next rest =>
        cases next with
        | text static => simp [Alternating, RunPart.isText] at h
        | expr index => rfl
    rw [List.flatMap_cons, List.flatMap_cons, List.dropWhile_append]
    split
    · rename_i hwhite
      have hnil : (glyphs text).dropWhile Glyph.isWhite = [] := List.isEmpty_iff.mp hwhite
      rw [hrest, RunPart.glyphs, glyphs_trimStart, hnil, List.nil_append]
    · rw [RunPart.glyphs, glyphs_trimStart, RunPart.glyphs]
  · rename_i hnot
    cases parts with
    | nil => rfl
    | cons part rest =>
      cases part with
      | text static => exact absurd rfl (hnot static rest)
      | expr index => rfl

theorem glyphs_trimLast {parts : List RunPart} (h : Alternating parts) :
    (trimLast parts).flatMap RunPart.glyphs =
      (parts.flatMap RunPart.glyphs).rdropWhile Glyph.isWhite := by
  have hexpr : ∀ (before : List RunPart) (index : Nat),
      ((before ++ [RunPart.expr index]).flatMap RunPart.glyphs).rdropWhile Glyph.isWhite =
        (before ++ [RunPart.expr index]).flatMap RunPart.glyphs := by
    intro before index
    rw [List.flatMap_append]
    exact List.rdropWhile_concat_neg _ _ _ (by simp [Glyph.isWhite])
  rcases List.eq_nil_or_concat parts with rfl | ⟨before, last, rfl⟩
  · rfl
  rw [List.concat_eq_append] at h ⊢
  cases last with
  | expr index => simpa [trimLast] using (hexpr before index).symm
  | text static =>
    have hbefore : (before.flatMap RunPart.glyphs).rdropWhile Glyph.isWhite =
        before.flatMap RunPart.glyphs := by
      rcases List.eq_nil_or_concat before with rfl | ⟨others, next, rfl⟩
      · rfl
      · rw [List.concat_eq_append] at h ⊢
        cases next with
        | text other => simpa [RunPart.isText] using (alternating_concat.mp h).2
        | expr index => exact hexpr others index
    have hlast : (trimLast (before ++ [RunPart.text static])).flatMap RunPart.glyphs =
        before.flatMap RunPart.glyphs ++ (glyphs static).rdropWhile Glyph.isWhite := by
      simp [trimLast, RunPart.glyphs, glyphs_trimEnd]
    have hall : (before ++ [RunPart.text static]).flatMap RunPart.glyphs =
        before.flatMap RunPart.glyphs ++ glyphs static := by
      simp [RunPart.glyphs]
    rw [hlast, hall]
    by_cases hwhite : (glyphs static).rdropWhile Glyph.isWhite = []
    · rw [hwhite, Text.rdropWhile_append_of_pos (List.rdropWhile_eq_nil_iff.mp hwhite), hbefore,
        List.append_nil]
    · rw [Text.rdropWhile_append_of_ne_nil hwhite]

theorem glyphs_filter_isEmptyText (parts : List RunPart) :
    (parts.filter (!isEmptyText ·)).flatMap RunPart.glyphs = parts.flatMap RunPart.glyphs := by
  induction parts with
  | nil => rfl
  | cons part rest ih =>
    by_cases hempty : part = .text ""
    · simpa [hempty, isEmptyText, RunPart.glyphs, glyphs] using ih
    · have hkept : (!isEmptyText part) = true := by simpa [isEmptyText] using hempty
      rw [List.filter_cons, if_pos hkept, List.flatMap_cons, List.flatMap_cons, ih]

/-! The white space that is kept is rendered at the ends of the first and the last child. -/

theorem isWhite_of_mem_clean {raw : String} (h : ∀ c ∈ raw.toList, isSpace c = true) :
    ∀ g ∈ glyphs (clean raw), g.isWhite = true := by
  intro g hg
  obtain ⟨c, hc, rfl⟩ := List.mem_map.mp hg
  rw [clean, String.toList_ofList] at hc
  exact isWhite_of_isSpace (isSpace_of_mem_cleanChars h c hc)

theorem isWhite_of_mem_leadingOf (source : Source) (child : Node) :
    ∀ g ∈ glyphs (clean (leadingOf source child)), g.isWhite = true := by
  refine isWhite_of_mem_clean fun c hc => ?_
  unfold leadingOf at hc
  split at hc
  · rw [leading, String.toList_ofList] at hc
    exact List.mem_takeWhile_imp hc
  · simp at hc

theorem isWhite_of_mem_trailingOf (source : Source) (child : Node) :
    ∀ g ∈ glyphs (clean (trailingOf source child)), g.isWhite = true := by
  refine isWhite_of_mem_clean fun c hc => ?_
  unfold trailingOf at hc
  split at hc
  · rw [trailing, String.toList_ofList] at hc
    exact List.mem_rtakeWhile_imp hc
  · simp at hc

/-- A text among the children was read from its place, where no reference stands. -/
def IsVerbatim (source : Source) (child : Node) : Prop :=
  match child.kind with
  | .text value => source.Verbatim child.span value
  | _ => True

instance (source : Source) (child : Node) : Decidable (IsVerbatim source child) := by
  unfold IsVerbatim
  split <;> infer_instance

theorem IsVerbatim.verbatim {source : Source} {child : Node} {value : String}
    (h : IsVerbatim source child) (hkind : child.kind = .text value) :
    source.Verbatim child.span value := by
  simpa [IsVerbatim, hkind] using h

theorem glyphs_pieceOf_text {child : Node} {value : String} (h : child.kind = .text value)
    (index : Nat) : (pieceOf child).glyphs index = glyphs (clean value) := by
  obtain ⟨kind, span, children⟩ := child
  cases h
  rfl

theorem exists_glyphs_leadingOf {source : Source} {child : Node}
    (h : IsVerbatim source child) (index : Nat) :
    ∃ rest, (pieceOf child).glyphs index = glyphs (clean (leadingOf source child)) ++ rest := by
  unfold leadingOf
  split
  · rename_i value hkind
    rw [glyphs_pieceOf_text hkind, glyphs, glyphs, clean, clean, leading, String.toList_ofList,
      String.toList_ofList, String.toList_ofList, (h.verbatim hkind).cleanChars_eq,
      cleanChars_split_start,
      List.map_append]
    exact ⟨_, rfl⟩
  · exact ⟨_, rfl⟩

theorem exists_glyphs_trailingOf {source : Source} {child : Node}
    (h : IsVerbatim source child) (index : Nat) :
    ∃ rest, (pieceOf child).glyphs index = rest ++ glyphs (clean (trailingOf source child)) := by
  unfold trailingOf
  split
  · rename_i value hkind
    rw [glyphs_pieceOf_text hkind, glyphs, glyphs, clean, clean, trailing, String.toList_ofList,
      String.toList_ofList, String.toList_ofList, (h.verbatim hkind).cleanChars_eq,
      cleanChars_split_end,
      List.map_append]
    exact ⟨_, rfl⟩
  · exact ⟨_, (List.append_nil _).symm⟩

/-- What a run renders, between the white space that is kept around it. -/
theorem planRun_between {source : Source} {start : Nat} {members : List Node} {r : Run}
    (h : planRun source start members = some r)
    (hverbatim : ∀ child ∈ members, IsVerbatim source child) :
    ∃ inner, content start members = glyphs (clean r.leading) ++ inner ++
        glyphs (clean r.trailing) ∧
      r.parts.flatMap RunPart.glyphs = (inner.dropWhile Glyph.isWhite).rdropWhile Glyph.isWhite := by
  have hmany := length_of_isMergeable (isMergeable_of_planRun h)
  obtain ⟨first, mid, last, rfl⟩ : ∃ first mid last, members = first :: (mid ++ [last]) := by
    obtain _ | ⟨first, rest⟩ := members
    · simp at hmany
    · rcases List.eq_nil_or_concat rest with rfl | ⟨mid, last, rfl⟩
      · simp at hmany
      · exact ⟨first, mid, last, by rw [List.concat_eq_append]⟩
  obtain ⟨afterFirst, hfirst⟩ := exists_glyphs_leadingOf (hverbatim first (by simp)) start
  obtain ⟨beforeLast, hlast⟩ :=
    exists_glyphs_trailingOf (hverbatim last (by simp)) (start + 1 + mid.length)
  have hcontent : content start (first :: (mid ++ [last])) =
      glyphs (clean (leadingOf source first)) ++
        (afterFirst ++ content (start + 1) mid ++ beforeLast) ++
        glyphs (clean (trailingOf source last)) := by
    simp [content, content_append, hfirst, hlast]
  have hparts : ((trimLast (trimFirst (runParts start [] (first :: (mid ++ [last]))))).filter
        (!isEmptyText ·)).flatMap RunPart.glyphs =
      ((content start (first :: (mid ++ [last]))).dropWhile Glyph.isWhite).rdropWhile
        Glyph.isWhite := by
    have halternating := alternating_runParts (first :: (mid ++ [last])) start (.nil : Alternating [])
    rw [glyphs_filter_isEmptyText, glyphs_trimLast (alternating_trimFirst halternating),
      glyphs_trimFirst halternating, glyphs_runParts]
    rfl
  rw [hcontent, Text.trim_between (isWhite_of_mem_leadingOf source first)
    (isWhite_of_mem_trailingOf source last)] at hparts
  have hlast? : (first :: (mid ++ [last])).getLast? = some last := by
    rw [← List.cons_append, List.getLast?_concat]
  simp only [planRun, List.head?_cons, hlast?, isMergeable_of_planRun h, if_true,
    Option.some.injEq] at h
  subst h
  exact ⟨_, hcontent, hparts⟩

theorem planRun_range {source : Source} {start : Nat} {members : List Node} {r : Run}
    (h : planRun source start members = some r) :
    r.start = start ∧ r.stop = start + members.length := by
  unfold planRun at h
  split at h
  · split at h
    · cases h
      exact ⟨rfl, rfl⟩
    · cases h
  · cases h

theorem planRun_members {source : Source} {r : Run} {passed gathered : List Node}
    (h : planRun source (passed.length + gathered.length - gathered.length) gathered = some r)
    (rest : List Node) : planRun source r.start (r.members (passed ++ gathered ++ rest)) = some r := by
  rw [Nat.add_sub_cancel] at h
  obtain ⟨hstart, hstop⟩ := planRun_range h
  have hmembers : r.members (passed ++ gathered ++ rest) = gathered := by
    simp [Run.members, hstart, hstop]
  rw [hmembers, hstart, h]

/-- A run is planned from the children that it takes up. -/
theorem planFrom_planned {source : Source} {r : Run} (rest : List Node) {passed gathered : List Node}
    (h : r ∈ planFrom source (passed.length + gathered.length) gathered rest) :
    planRun source r.start (r.members (passed ++ gathered ++ rest)) = some r := by
  induction rest generalizing passed gathered with
  | nil => exact planRun_members (Option.mem_toList.mp h) []
  | cons child rest ih =>
    simp only [planFrom] at h
    split at h
    · have hindex : passed.length + gathered.length + 1 =
          passed.length + (gathered ++ [child]).length := by simp [Nat.add_assoc]
      rw [hindex] at h
      simpa using ih h
    · rcases List.mem_append.mp h with h | h
      · exact planRun_members (Option.mem_toList.mp h) _
      · have hindex : passed.length + gathered.length + 1 =
            (passed ++ gathered ++ [child]).length + ([] : List Node).length := by
          simp [Nat.add_assoc]
        rw [hindex] at h
        simpa using ih h

theorem planChildren_planned {source : Source} {children : List Node} {r : Run}
    (h : r ∈ planChildren source children) :
    planRun source r.start (r.members children) = some r := by
  have hplanned : r ∈ planFrom source (([] : List Node).length + ([] : List Node).length) []
      children := h
  simpa using planFrom_planned children hplanned

/-- The children of a run render the white space that is kept before it, its parts and the white
space that is kept after it, but for other white space next to the parts, which is lost. Nothing is
lost exactly if what stands between the white space that is kept neither starts nor ends with any. -/
theorem run_rendered_between_space {source : Source} {children : List Node} {r : Run}
    (hr : r ∈ planChildren source children)
    (hverbatim : ∀ child ∈ r.members children, IsVerbatim source child) :
    let whole := content r.start (r.members children)
    let lead := glyphs (clean r.leading)
    let trail := glyphs (clean r.trailing)
    ∃ inner : List Glyph, whole = lead ++ inner ++ trail ∧
      r.parts.flatMap RunPart.glyphs = (inner.dropWhile Glyph.isWhite).rdropWhile Glyph.isWhite ∧
      (whole = lead ++ r.parts.flatMap RunPart.glyphs ++ trail ↔
        (∀ g ∈ inner.head?, g.isWhite = false) ∧ ∀ g ∈ inner.getLast?, g.isWhite = false) := by
  intro whole lead trail
  obtain ⟨inner, hwhole, hparts⟩ := planRun_between (planChildren_planned hr) hverbatim
  refine ⟨inner, hwhole, hparts, ?_⟩
  rw [← between_eq_iff, hparts]
  exact Iff.of_eq (congrArg (· = _) hwhole)

/-- The space in the first container is lost, the line break at the end is not rendered at all. -/
theorem run_rendered_between_space_container :
    let code := "<p>\x7b\" \"\x7d共\x7bcount\x7d条\n" ++ "</p>"
    ∃ source, Source.read true code = .ok source ∧
      ∃ n ∈ source.tree.subnodes, ∃ r ∈ planChildren source (rendered n),
        (∀ child ∈ r.members (rendered n), IsVerbatim source child) ∧
        r.parts = [.text "共", .expr 2, .text "条"] ∧
        content r.start (r.members (rendered n)) =
          [.char ' ', .char '共', .value 2, .char '条'] ∧
        content r.start (r.members (rendered n)) ≠ glyphs (clean r.leading) ++
          r.parts.flatMap RunPart.glyphs ++ glyphs (clean r.trailing) := by
  intro code
  subst code
  generalize hcode : (_ : String) ++ (_ : String) = code
  have hchecked : (Source.read true code).toOption.any (fun source => decide
      (∃ n ∈ source.tree.subnodes, ∃ r ∈ planChildren source (rendered n),
        (∀ child ∈ r.members (rendered n), IsVerbatim source child) ∧
        r.parts = [.text "共", .expr 2, .text "条"] ∧
        content r.start (r.members (rendered n)) =
          [.char ' ', .char '共', .value 2, .char '条'] ∧
        glyphs (clean r.leading) = [] ∧ glyphs (clean r.trailing) = [])) = true := by
    rw [← hcode]
    decide +kernel
  obtain ⟨source, hread, n, hn, r, hr, hverbatim, hparts, hcontent, hlead, htrail⟩ :=
    Source.exists_read hchecked
  refine ⟨source, hread, n, hn, r, hr, hverbatim, hparts, hcontent, ?_⟩
  obtain ⟨inner, hwhole, -, hiff⟩ := run_rendered_between_space hr hverbatim
  have hinner : inner = [.char ' ', .char '共', .value 2, .char '条'] := by
    simpa [hlead, htrail, hcontent] using hwhole.symm
  intro heq
  have hstart := (hiff.mp heq).1 (.char ' ') (by simp [hinner])
  exact absurd hstart (by decide)

end Markup

end Phrasebook
