import Mathlib.Logic.Function.Iterate
import Phrasebook.Proofs.PlainTokens

/-!
Readers at a cursor: where a cursor on a token goes next, what the readers of single tokens do
there, and that a reader which looks at nothing but tokens does the same before the same text.
-/
namespace Phrasebook.Script

open Text (byteLength)

/-! ### Cursors on spelled tokens -/

/-- The cursor stands on the token and has fuel enough for the text behind it. -/
structure Cursor.Reads (c : Cursor) (token : Token) (rest : List Char) : Prop where
  token : c.token = token
  behind : c.stop.rest = rest
  enough : rest.length < c.fuel

namespace Cursor

variable {c : Cursor} {token found : Token} {spelling rest : List Char}

@[simp]
theorem context_next (c : Cursor) : c.next.context = c.context := by
  unfold next readFrom
  split <;> rfl

@[simp]
theorem fuel_next (c : Cursor) : c.next.fuel = c.fuel := by
  unfold next readFrom
  split <;> rfl

/-- The cursor with another offset at which an arrow function may start. -/
def withArrow (c : Cursor) (arrowStart : Option Nat) : Cursor := { c with arrowStart }

theorem next_withArrow (c : Cursor) (arrowStart : Option Nat) :
    (c.withArrow arrowStart).next = c.next.withArrow arrowStart := by
  unfold next readFrom withArrow
  dsimp only
  split <;> rfl

/-- The cursor in another context. -/
def inContext (c : Cursor) (context : Context) : Cursor := { c with context }

theorem next_inContext (c : Cursor) (context : Context) :
    (c.inContext context).next = c.next.inContext context := by
  unfold next readFrom inContext
  dsimp only
  split <;> rfl

theorem reads_opening (markup : Bool) (h : Spells token spelling rest) :
    (opening markup (spelling ++ rest)).Reads token rest := by
  have hread := h.read ((spelling ++ rest).length + 2) 0 (by omega)
  refine ⟨?_, ?_, ?_⟩
  · simp only [opening, hread]
  · simp only [opening, hread]
  · simp only [opening, List.length_append]
    omega

theorem Reads.next_after (gap : List Char) (h : c.Reads found (gap ++ (spelling ++ rest)))
    (hgap : ∀ fuel pos, (gap ++ (spelling ++ rest)).length < fuel →
      skipTrivia fuel ⟨gap ++ (spelling ++ rest), pos⟩ false =
        some (⟨spelling ++ rest, pos + byteLength gap⟩, false))
    (hs : Spells token spelling rest) : c.next.Reads token rest := by
  have hskip : skipTrivia c.fuel c.stop false =
      some (⟨spelling ++ rest, c.stop.pos + byteLength gap⟩, false) := by
    rw [← hgap c.fuel c.stop.pos h.enough, ← h.behind]
  have hlength : (spelling ++ rest).length < c.fuel := by
    have := h.enough
    rw [List.length_append] at this
    omega
  have hnext : c.next = c.readFrom c.stop (readToken c.fuel) := rfl
  simp only [readFrom, hskip, hs.read _ _ hlength] at hnext
  rw [List.length_append] at hlength
  rw [hnext]
  exact ⟨rfl, rfl, by dsimp only; omega⟩

theorem Reads.next (h : c.Reads found (spelling ++ rest)) (hs : Spells token spelling rest) :
    c.next.Reads token rest := by
  have hsolid : startsGap false (spelling ++ rest) = false := startsGap_mono hs.solid
  refine Reads.next_after [] h (fun fuel pos hfuel => ?_) hs
  obtain ⟨fuel, rfl⟩ : ∃ n, fuel = n + 1 := ⟨fuel - 1, by omega⟩
  exact skipTrivia_solid hsolid

theorem Reads.next_blank (h : c.Reads found (' ' :: (spelling ++ rest)))
    (hs : Spells token spelling rest) : c.next.Reads token rest := by
  have hsolid : startsGap false (spelling ++ rest) = false := startsGap_mono hs.solid
  refine Reads.next_after [' '] h (fun fuel pos hfuel => ?_) hs
  obtain ⟨fuel, rfl⟩ : ∃ n, fuel = n + 2 := ⟨fuel - 2, by simp at hfuel; omega⟩
  rw [List.singleton_append, skipTrivia_blank (by decide) (by decide)]
  exact skipTrivia_solid hsolid

/-- The cursor behind the semicolon that it is on, or where it is. -/
def pastSemicolon (c : Cursor) : Cursor := if c.isPunct ";" then c.next else c

theorem pastSemicolon_of_semicolon (h : c.isPunct ";" = true) : c.pastSemicolon = c.next := if_pos h

theorem endsStatement_of_semicolon (h : c.isPunct ";" = true) : c.endsStatement = true := by
  simp [endsStatement, h]

end Cursor

/-! ### Readers at a cursor -/

namespace Parse

variable {α β : Type} {c next : Cursor}

theorem bind_of_ok {p : Parse α} {f : α → Parse β} {a : α} (h : p c = .ok a next) :
    (p >>= f) c = f a next := by
  simp only [bind, EStateM.bind, h]

@[simp]
theorem pure_apply (a : α) : (pure a : Parse α) c = .ok a c := rfl

theorem get_bind (f : Cursor → Parse β) : (get >>= f) c = f c c := rfl

theorem set_bind (d : Cursor) (f : Unit → Parse β) :
    ((set d : Parse PUnit) >>= f) c = f () d := rfl

theorem here_bind (f : Nat → Parse β) : (here >>= f) c = f c.start.pos c := rfl

theorem test_bind (p : Cursor → Bool) (f : Bool → Parse β) : (test p >>= f) c = f (p c) c := rfl

theorem node_bind (kind : Kind) (lo : Nat) (children : List Node) (f : Node → Parse β) :
    (node kind lo children >>= f) c = f (.mk kind ⟨lo, c.last⟩ children) c := rfl

theorem isPunct_bind (text : String) (f : Bool → Parse β) :
    (isPunct text >>= f) c = f (c.isPunct text) c := rfl

theorem isWord_bind (name : String) (f : Bool → Parse β) :
    (isWord name >>= f) c = f (c.isWord name) c := rfl

theorem accept_of {text : String} (h : c.isPunct text = true) :
    accept text c = .ok true c.next := by
  rw [accept, isPunct_bind, h]
  rfl

theorem accept_of_not {text : String} (h : c.isPunct text = false) :
    accept text c = .ok false c := by
  rw [accept, isPunct_bind, h]
  rfl

theorem expect_of {text : String} (h : c.isPunct text = true) : expect text c = .ok () c.next := by
  rw [expect, bind_of_ok (accept_of h)]
  rfl

theorem expectWord_of {name : String} (h : c.isWord name = true) :
    expectWord name c = .ok () c.next := by
  have haccept : acceptWord name c = .ok true c.next := by
    rw [acceptWord, isWord_bind, h]
    rfl
  rw [expectWord, bind_of_ok haccept]
  rfl

/-- The context of what stands in brackets. -/
def nestedContext (context : Context) : Context :=
  { context with allowIn := true, inConditional := false, beforeColon := false, inBound := false }

theorem within_of {p : Parse α} {change : Context → Context} {a : α}
    (h : p (c.inContext (change c.context)) = .ok a next) :
    within change p c = .ok a (next.inContext c.context) := by
  unfold Cursor.inContext at h
  simp only [within, h]
  rfl

theorem nested_of {p : Parse α} {a : α}
    (h : p (c.inContext (nestedContext c.context)) = .ok a next) :
    nested p c = .ok a (next.inContext c.context) := within_of h

theorem acceptSemicolon_eq : acceptSemicolon c = .ok c.endsStatement c.pastSemicolon := by
  cases h : c.isPunct ";" with
  | true =>
    rw [acceptSemicolon, bind_of_ok (accept_of h), c.endsStatement_of_semicolon h,
      c.pastSemicolon_of_semicolon h]
    rfl
  | false =>
    rw [acceptSemicolon, bind_of_ok (accept_of_not h), Cursor.pastSemicolon, h]
    rfl

theorem semicolon_eq_ok {u : Unit} :
    semicolon c = .ok u next ↔ c.endsStatement = true ∧ next = c.pastSemicolon := by
  rw [semicolon, bind_of_ok acceptSemicolon_eq]
  cases c.endsStatement with
  | true =>
    constructor
    · rintro ⟨⟩
      exact ⟨rfl, rfl⟩
    · rintro ⟨-, rfl⟩
      rfl
  | false =>
    constructor
    · rintro ⟨⟩
    · rintro ⟨⟨⟩, -⟩

end Parse

/-- The cursor is on a word that is not reserved. -/
structure Cursor.OnName (c : Cursor) (name : String) : Prop where
  token : c.token = .word name (if knownWords.contains name then some name else none)
  free : name ∉ reservedWords

namespace Cursor.OnName

variable {c : Cursor} {name : String}

theorem isName (h : c.OnName name) : c.isName = true := by
  simp only [Cursor.isName, h.token]
  split
  · rename_i htoken
    split at htoken
    · cases htoken
      simp [h.free]
    · cases htoken
  · rfl
  · simp_all

theorem word? (h : c.OnName name) : c.word? = some name := by
  simp only [Cursor.word?, h.token]

theorem isPunct (h : c.OnName name) (text : String) : c.isPunct text = false := by
  simp [Cursor.isPunct, h.token]

theorem anyPunct (h : c.OnName name) (texts : List String) : c.anyPunct texts = false := by
  simp only [Cursor.anyPunct, h.token]

theorem isString (h : c.OnName name) : c.isString = false := by
  simp only [Cursor.isString, h.token]

theorem isWord_eq_false (h : c.OnName name) {word : String} (hword : word ∈ reservedWords) :
    c.isWord word = false := by
  simp only [Cursor.isWord, h.token]
  split
  · rename_i htoken
    split at htoken
    · cases htoken
      rw [Bool.eq_false_iff]
      intro heq
      exact h.free (beq_iff_eq.mp heq ▸ hword)
    · cases htoken
  · rfl

theorem anyWord_eq_false (h : c.OnName name) {words : List String}
    (hwords : ∀ word ∈ words, word ∈ reservedWords) : c.anyWord words = false := by
  simp only [Cursor.anyWord, h.token]
  split
  · rename_i htoken
    split at htoken
    · cases htoken
      rw [Bool.eq_false_iff]
      intro hmem
      exact h.free (hwords name (List.contains_iff_mem.mp hmem))
    · cases htoken
  · rfl

theorem bindable (h : c.OnName name) : Parse.bindable c = true := by
  have hkeyword : name ∉ keywords := fun hmem => h.free (List.mem_append_left _ hmem)
  have hawait : name ≠ "await" := by
    rintro rfl
    exact h.free (by decide)
  simp only [Parse.bindable, h.token]
  split
  · rename_i htoken
    split at htoken
    · cases htoken
      simp [hkeyword, hawait]
    · cases htoken
  · rfl
  · simp_all

theorem bindingName (h : c.OnName name) : Parse.bindingName c = .ok name c.next := by
  rw [Parse.bindingName, Parse.test_bind, h.bindable]
  simp only [if_true, Parse.anyName, Parse.get_bind, h.word?]
  rfl

end Cursor.OnName

/-! ### Cursors before the same text -/

/-- The text behind both cursors is the same, wherever it stands, and the second one has at least as
much fuel. -/
structure Cursor.Follows (c d : Cursor) : Prop where
  behind : d.stop.rest = c.stop.rest
  context : d.context = c.context
  enough : c.stop.rest.length < c.fuel
  fuel : c.fuel ≤ d.fuel

/-- Both cursors stand on the same token. -/
structure Cursor.Twin (c d : Cursor) : Prop extends Cursor.Follows c d where
  token : d.token = c.token
  start : d.start.rest = c.start.rest
  newline : d.newline = c.newline

namespace Cursor

variable {c d : Cursor}

theorem Follows.next (h : c.Follows d) : c.next.Twin d.next := by
  have henough := h.enough
  have hfuel := h.fuel
  have htrivia : (skipTrivia d.fuel d.stop false).map _ = _ :=
    skipTrivia_congr h.behind henough (Nat.lt_of_lt_of_le henough hfuel)
  unfold Cursor.next readFrom
  cases hskip : skipTrivia c.fuel c.stop false with
  | none =>
    rw [hskip, Option.map_none, Option.map_eq_none_iff] at htrivia
    rw [htrivia]
    exact ⟨⟨h.behind, h.context, henough, hfuel⟩, rfl, h.behind, rfl⟩
  | some found =>
    obtain ⟨first, broken⟩ := found
    rw [hskip, Option.map_some, Option.map_eq_some_iff] at htrivia
    obtain ⟨⟨first', broken'⟩, hskip', hsame⟩ := htrivia
    obtain ⟨hrest, rfl⟩ := Prod.mk.inj hsame
    have hless : first.rest.length < c.fuel := Nat.lt_of_le_of_lt (length_skipTrivia hskip) henough
    obtain ⟨htoken, hbehind⟩ := readToken_congr hrest hless (Nat.lt_of_lt_of_le hless hfuel)
    rw [hskip']
    refine ⟨⟨hbehind, h.context, ?_, hfuel⟩, htoken, hrest, rfl⟩
    exact Nat.lt_of_le_of_lt length_readToken hless

theorem Twin.next (h : c.Twin d) : c.next.Twin d.next := h.toFollows.next

end Cursor

/-! ### Cursors that see the same tokens -/

/-- To a reader of tokens both cursors look the same. -/
structure Cursor.Like (c d : Cursor) : Prop where
  token : d.token = c.token
  newline : d.newline = c.newline
  context : d.context = c.context
  fuel : c.fuel ≤ d.fuel

/-- They look the same up to the `k`th token from here. -/
def Cursor.LikeUpTo (k : Nat) (c d : Cursor) : Prop := ∀ i ≤ k, (next^[i] c).Like (next^[i] d)

namespace Cursor

variable {c d : Cursor} {m n : Nat}

theorem LikeUpTo.like (h : LikeUpTo n c d) : c.Like d := h 0 (Nat.zero_le n)

theorem LikeUpTo.next (h : LikeUpTo n c d) (hn : 1 ≤ n) : c.next.Like d.next := h 1 hn

theorem LikeUpTo.mono (h : LikeUpTo n c d) (hm : m ≤ n) : LikeUpTo m c d :=
  fun i hi => h i (Nat.le_trans hi hm)

theorem LikeUpTo.skip (h : LikeUpTo (m + n) c d) :
    LikeUpTo n (Cursor.next^[m] c) (Cursor.next^[m] d) := by
  intro i hi
  rw [← Function.iterate_add_apply, ← Function.iterate_add_apply]
  exact h (i + m) (by omega)

theorem Twin.like (h : c.Twin d) : c.Like d := ⟨h.token, h.newline, h.context, h.fuel⟩

theorem Twin.iterate (h : c.Twin d) (n : Nat) : (Cursor.next^[n] c).Twin (Cursor.next^[n] d) := by
  induction n with
  | zero => exact h
  | succ n ih =>
    rw [Function.iterate_succ_apply', Function.iterate_succ_apply']
    exact ih.next

theorem exists_word {name : String} (h : c.isWord name = true) :
    ∃ text, c.token = .word text (some name) := by
  unfold isWord at h
  split at h
  · rename_i text role htoken
    obtain rfl := beq_iff_eq.mp h
    exact ⟨text, htoken⟩
  · cases h

theorem exists_string (h : c.isString = true) : ∃ value, c.token = .string value := by
  unfold isString at h
  split at h
  · exact ⟨_, ‹_›⟩
  · cases h

theorem isPlain_of_isWord {name : String} (h : c.isWord name = true) : c.token.isPlain = true := by
  obtain ⟨text, htoken⟩ := exists_word h
  rw [htoken]
  rfl

theorem isPlain_of_isString (h : c.isString = true) : c.token.isPlain = true := by
  obtain ⟨value, htoken⟩ := exists_string h
  rw [htoken]
  rfl

theorem isPlain_of_word? {text : String} (h : c.word? = some text) : c.token.isPlain = true := by
  unfold word? at h
  split at h
  · rename_i htoken
    rw [htoken]
    rfl
  · cases h

theorem isPlain_of_isPunct {text : String} (h : c.isPunct text = true)
    (htext : (Token.punct text).isPlain = true) : c.token.isPlain = true := by
  rw [beq_iff_eq.mp h]
  exact htext

section

variable (h : c.Like d)

include h

theorem Like.isPunct (text : String) : d.isPunct text = c.isPunct text := by
  simp only [Cursor.isPunct, h.token]

theorem Like.anyPunct (texts : List String) : d.anyPunct texts = c.anyPunct texts := by
  simp only [Cursor.anyPunct, h.token]

theorem Like.anyWord (names : List String) : d.anyWord names = c.anyWord names := by
  simp only [Cursor.anyWord, h.token]

theorem Like.isWord (name : String) : d.isWord name = c.isWord name := by
  simp only [Cursor.isWord, h.token]

theorem Like.word? : d.word? = c.word? := by
  simp only [Cursor.word?, h.token]

theorem Like.isString : d.isString = c.isString := by
  simp only [Cursor.isString, h.token]

theorem Like.isName : d.isName = c.isName := by
  simp only [Cursor.isName, h.token]

theorem Like.endsStatement : d.endsStatement = c.endsStatement := by
  simp only [Cursor.endsStatement, Cursor.isPunct, h.token, h.newline]

end

theorem Twin.pastSemicolon (h : c.Twin d) : c.pastSemicolon.Twin d.pastSemicolon := by
  unfold Cursor.pastSemicolon
  rw [h.like.isPunct]
  split
  · exact h.next
  · exact h

end Cursor

/-! ### Readers of plain tokens -/

/-- Whatever `p` reads here are plain tokens, at least `least` of them, and it reads the same where
the same tokens stand. -/
def Parse.Passes {α : Type} (least : Nat) (p : Parse α) (c : Cursor) : Prop :=
  ∀ ⦃a : α⦄ ⦃e : Cursor⦄, p c = .ok a e → ∃ k, least ≤ k ∧ e = Cursor.next^[k] c ∧
    (∀ i < k, (Cursor.next^[i] c).token.isPlain = true) ∧
    ∀ d, c.LikeUpTo k d → p d = .ok a (Cursor.next^[k] d)

namespace Parse

variable {α β : Type} {p q : Parse α} {c d e : Cursor} {m n : Nat}

theorem bind_eq_ok {f : α → Parse β} {b : β} :
    (p >>= f) c = .ok b e ↔ ∃ a m, p c = .ok a m ∧ f a m = .ok b e := by
  simp only [bind, EStateM.bind]
  cases hp : p c with
  | ok a m =>
    constructor
    · intro hf
      exact ⟨a, m, rfl, hf⟩
    · rintro ⟨_, _, ⟨⟩, hf⟩
      exact hf
  | error fault m => simp

theorem Passes.twin {a : α} (hp : Passes n p c) (h : c.Twin d) (hread : p c = .ok a e) :
    ∃ e', p d = .ok a e' ∧ e.Twin e' := by
  obtain ⟨k, -, rfl, -, hsame⟩ := hp hread
  exact ⟨Cursor.next^[k] d, hsame d fun i _ => (h.iterate i).like, h.iterate k⟩

theorem Passes.pure (a : α) : Passes 0 (pure a) c := by
  intro b e hb
  cases hb
  exact ⟨0, Nat.le_refl 0, rfl, fun i hi => absurd hi (Nat.not_lt_zero i), fun _ _ => rfl⟩

theorem Passes.fail : Passes (α := α) n fail c := by
  intro a e ha
  cases ha

theorem Passes.append {f : α → Parse β} (hp : Passes m p c) (hf : ∀ a e, Passes n (f a) e) :
    Passes (m + n) (p >>= f) c := by
  intro b e hb
  obtain ⟨a, mid, ha, hrest⟩ := bind_eq_ok.mp hb
  obtain ⟨j, hj, rfl, hplain, hsame⟩ := hp ha
  obtain ⟨k, hk, rfl, hplain', hsame'⟩ := hf a _ hrest
  refine ⟨j + k, Nat.add_le_add hj hk, ?_, ?_, ?_⟩
  · rw [Nat.add_comm, Function.iterate_add_apply]
  · intro i hi
    by_cases hfirst : i < j
    · exact hplain i hfirst
    · have hlater := hplain' (i - j) (by omega)
      rw [← Function.iterate_add_apply, Nat.sub_add_cancel (Nat.le_of_not_lt hfirst)] at hlater
      exact hlater
  · intro d hd
    refine bind_eq_ok.mpr ⟨a, _, hsame d (hd.mono (Nat.le_add_right ..)), ?_⟩
    rw [hsame' _ hd.skip, Nat.add_comm, Function.iterate_add_apply]

theorem Passes.mono (hp : Passes n p c) (hm : m ≤ n) : Passes m p c := by
  intro a e ha
  obtain ⟨k, hk, hrest⟩ := hp ha
  exact ⟨k, Nat.le_trans hm hk, hrest⟩

theorem Passes.any (hp : Passes n p c) : Passes 0 p c := hp.mono (Nat.zero_le n)

theorem Passes.bind {f : α → Parse β} (hp : Passes m p c) (hf : ∀ a e, Passes 0 (f a) e) :
    Passes m (p >>= f) c := hp.append hf

theorem Passes.before {f : α → Parse β} (hp : Passes 0 p c) (hf : ∀ a e, Passes n (f a) e) :
    Passes n (p >>= f) c := (hp.append hf).mono (Nat.le_add_left ..)

/-- The next token may be looked at before a reader that takes a token. -/
theorem Passes.peek {f : Cursor → Parse β} (hf : ∀ d, c.Like d → c.next.Like d.next → f d = f c)
    (h : Passes (n + 1) (f c) c) : Passes (n + 1) (get >>= f) c := by
  intro b e hb
  obtain ⟨k, hk, he, hplain, hsame⟩ := h hb
  refine ⟨k, hk, he, hplain, fun d hd => ?_⟩
  have hread := hsame d hd
  rw [← hf d hd.like (hd.next (by omega))] at hread
  exact hread

/-- What is decided by the token is decided alike. -/
theorem Passes.get {f : Cursor → Parse β} (hf : ∀ d, c.Like d → f d = f c)
    (h : Passes n (f c) c) : Passes n (get >>= f) c := by
  intro b e hb
  obtain ⟨k, hk, he, hplain, hsame⟩ := h hb
  refine ⟨k, hk, he, hplain, fun d hd => ?_⟩
  have hread := hsame d hd
  rw [← hf d hd.like] at hread
  exact hread

theorem Passes.test {r : Cursor → Bool} {f : Bool → Parse β} (hr : ∀ d, c.Like d → r d = r c)
    (h : Passes n (f (r c)) c) : Passes n (test r >>= f) c :=
  Passes.get (fun d hd => by rw [hr d hd]) h

theorem Passes.ite {b : Bool} (hp : b = true → Passes n p c) (hq : b = false → Passes n q c) :
    Passes n (if b then p else q) c := by
  cases b
  · exact hq rfl
  · exact hp rfl

/-- A reader that takes the token here, whatever it does so by. -/
theorem Passes.one {a : α} (h : c.token.isPlain = true)
    (hp : ∀ d, c.Like d → p d = .ok a d.next) : Passes 1 p c := by
  intro b e hb
  have hread := hp c ⟨rfl, rfl, rfl, Nat.le_refl _⟩
  cases hb.symm.trans hread
  refine ⟨1, Nat.le_refl 1, rfl, fun i hi => ?_, fun d hd => hp d hd.like⟩
  obtain rfl : i = 0 := by omega
  exact h

theorem Passes.advance (h : c.token.isPlain = true) : Passes 1 advance c :=
  .one h fun _ _ => rfl

theorem Passes.accept {text : String} (htext : (Token.punct text).isPlain = true) :
    Passes 0 (accept text) c :=
  .test (fun _ h => h.isPunct text) <| .ite
    (fun h => ((Passes.advance (c.isPlain_of_isPunct h htext)).bind fun _ _ => .pure true).any)
    fun _ => .pure false

theorem Passes.acceptWord (name : String) : Passes 0 (acceptWord name) c :=
  .test (fun _ h => h.isWord name) <| .ite
    (fun h => ((Passes.advance (c.isPlain_of_isWord h)).bind fun _ _ => .pure true).any)
    fun _ => .pure false

theorem Passes.expect {text : String} (htext : (Token.punct text).isPlain = true) :
    Passes 1 (expect text) c := by
  cases h : c.isPunct text with
  | false =>
    intro a e ha
    rw [Parse.expect, bind_of_ok (accept_of_not h)] at ha
    cases ha
  | true =>
    exact .one (c.isPlain_of_isPunct h htext) fun d hd => expect_of ((hd.isPunct text).trans h)

theorem Passes.expectWord (name : String) : Passes 1 (expectWord name) c := by
  cases h : c.isWord name with
  | false =>
    intro a e ha
    have hnone : Parse.acceptWord name c = .ok false c := by
      rw [Parse.acceptWord, isWord_bind, h]
      rfl
    rw [Parse.expectWord, bind_of_ok hnone] at ha
    cases ha
  | true => exact .one (c.isPlain_of_isWord h) fun d hd => expectWord_of ((hd.isWord name).trans h)

theorem Passes.anyName : Passes 1 anyName c := by
  cases h : c.word? with
  | none =>
    intro a e ha
    rw [Parse.anyName, get_bind, h] at ha
    cases ha
  | some text =>
    have hread : ∀ d, c.Like d → Parse.anyName d = .ok text d.next := by
      intro d hd
      rw [Parse.anyName, get_bind, hd.word?, h]
      rfl
    exact .one (c.isPlain_of_word? h) hread

theorem Passes.bindingName : Passes 1 bindingName c := by
  have hbindable : ∀ d, c.Like d → bindable d = bindable c := by
    intro d h
    simp only [bindable, h.token, h.context]
  exact .test hbindable <| .ite (fun _ => .anyName) fun _ => .fail

theorem manyWith_mono {done : Cursor → Bool} {item : Parse α} {fuel fuel' : Nat} {found : List α}
    (h : manyWith done item fuel c = .ok found e) (hfuel : fuel ≤ fuel') :
    manyWith done item fuel' c = .ok found e := by
  induction fuel generalizing fuel' c e found with
  | zero => cases h
  | succ fuel ih =>
    obtain ⟨fuel', rfl⟩ : ∃ n, fuel' = n + 1 := ⟨fuel' - 1, by omega⟩
    rw [manyWith, test_bind] at h ⊢
    split at h
    · rename_i hdone
      rw [if_pos hdone]
      exact h
    · rename_i hdone
      rw [if_neg hdone]
      obtain ⟨a, mid, ha, h⟩ := bind_eq_ok.mp h
      obtain ⟨rest, last, hrest, h⟩ := bind_eq_ok.mp h
      exact bind_eq_ok.mpr ⟨a, mid, ha, bind_eq_ok.mpr ⟨rest, last,
        ih hrest (Nat.le_of_succ_le_succ hfuel), h⟩⟩

section

variable {item : Parse α} (hitem : ∀ c, Passes 0 item c)

include hitem

theorem Passes.manyWith {done : Cursor → Bool} (hdone : ∀ c d, c.Like d → done d = done c)
    (fuel : Nat) : Passes 0 (manyWith done item fuel) c := by
  induction fuel generalizing c with
  | zero => exact .fail
  | succ fuel ih =>
    exact .test (hdone c) <| .ite (fun _ => .pure []) fun _ =>
      (hitem c).bind fun _ _ => ih.bind fun _ _ => .pure _

theorem Passes.many {done : Cursor → Bool} (hdone : ∀ c d, c.Like d → done d = done c) :
    Passes 0 (many done item) c := by
  intro found e h
  obtain ⟨k, hk, he, hplain, hsame⟩ := Passes.manyWith hitem hdone c.fuel h
  exact ⟨k, hk, he, hplain, fun d hd => manyWith_mono (hsame d hd) hd.like.fuel⟩

theorem Passes.commaList {close : String} (hclose : (Token.punct close).isPlain = true) :
    Passes 1 (commaList close item) c := by
  refine (Passes.many (fun c => ?_) fun _ _ h => h.isPunct close).before fun items e =>
    (Passes.expect hclose).bind fun _ _ => .pure items
  have hcomma : ∀ (a : α) e, Passes 0 (Parse.expect "," >>= fun _ => Pure.pure a) e := by
    intro a e
    exact ((Passes.expect rfl).bind fun _ _ => .pure a).any
  refine (hitem c).bind fun a e => ?_
  refine Passes.test (fun _ h => h.isPunct close) ?_
  exact .ite (fun _ => .pure a) fun _ => hcomma a e

end

end Parse

/-! ### The same tokens before different texts -/

namespace Cursor

variable {c d : Cursor} {n : Nat}

@[simp]
theorem last_next (c : Cursor) : c.next.last = c.stop.pos := by
  unfold next readFrom
  split <;> rfl

theorem length_next_le (c : Cursor) : c.next.stop.rest.length ≤ c.stop.rest.length := by
  unfold next readFrom
  split
  · exact Nat.le_refl _
  · rename_i hskip
    exact Nat.le_trans length_readToken (length_skipTrivia hskip)

theorem length_start_next_le (c : Cursor) : c.next.start.rest.length ≤ c.stop.rest.length := by
  unfold next readFrom
  split
  · exact Nat.le_refl _
  · exact length_skipTrivia ‹_›

theorem length_iterate_le (c : Cursor) (n : Nat) :
    (Cursor.next^[n] c).stop.rest.length ≤ c.stop.rest.length := by
  induction n with
  | zero => exact Nat.le_refl _
  | succ n ih =>
    rw [Function.iterate_succ_apply']
    exact Nat.le_trans (length_next_le _) ih

/-- The cursor on the `n`th token of a text behind the first one. -/
def nth (markup : Bool) (text : List Char) (n : Nat) : Cursor :=
  Cursor.next^[n] (opening markup text)

theorem nth_succ (markup : Bool) (text : List Char) (n : Nat) :
    nth markup text (n + 1) = (nth markup text n).next :=
  Function.iterate_succ_apply' ..

theorem enough_nth (markup : Bool) (text : List Char) (n : Nat) :
    (nth markup text n).stop.rest.length < (nth markup text n).fuel := by
  have hfuel : (nth markup text n).fuel = text.length + 2 := by
    induction n with
    | zero => rfl
    | succ n ih => rw [nth_succ, fuel_next, ih]
  have hless : (nth markup text n).stop.rest.length ≤ _ := length_iterate_le (opening markup text) n
  have hfirst : (opening markup text).stop.rest.length ≤ text.length := length_readToken
  omega

theorem exists_skip (h : c.next.token.isPlain = true) :
    ∃ first, skipTrivia c.fuel c.stop false = some (first, c.next.newline) ∧
      c.next.start = first ∧ first.rest ≠ [] ∧
      readToken c.fuel first = (c.next.token, c.next.stop) := by
  have hnext : c.next = c.readFrom c.stop (readToken c.fuel) := rfl
  cases hskip : skipTrivia c.fuel c.stop false with
  | none =>
    simp only [readFrom, hskip] at hnext
    rw [hnext] at h
    cases h
  | some found =>
    simp only [readFrom, hskip] at hnext
    rw [hnext] at h ⊢
    exact ⟨found.1, rfl, rfl, ne_nil_of_isPlain h, rfl⟩

/-- Up to the end of its `n`th token from here the text is `lead`, and where this stands before
another text, the tokens are the same. -/
structure Leads (c : Cursor) (n : Nat) (lead : List Char) : Prop where
  behind : c.stop.rest = lead ++ (Cursor.next^[n] c).stop.rest
  pos : (Cursor.next^[n] c).stop.pos = c.stop.pos + byteLength lead
  again : ∀ d other, c.Like d → d.stop = ⟨lead ++ other, c.stop.pos⟩ →
    GoesOn (Cursor.next^[n] c).stop.rest other → (lead ++ other).length < d.fuel →
    c.LikeUpTo n d ∧ (Cursor.next^[n] d).stop = ⟨other, (Cursor.next^[n] c).stop.pos⟩

theorem LikeUpTo.zero (h : c.Like d) : c.LikeUpTo 0 d := by
  intro i hi
  obtain rfl := Nat.le_zero.mp hi
  exact h

theorem LikeUpTo.succ (h : c.Like d) (hnext : c.next.LikeUpTo n d.next) :
    c.LikeUpTo (n + 1) d := by
  intro i hi
  cases i with
  | zero => exact h
  | succ i => exact hnext i (Nat.le_of_succ_le_succ hi)

theorem leads_one (hplain : c.next.token.isPlain = true)
    (hescape : Unescaped c.stop.rest c.next.stop.rest) : ∃ lead, c.Leads 1 lead := by
  obtain ⟨first, hskip, -, hne, hread⟩ := exists_skip hplain
  obtain ⟨gap, hgap, hpos, hsame⟩ := skipsTo_of_skipTrivia hskip hne
  have hless : c.next.stop.rest.length ≤ first.rest.length := by
    have hlength : (readToken c.fuel first).2.rest.length ≤ _ := length_readToken
    rwa [hread] at hlength
  rw [hgap] at hescape
  obtain ⟨spelling, -, htext, hstop, hspells⟩ :=
    exists_spelling hread hplain (hescape.of_append hless).2
  refine ⟨gap ++ spelling, ?_, ?_, ?_⟩
  · rw [hgap, htext, List.append_assoc, Function.iterate_one]
  · rw [Function.iterate_one, hstop, hpos, Text.byteLength_append, Nat.add_assoc]
  · intro d other hlike hd hgoes henough
    have hspelled := hspells other hgoes
    rw [List.append_assoc] at hd henough
    have hskip' : skipTrivia d.fuel d.stop false =
        some (⟨spelling ++ other, first.pos⟩, c.next.newline) := by
      rw [hd]
      exact hsame _ _ (startsGap_mono hspelled.solid) henough
    have hnext : d.next = d.readFrom d.stop (readToken d.fuel) := rfl
    rw [List.length_append] at henough
    simp only [readFrom, hskip', hspelled.read d.fuel first.pos (by omega)] at hnext
    rw [Function.iterate_one, hnext]
    refine ⟨.succ hlike (.zero ?_), by rw [hstop]⟩
    rw [hnext]
    refine ⟨rfl, rfl, ?_, ?_⟩
    · rw [context_next]
      exact hlike.context
    · rw [fuel_next]
      exact hlike.fuel

theorem Leads.succ {front lead : List Char} (h : c.Leads 1 front) (hnext : c.next.Leads n lead)
    (hescape : '\\' ∉ lead) : c.Leads (n + 1) (front ++ lead) := by
  refine ⟨?_, ?_, ?_⟩
  · rw [h.behind, List.append_assoc]
    exact congrArg (front ++ ·) hnext.behind
  · rw [Function.iterate_succ_apply, hnext.pos, ← Function.iterate_one Cursor.next, h.pos,
      Text.byteLength_append, Nat.add_assoc]
  · intro d other hlike hd hgoes henough
    rw [List.append_assoc] at hd henough
    have hgoes' := hgoes.append hescape
    rw [Function.iterate_succ_apply, ← hnext.behind] at hgoes'
    obtain ⟨hfirst, hstop⟩ := h.again d _ hlike hd hgoes' henough
    obtain ⟨hrest, hend⟩ := hnext.again d.next other (hfirst.next (Nat.le_refl 1)) hstop hgoes
      (by simp only [fuel_next, List.length_append] at henough ⊢; omega)
    exact ⟨.succ hlike hrest, hend⟩

theorem exists_leads (hplain : ∀ i < n, (Cursor.next^[i] c.next).token.isPlain = true)
    (hescape : Unescaped c.stop.rest (Cursor.next^[n] c).stop.rest) : ∃ lead, c.Leads n lead := by
  induction n generalizing c with
  | zero => exact ⟨[], rfl, rfl, fun d other hlike hd _ _ => ⟨.zero hlike, hd⟩⟩
  | succ n ih =>
    have hless : (Cursor.next^[n] c.next).stop.rest.length ≤ c.next.stop.rest.length :=
      length_iterate_le c.next n
    obtain ⟨front, hfront⟩ := leads_one (hplain 0 (Nat.succ_pos n)) (hescape.mono hless)
    rw [hfront.behind] at hescape
    have hrest := (hescape.of_append hless).2
    obtain ⟨lead, hlead⟩ := ih (fun i hi => hplain (i + 1) (Nat.succ_lt_succ hi)) hrest
    refine ⟨front ++ lead, hfront.succ hlead ?_⟩
    rw [Function.iterate_one, hlead.behind] at hrest
    exact (hrest.of_append (Nat.le_refl _)).1

end Cursor

/-- The first tokens of a text, all of them plain, are the same where the text goes on in another
way behind them. -/
theorem exists_lead_opening (markup : Bool) {start : List Char} {n : Nat}
    (hplain : ∀ i ≤ n, (Cursor.nth markup start i).token.isPlain = true)
    (hescape : Unescaped start (Cursor.nth markup start n).stop.rest) :
    ∃ lead, lead ≠ [] ∧ '\\' ∉ lead ∧ start = lead ++ (Cursor.nth markup start n).stop.rest ∧
      (Cursor.nth markup start n).stop.pos = byteLength lead ∧
      ∀ other, GoesOn (Cursor.nth markup start n).stop.rest other →
        start.length ≤ (lead ++ other).length →
        startsGap true (lead ++ other) = false ∧
        (Cursor.opening markup start).LikeUpTo n (Cursor.opening markup (lead ++ other)) ∧
        (Cursor.nth markup (lead ++ other) n).stop.rest = other := by
  simp only [Cursor.nth] at hplain hescape ⊢
  cases hread : readToken (start.length + 2) ⟨start, 0⟩ with
  | mk token stop =>
  have htoken : (Cursor.opening markup start).token = token := congrArg Prod.fst hread
  have hstop : (Cursor.opening markup start).stop = stop := congrArg Prod.snd hread
  have hless := Cursor.length_iterate_le (Cursor.opening markup start) n
  have hfirst := hplain 0 (Nat.zero_le n)
  rw [Function.iterate_zero_apply, htoken] at hfirst
  rw [hstop] at hless
  obtain ⟨spelling, hne, htext, hpos, hspells⟩ :=
    exists_spelling hread hfirst (hescape.mono hless)
  dsimp only at htext hpos
  rw [Nat.zero_add] at hpos
  rw [← hstop] at htext hpos hspells
  obtain ⟨hfree, hrest⟩ : '\\' ∉ spelling ∧ Unescaped (Cursor.opening markup start).stop.rest
      (Cursor.next^[n] (Cursor.opening markup start)).stop.rest := by
    generalize (Cursor.next^[n] (Cursor.opening markup start)).stop.rest = last at hescape hless
    rw [htext] at hescape
    exact hescape.of_append (hstop ▸ hless)
  obtain ⟨tail, htail⟩ := Cursor.exists_leads (fun i hi => hplain (i + 1) hi) hrest
  have hfree' : '\\' ∉ tail := by
    rw [htail.behind] at hrest
    exact (hrest.of_append (Nat.le_refl _)).1
  refine ⟨spelling ++ tail, by simp [hne], by simp [hfree, hfree'], ?_, ?_, ?_⟩
  · rw [List.append_assoc, ← htail.behind]
    exact htext
  · rw [htail.pos, hpos, Text.byteLength_append]
  · intro other hgoes hlength
    have hgoes' := hgoes.append hfree'
    rw [← htail.behind] at hgoes'
    have hspelled := hspells _ hgoes'
    rw [List.append_assoc] at hlength ⊢
    have hagain := hspelled.read ((spelling ++ (tail ++ other)).length + 2) 0 (by omega)
    rw [Nat.zero_add] at hagain
    have hlike : (Cursor.opening markup start).Like
        (Cursor.opening markup (spelling ++ (tail ++ other))) := by
      refine ⟨?_, rfl, rfl, Nat.add_le_add_right hlength 2⟩
      rw [htoken]
      exact congrArg Prod.fst hagain
    have hplace : (Cursor.opening markup (spelling ++ (tail ++ other))).stop =
        ⟨tail ++ other, (Cursor.opening markup start).stop.pos⟩ := by
      rw [hpos]
      exact congrArg Prod.snd hagain
    have henough : (tail ++ other).length < (spelling ++ (tail ++ other)).length + 2 := by
      simp only [List.length_append]
      omega
    obtain ⟨hsame, hend⟩ := htail.again _ other hlike hplace hgoes henough
    exact ⟨hspelled.solid, hsame, congrArg Input.rest hend⟩

end Phrasebook.Script
