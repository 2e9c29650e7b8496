import Phrasebook.Proofs.Items

/-!
The head of a module: imports and directives. They are made of plain tokens, so they are read alike
whatever comes behind them, as long as it starts an item.
-/
namespace Phrasebook.Script

/-! ### Imports -/

namespace Grammar

open Parse

section

variable {c : Cursor} {typeOnly : Bool} {phase : Phase} {first : List ImportName} {word : String}

theorem passes_importRest : Passes 1 (importRest typeOnly phase first) c :=
  (passes_importedNames phase).before fun _ _ => (Passes.expectWord "from").bind fun _ _ => .pure _

theorem passes_importAfterDefault : Passes 1 (importAfterDefault typeOnly phase word) c := by
  refine .test (fun _ h => h.isWord "from") ?_
  refine .ite (fun _ => passes_importRest) fun _ => ?_
  exact (Passes.expect rfl).any.before fun _ _ => passes_importRest

/-- Unless it is another name for a module, an import has more tokens before the name of its
module. -/
theorem passes_importAfterWord_of_names (h : c.isPunct "=" = false) :
    Passes 1 (importAfterWord typeOnly word) c := by
  refine .peek (fun d hd hnext => ?_) ?_
  · rw [hd.isPunct, hd.anyPunct, hd.isName, hd.isWord, hnext.isWord]
  · rw [h, if_neg Bool.false_ne_true]
    refine .ite (fun hphase => ?_) fun _ => passes_importAfterDefault
    refine .ite (fun _ => passes_importRest) fun _ => ?_
    exact .ite (fun _ => Passes.bindingName.any.before fun _ _ => passes_importAfterDefault)
      fun _ => passes_importAfterDefault

theorem passes_importAfterWord : Passes 0 (importAfterWord typeOnly word) c := by
  cases h : c.isPunct "=" with
  | false => exact (passes_importAfterWord_of_names h).any
  | true =>
    refine .get (fun d hd => ?_) ?_
    · rw [hd.isPunct, h, if_pos rfl, if_pos rfl]
    · rw [h, if_pos rfl]
      exact .pure _

theorem passes_importHead : Passes 0 importHead c := by
  refine .get (fun d h => by rw [h.isString, h.isName]) ?_
  refine .ite (fun _ => .pure _) fun _ => .ite (fun _ => passes_importRest.any) fun _ => ?_
  refine Passes.bindingName.any.bind fun first e => ?_
  cases htype : (first == "type" && e.isName) with
  | true =>
    have hequals : e.isPunct "=" = false := by
      have hname := (Bool.and_eq_true_iff.mp htype).2
      cases htoken : e.token with
      | punct text => simp [Cursor.isName, htoken] at hname
      | _ => simp [Cursor.isPunct, htoken]
    refine (Passes.peek (fun d hd hnext => ?_) ?_ : Passes (0 + 1) _ e).any
    · rw [hd.anyPunct, hd.isName, hd.isWord, hnext.isWord, hnext.isPunct]
    · refine .ite (fun _ => passes_importRest) fun _ => ?_
      rw [htype, if_pos rfl]
      exact .ite (fun _ => Passes.bindingName.bind fun _ _ => passes_importAfterWord)
        fun _ => passes_importAfterWord_of_names hequals
  | false =>
    refine .get (fun d hd => ?_) ?_
    · simp only [hd.anyPunct, hd.isName, htype, Bool.false_eq_true, if_false]
    · refine .ite (fun _ => passes_importRest.any) fun _ => ?_
      rw [htype, if_neg Bool.false_ne_true]
      exact passes_importAfterWord

end

/-! #### The end of an import -/

section

variable {rec : Rec} {lo : Nat} {c e : Cursor} {item : Node} {typeOnly : Bool}
  {names : List ImportName}

theorem kind_importEquals {bound : String} (h : importEquals lo bound c = .ok item e) :
    item.kind = .importAlias bound := by
  obtain ⟨_, _, -, h⟩ := bind_eq_ok.mp h
  rw [get_bind] at h
  split at h
  all_goals
    repeat
      obtain ⟨_, _, -, h⟩ := bind_eq_ok.mp h
    cases h
    rfl

/-- What stands before the name of its module in an import, and that it stands there alike where the
tokens are the same. -/
theorem importDecl_inv (hword : c.isWord "import" = true)
    (h : importDecl rec lo c = .ok item e) {source : Option String}
    (hkind : item.kind = .importDecl typeOnly source names) (hplain : item.children = []) :
    ∃ k, 1 ≤ k ∧ (∀ i ≤ k, (Cursor.next^[i] c).token.isPlain = true) ∧
      (Cursor.next^[k] c).token = .string source ∧
      (Cursor.next^[k + 1] c).endsStatement = true ∧
      e = (Cursor.next^[k + 1] c).pastSemicolon ∧ item.span.hi = e.last ∧
      ∀ {rec' lo' d}, c.LikeUpTo k d →
        importDecl rec' lo' d = importSource rec' lo' typeOnly names (Cursor.next^[k] d) := by
  rw [importDecl, bind_of_ok (expectWord_of hword)] at h
  obtain ⟨head, mid, hhead, h⟩ := bind_eq_ok.mp h
  obtain ⟨k, -, rfl, hbefore, hsame⟩ := passes_importHead hhead
  cases head with
  | equals bound =>
    rw [kind_importEquals h] at hkind
    cases hkind
  | names typeOnly' names' =>
    obtain ⟨source', htoken, -, hends, rfl, rfl⟩ := importSource_inv h hplain
    cases hkind
    have hlast : (Cursor.next^[k + 1] c).token = .string source := htoken
    have hbehind : (Cursor.next^[k] c.next).next = Cursor.next^[k + 1 + 1] c :=
      (Function.iterate_succ_apply' ..).symm
    rw [hbehind] at hends ⊢
    refine ⟨k + 1, Nat.le_add_left .., fun i hi => ?_, htoken, hends, rfl, rfl, fun hlike => ?_⟩
    · cases i with
      | zero => exact c.isPlain_of_isWord hword
      | succ i =>
        rcases Nat.lt_or_eq_of_le (Nat.le_of_succ_le_succ hi) with hi | rfl
        · exact hbefore i hi
        · rw [hlast]
          rfl
    · exact importDecl_of_import ((hlike.like.isWord _).trans hword)
        (hsame _ fun i hi => hlike (i + 1) (Nat.succ_le_succ hi))

end

end Grammar

/-! ### Headings -/

/-- The token may be the first one of an item behind an import or a string alone. -/
def Token.startsItem : Token → Bool
  | .string _ => true
  | .word _ (some role) => role == "import" || role == "const"
  | _ => false

theorem isPlain_of_startsItem {token : Token} (h : token.startsItem = true) :
    token.isPlain = true := by
  cases token with
  | word text role => rfl
  | string value => rfl
  | _ => cases h

/-- An import or a string alone can end before this token. -/
def Cursor.endsHeading (c : Cursor) : Bool :=
  c.isPunct ";" || (c.newline && c.token.startsItem)

/-- The item is an import without attributes or a string alone. -/
def isHeading (markup : Bool) (start : List Char) (item : Node) : Bool :=
  let first := Cursor.opening markup start
  if first.isString then first.next.endsStatement && Grammar.endsValue first.next.token
  else first.isWord "import" && !first.next.anyPunct ["(", "."] && item.children.isEmpty &&
    match item.kind with
    | .importDecl .. => true
    | _ => false

theorem Cursor.endsStatement_of_endsHeading {c : Cursor} (h : c.endsHeading = true) :
    c.endsStatement = true := by
  rw [endsHeading, Bool.or_eq_true, Bool.and_eq_true] at h
  rcases h with h | ⟨h, -⟩ <;> simp [endsStatement, h]

theorem Cursor.endsValue_of_endsHeading {c : Cursor} (h : c.endsHeading = true) :
    Grammar.endsValue c.token = true ∧
      (c.anyWord ["with", "assert"] && !c.newline) = false := by
  rw [endsHeading, Bool.or_eq_true, Bool.and_eq_true] at h
  rcases h with h | ⟨-, h⟩
  · rw [anyWord, beq_iff_eq.mp h]
    exact ⟨rfl, rfl⟩
  · rw [anyWord]
    cases htoken : c.token with
    | string value => exact ⟨rfl, rfl⟩
    | word text role =>
      rw [htoken] at h
      cases role with
      | none => cases h
      | some role =>
        have hrole : role = "import" ∨ role = "const" := by simpa [Token.startsItem] using h
        rcases hrole with rfl | rfl <;> exact ⟨rfl, rfl⟩
    | _ =>
      rw [htoken] at h
      cases h

/-- Before a token that starts an item, a statement ends with the line. -/
theorem Cursor.newline_of_startsItem {c : Cursor} (hstarts : c.token.startsItem = true)
    (hends : c.endsStatement = true) : c.newline = true := by
  unfold endsStatement isPunct at hends
  cases htoken : c.token with
  | string value => simpa [htoken] using hends
  | word text role => simpa [htoken] using hends
  | _ =>
    rw [htoken] at hstarts
    cases hstarts

theorem Cursor.startsItem_of_isWord {c : Cursor} (h : c.isWord "import" = true) :
    c.token.startsItem = true := by
  obtain ⟨text, htoken⟩ := exists_word h
  rw [htoken]
  rfl

theorem readItem_of_string {markup : Bool} {text : List Char} {value : Option String}
    (htoken : (Cursor.opening markup text).token = .string value)
    (hvalue : Grammar.endsValue (Cursor.opening markup text).next.token = true)
    (hends : (Cursor.opening markup text).next.endsStatement = true) :
    ∃ e, readItem markup text = .ok (.mk .expressionStatement
        ⟨0, (Cursor.opening markup text).next.pastSemicolon.last⟩
        [Grammar.leaf (.string value) (Cursor.opening markup text)]) e ∧
      e.start.rest = (Cursor.opening markup text).next.pastSemicolon.start.rest := by
  obtain ⟨arrowStart, hread⟩ := Grammar.item_of_string htoken hvalue hends rfl (Nat.succ_pos _)
    (16 * text.length + 60)
  exact ⟨_, hread, rfl⟩

/-- A heading whose `k`th token is its last one, but for a semicolon. -/
structure Heading (markup : Bool) (start : List Char) (item : Node) (rest : List Char) (k : Nat) :
    Prop where
  starts : (Cursor.opening markup start).token.startsItem = true
  plain : ∀ i ≤ k, (Cursor.nth markup start i).token.isPlain = true
  ends : (Cursor.nth markup start (k + 1)).endsStatement = true
  hi : item.span.hi = (Cursor.nth markup start (k + 1)).pastSemicolon.last
  behind : (Cursor.nth markup start (k + 1)).pastSemicolon.start.rest = rest
  again : ∀ other, (Cursor.opening markup start).LikeUpTo k (Cursor.opening markup other) →
    (Cursor.nth markup other (k + 1)).endsHeading = true →
    ∃ item', item'.alike item = true ∧ passItem markup other = some (item',
      (Cursor.nth markup other (k + 1)).pastSemicolon.start.rest)

section

variable {markup : Bool} {start rest : List Char} {item : Node}

theorem heading_of_string (hstring : (Cursor.opening markup start).isString = true)
    (hends : (Cursor.opening markup start).next.endsStatement = true)
    (hvalue : Grammar.endsValue (Cursor.opening markup start).next.token = true)
    (h : passItem markup start = some (item, rest)) : Heading markup start item rest 0 := by
  obtain ⟨value, htoken⟩ := Cursor.exists_string hstring
  obtain ⟨e, hread, hbehind⟩ := readItem_of_string htoken hvalue hends
  obtain ⟨-, e', hread', rfl⟩ := passItem_inv h
  cases hread.symm.trans hread'
  refine ⟨by rw [htoken]; rfl, fun i hi => ?_, hends, rfl, hbehind.symm, ?_⟩
  · obtain rfl := Nat.le_zero.mp hi
    exact Cursor.isPlain_of_isString hstring
  · intro other hlike hother
    have htoken' := hlike.like.token.trans htoken
    have hother' := Cursor.endsValue_of_endsHeading hother
    obtain ⟨e', hread', hbehind'⟩ := readItem_of_string htoken' hother'.1
      (Cursor.endsStatement_of_endsHeading hother)
    have hne : other ≠ [] :=
      ne_nil_of_isPlain (Cursor.isPlain_of_isString (hlike.like.isString.trans hstring))
    refine ⟨_, ?_, (passItem_of_read hread' hne).trans (by rw [hbehind']; rfl)⟩
    simp [Node.alike, alikeAll, Grammar.leaf]

theorem heading_of_import (hword : (Cursor.opening markup start).isWord "import" = true)
    (hnext : (Cursor.opening markup start).next.anyPunct ["(", "."] = false)
    {typeOnly : Bool} {source : Option String} {names : List ImportName}
    (hkind : item.kind = .importDecl typeOnly source names) (hplain : item.children = [])
    (h : passItem markup start = some (item, rest)) : ∃ k, Heading markup start item rest k := by
  obtain ⟨-, e, hread, rfl⟩ := passItem_inv h
  rw [readItem_of_import hword hnext] at hread
  obtain ⟨k, hk, hbefore, htoken, hends, rfl, hhi, hsame⟩ :=
    Grammar.importDecl_inv hword hread hkind hplain
  refine ⟨k, ?_, hbefore, hends, hhi, rfl, fun other hlike hother => ?_⟩
  · exact Cursor.startsItem_of_isWord hword
  · have hother' := Cursor.endsValue_of_endsHeading hother
    have hword' := (hlike.like.isWord "import").trans hword
    have hlast : (Cursor.nth markup other k).token = .string source :=
      (hlike k (Nat.le_refl k)).token.trans htoken
    rw [Cursor.nth_succ] at hother hother' ⊢
    have hread' := (readItem_of_import hword' (((hlike.next hk).anyPunct _).trans hnext)).trans
      ((hsame hlike).trans (Grammar.importSource_of_end hlast hother'.2
        (Cursor.endsStatement_of_endsHeading hother)))
    have hne : other ≠ [] := ne_nil_of_isPlain (Cursor.isPlain_of_isWord hword')
    refine ⟨_, ?_, passItem_of_read hread' hne⟩
    obtain ⟨kind, span, children⟩ := item
    obtain rfl : kind = _ := hkind
    obtain rfl : children = [] := hplain
    simp [Node.alike, alikeAll]

theorem exists_heading (hheading : isHeading markup start item = true)
    (h : passItem markup start = some (item, rest)) : ∃ k, Heading markup start item rest k := by
  unfold isHeading at hheading
  dsimp only at hheading
  split at hheading
  · rename_i hstring
    obtain ⟨hends, hvalue⟩ := Bool.and_eq_true_iff.mp hheading
    exact ⟨0, heading_of_string hstring hends hvalue h⟩
  · simp only [Bool.and_eq_true, Bool.not_eq_true', List.isEmpty_iff] at hheading
    obtain ⟨⟨⟨hword, hnext⟩, hplain⟩, hkind⟩ := hheading
    split at hkind
    · exact heading_of_import hword hnext ‹_› hplain h
    · cases hkind

end

/-! ### Where the next item starts -/

/-- The first token of the text is one that starts an item. -/
def StartsItem (text : List Char) : Prop :=
  (readToken (text.length + 2) ⟨text, 0⟩).1.startsItem = true

/-- The text begins with such a token, also where it stands at the start of a line. -/
structure BeginsItem (text : List Char) : Prop where
  solid : startsGap true text = false
  starts : StartsItem text

/-- Behind a token that stands before `text`, the next one stands at `start`, on a new line or not,
and starts an item. -/
def Opens (text start : List Char) (lines : Bool) : Prop :=
  ∃ c : Cursor, c.stop.rest = text ∧ text.length < c.fuel ∧ c.next.start.rest = start ∧
    c.next.newline = lines ∧ c.next.token.startsItem = true

theorem BeginsItem.ne_nil {text : List Char} (h : BeginsItem text) : text ≠ [] := by
  rintro rfl
  cases h.starts

theorem beginsItem_of_spells {token : Token} {spelling rest : List Char}
    (h : Spells token spelling rest) (htoken : token.startsItem = true) :
    BeginsItem (spelling ++ rest) := by
  refine ⟨h.solid, ?_⟩
  rw [StartsItem, h.read _ _ (by omega)]
  exact htoken

/-- The next token depends on the text before it alone. -/
theorem Cursor.next_congr {c d : Cursor} (h : d.stop.rest = c.stop.rest)
    (hc : c.stop.rest.length < c.fuel) (hd : c.stop.rest.length < d.fuel) :
    d.next.token = c.next.token ∧ d.next.start.rest = c.next.start.rest ∧
      d.next.newline = c.next.newline := by
  rcases Nat.le_total c.fuel d.fuel with hfuel | hfuel
  · have hfollows : c.Follows (d.inContext c.context) := ⟨h, rfl, hc, hfuel⟩
    have htwin := hfollows.next
    rw [next_inContext] at htwin
    exact ⟨htwin.token, htwin.start, htwin.newline⟩
  · have hfollows : d.Follows (c.inContext d.context) := ⟨h.symm, rfl, by rw [h]; exact hd, hfuel⟩
    have htwin := hfollows.next
    rw [next_inContext] at htwin
    exact ⟨htwin.token.symm, htwin.start.symm, htwin.newline.symm⟩

section

variable {text start gap fresh : List Char} {lines : Bool} {c : Cursor}

theorem Opens.next (h : Opens text start lines) (hbehind : c.stop.rest = text)
    (hfuel : text.length < c.fuel) :
    c.next.start.rest = start ∧ c.next.newline = lines ∧ c.next.token.startsItem = true := by
  obtain ⟨d, rfl, hd, rfl, rfl, hstarts⟩ := h
  obtain ⟨htoken, hstart, hnewline⟩ := Cursor.next_congr hbehind hd hfuel
  exact ⟨hstart, hnewline, by rw [htoken]; exact hstarts⟩

theorem opens_of_skip {fuel pos : Nat} {first : Input} (hfuel : text.length < fuel)
    (hskip : skipTrivia fuel ⟨text, pos⟩ false = some (first, lines))
    (hstarts : StartsItem first.rest) : Opens text first.rest lines := by
  have hless : first.rest.length ≤ text.length := length_skipTrivia hskip
  refine ⟨{ Cursor.opening false text with stop := ⟨text, pos⟩, fuel }, rfl, hfuel, ?_⟩
  unfold Cursor.next Cursor.readFrom
  dsimp only
  rw [hskip]
  refine ⟨rfl, rfl, ?_⟩
  have htoken := (readToken_congr (i := ⟨first.rest, 0⟩) (j := first) rfl
    (Nat.lt_add_of_pos_right Nat.two_pos) (Nat.lt_of_le_of_lt hless hfuel)).1
  dsimp only
  rw [htoken]
  exact hstarts

theorem opens_of_tokenStart? (h : tokenStart? text = some start) (hstarts : StartsItem start) :
    ∃ lines, Opens text start lines := by
  obtain ⟨⟨first, lines⟩, hskip, rfl⟩ := Option.map_eq_some_iff.mp h
  exact ⟨lines, opens_of_skip (Nat.lt_succ_self _) hskip hstarts⟩

/-- A statement on a line of its own. -/
theorem opens_break (h : BeginsItem fresh) : Opens ('\n' :: fresh) fresh true := by
  have hskip : skipTrivia (fresh.length + 1 + 1) ⟨'\n' :: fresh, 0⟩ false =
      some (⟨fresh, 0 + '\n'.utf8Size⟩, true) :=
    (skipTrivia_break (by decide)).trans (skipTrivia_solid h.solid)
  have hfuel : ('\n' :: fresh).length < fresh.length + 1 + 1 := Nat.lt_succ_self _
  exact opens_of_skip hfuel hskip h.starts

/-- Another item in the place of one. -/
theorem Opens.replace (h : Opens (gap ++ start) start lines) (hfresh : BeginsItem fresh) :
    Opens (gap ++ fresh) fresh lines := by
  obtain ⟨c, hbehind, -, rfl, rfl, htoken⟩ := h
  obtain ⟨first, hskip, hfirst, hne, -⟩ := Cursor.exists_skip (isPlain_of_startsItem htoken)
  rw [hfirst] at hbehind
  obtain ⟨lead, hlead, -, hsame⟩ := skipsTo_of_skipTrivia hskip hne
  obtain rfl : gap = lead := List.append_cancel_right (hbehind.symm.trans hlead)
  exact opens_of_skip (Nat.lt_succ_self _)
    (hsame fresh _ (startsGap_mono hfresh.solid) (Nat.lt_succ_self _)) hfresh.starts

theorem Opens.tokenStart? (h : Opens text start lines) : tokenStart? text = some start := by
  obtain ⟨c, rfl, hfuel, rfl, rfl, htoken⟩ := h
  obtain ⟨first, hskip, rfl, -⟩ := Cursor.exists_skip (isPlain_of_startsItem htoken)
  rw [← map_skipTrivia hfuel, hskip]
  rfl

end

/-! ### The head of a module -/

/-- The text `lead` holds the items, and does so before every text that opens another item. A line
break before that item may be left out where there was none. -/
structure Heads (markup : Bool) (lead behind : List Char) (items : List Node) : Prop where
  head : ∃ c ∈ lead.head?, c ≠ '\\'
  starts : StartsItem (lead ++ behind)
  again : ∀ other fresh lines, GoesOn behind other → behind.length ≤ other.length →
    Opens other fresh lines → (lines = true ∨ ∃ old, Opens behind old lines) →
    BeginsItem (lead ++ other) ∧ ∃ found, alikeAll found items = true ∧
      passItems markup items.length (lead ++ other) = some (found, fresh)

section

variable {markup : Bool} {start rest lead behind : List Char} {item : Node} {k : Nat}

/-- The index of the last token of a heading, which is a semicolon or not. Where the same tokens
stand before one that starts an item, the heading ends there again. -/
theorem Heading.exists_last (h : Heading markup start item rest k) :
    ∃ n ≥ k, (∀ i ≤ n, (Cursor.nth markup start i).token.isPlain = true) ∧
      (Cursor.nth markup start (k + 1)).pastSemicolon = Cursor.nth markup start (n + 1) ∧
      ∀ other, (Cursor.opening markup start).LikeUpTo n (Cursor.opening markup other) →
        (Cursor.nth markup other (n + 1)).token.startsItem = true →
        ((Cursor.nth markup other (n + 1)).newline = true ∨
          (Cursor.nth markup start (n + 1)).newline = (Cursor.nth markup other (n + 1)).newline ∧
          (Cursor.nth markup start (n + 1)).token.startsItem = true) →
        (Cursor.nth markup other (k + 1)).endsHeading = true ∧
          (Cursor.nth markup other (k + 1)).pastSemicolon = Cursor.nth markup other (n + 1) := by
  by_cases hmark : (Cursor.nth markup start (k + 1)).isPunct ";" = true
  · refine ⟨k + 1, Nat.le_succ k, fun i hi => ?_, ?_, fun other hlike _ _ => ?_⟩
    · rcases Nat.le_or_eq_of_le_succ hi with hi | rfl
      · exact h.plain i hi
      · exact Cursor.isPlain_of_isPunct hmark rfl
    · rw [Cursor.pastSemicolon_of_semicolon hmark, ← Cursor.nth_succ]
    · have hmark' : (Cursor.nth markup other (k + 1)).isPunct ";" = true :=
        ((hlike (k + 1) (Nat.le_refl _)).isPunct ";").trans hmark
      rw [Cursor.pastSemicolon_of_semicolon hmark', Cursor.endsHeading, hmark', Bool.true_or,
        ← Cursor.nth_succ]
      exact ⟨rfl, rfl⟩
  · refine ⟨k, Nat.le_refl k, h.plain, if_neg hmark, fun other _ hstarts hlines => ?_⟩
    have hnone : (Cursor.nth markup other (k + 1)).isPunct ";" = false := by
      rw [Cursor.isPunct, beq_eq_false_iff_ne]
      intro hsemicolon
      rw [hsemicolon] at hstarts
      cases hstarts
    have hnewline : (Cursor.nth markup other (k + 1)).newline = true := by
      rcases hlines with hnewline | ⟨hsame, hstarts⟩
      · exact hnewline
      · rw [← hsame]
        exact Cursor.newline_of_startsItem hstarts h.ends
    rw [Cursor.endsHeading, hnone, hnewline, hstarts]
    refine ⟨rfl, if_neg ?_⟩
    rw [hnone]
    exact Bool.false_ne_true

theorem heads_of_heading (h : Heading markup start item rest k) (hescape : Unescaped start rest) :
    ∃ lead behind, start = lead ++ behind ∧ Text.splitAt? item.span.hi start = some (lead, behind) ∧
      tokenStart? behind = tokenStart? rest ∧ Heads markup lead behind [item] := by
  obtain ⟨n, hk, hplain, hpast, hlast⟩ := h.exists_last
  have hrest := h.behind
  have hhi := h.hi
  rw [hpast, Cursor.nth_succ] at hrest hhi
  rw [Cursor.last_next] at hhi
  have hless : rest.length ≤ (Cursor.nth markup start n).stop.rest.length := by
    rw [← hrest]
    exact Cursor.length_start_next_le _
  obtain ⟨lead, hne, hfree, htext, hpos, hagain⟩ :=
    exists_lead_opening markup hplain (hescape.mono hless)
  have hbehind := tokenStart?_next (Cursor.enough_nth markup start n)
  rw [hrest] at hbehind
  generalize hold : (Cursor.nth markup start n).stop.rest = behind at *
  refine ⟨lead, behind, htext, ?_, hbehind.symm, ?_, ?_, ?_⟩
  · rw [hhi, hpos, htext]
    exact Text.splitAt?_byteLength lead behind
  · obtain ⟨c, tail, rfl⟩ := List.exists_cons_of_ne_nil hne
    exact ⟨c, rfl, fun hc => hfree (by simp [hc])⟩
  · rw [← htext]
    exact h.starts
  · intro other fresh lines hgoes hlength hopens hlines
    have hlonger : start.length ≤ (lead ++ other).length := by
      rw [htext, List.length_append, List.length_append]
      omega
    obtain ⟨hsolid, hlike, hend⟩ := hagain other hgoes hlonger
    have hstarts : (Cursor.opening markup (lead ++ other)).token.startsItem = true := by
      rw [hlike.like.token]
      exact h.starts
    have henough := Cursor.enough_nth markup (lead ++ other) n
    rw [hend] at henough
    obtain ⟨hfresh, hnewline, htoken⟩ := hopens.next hend henough
    rw [← Cursor.nth_succ] at hfresh hnewline htoken
    have hline : (Cursor.nth markup (lead ++ other) (n + 1)).newline = true ∨
        (Cursor.nth markup start (n + 1)).newline =
          (Cursor.nth markup (lead ++ other) (n + 1)).newline ∧
        (Cursor.nth markup start (n + 1)).token.startsItem = true := by
      rcases hlines with rfl | ⟨old, hopens'⟩
      · exact .inl hnewline
      · have henough' := Cursor.enough_nth markup start n
        rw [hold] at henough'
        obtain ⟨-, hnewline', htoken'⟩ := hopens'.next hold henough'
        rw [← Cursor.nth_succ] at hnewline' htoken'
        exact .inr ⟨hnewline'.trans hnewline.symm, htoken'⟩
    obtain ⟨hends, hpast'⟩ := hlast _ hlike htoken hline
    obtain ⟨item', halike, hpass⟩ := h.again _ (hlike.mono hk) hends
    rw [hpast', hfresh] at hpass
    refine ⟨⟨hsolid, hstarts⟩, [item'], by rw [alikeAll, halike]; rfl, ?_⟩
    exact passItems_succ (tokenStart?_solid (startsGap_mono hsolid)) hpass
      (passItems_zero (tokenStart?_tokenStart? hopens.tokenStart?))

theorem alikeAll_append {ns ms ns' ms' : List Node} (h : alikeAll ns ms = true)
    (h' : alikeAll ns' ms' = true) : alikeAll (ns ++ ns') (ms ++ ms') = true := by
  induction ns generalizing ms with
  | nil =>
    cases ms with
    | nil => exact h'
    | cons m ms => cases h
  | cons n ns ih =>
    cases ms with
    | nil => cases h
    | cons m ms =>
      simp only [alikeAll, List.cons_append, Bool.and_eq_true] at h ⊢
      exact ⟨h.1, ih h.2⟩

/-- Behind a token, a gap before another text goes on alike. -/
theorem GoesOn.gap {gap old fresh : List Char} (h : GoesOn old fresh)
    (hgap : tokenStart? (gap ++ old) = some old) : GoesOn (gap ++ old) (gap ++ fresh) := by
  cases gap with
  | nil => exact h
  | cons c gap =>
    refine .inl ⟨rfl, ?_⟩
    rintro ⟨⟩
    have hsolid : tokenStart? ('\\' :: (gap ++ old)) = some _ := tokenStart?_solid rfl
    have hlength := congrArg List.length (Option.some.inj (hsolid.symm.trans hgap))
    simp only [List.length_cons, List.length_append] at hlength
    omega

theorem Heads.ne_nil {items : List Node} (h : Heads markup lead behind items) :
    lead ++ behind ≠ [] := by
  obtain ⟨c, hc, -⟩ := h.head
  obtain ⟨tail, rfl⟩ := List.head?_eq_some_iff.mp hc
  exact List.cons_ne_nil _ _

/-- Items behind others. -/
theorem Heads.append {gap lead' : List Char} {items items' : List Node}
    (h : Heads markup lead (gap ++ (lead' ++ behind)) items)
    (h' : Heads markup lead' behind items')
    (hgap : tokenStart? (gap ++ (lead' ++ behind)) = some (lead' ++ behind)) :
    Heads markup (lead ++ (gap ++ lead')) behind (items ++ items') := by
  refine ⟨?_, ?_, ?_⟩
  · obtain ⟨c, hc, hfree⟩ := h.head
    exact ⟨c, by rw [List.head?_append, hc]; rfl, hfree⟩
  · simpa using h.starts
  · intro other fresh lines hgoes hlength hopens hlines
    obtain ⟨hbegins', found', halike', hpass'⟩ :=
      h'.again other fresh lines hgoes hlength hopens hlines
    obtain ⟨lines', hopens'⟩ := opens_of_tokenStart? hgap h'.starts
    have hgoes' : GoesOn (lead' ++ behind) (lead' ++ other) := by
      obtain ⟨c, hc, hfree⟩ := h'.head
      obtain ⟨tail, rfl⟩ := List.head?_eq_some_iff.mp hc
      exact .inl ⟨rfl, fun hsame => hfree (Option.some.inj hsame)⟩
    obtain ⟨hbegins, found, halike, hpass⟩ := h.again (gap ++ (lead' ++ other))
      (lead' ++ other) lines' (hgoes'.gap hgap) (by simp [hlength])
      (hopens'.replace hbegins') (.inr ⟨_, hopens'⟩)
    simp only [List.append_assoc]
    refine ⟨hbegins, found ++ found', alikeAll_append halike halike', ?_⟩
    rw [List.length_append]
    exact passItems_append hpass hpass'

end

instance (text rest : List Char) : Decidable (Unescaped text rest) :=
  inferInstanceAs (Decidable (¬ _))

/-- The text behind the first items, if there are some and all of them are headings without
escapes. -/
def headEnd? (markup : Bool) : Nat → List Char → Option (List Char)
  | 0, _ => none
  | count + 1, text => do
    let start ← tokenStart? text
    let (item, rest) ← passItem markup start
    if isHeading markup start item = true ∧ Unescaped start rest then
      if count = 0 then (Text.splitAt? item.span.hi start).map (·.2)
      else headEnd? markup count rest
    else none

section

variable {markup : Bool} {text rest behind : List Char} {items : List Node} {count : Nat}

theorem heads_of_headEnd? (h : headEnd? markup count text = some behind)
    (hread : passItems markup count text = some (items, rest)) :
    ∃ lead, tokenStart? text = some (lead ++ behind) ∧ Heads markup lead behind items ∧
      tokenStart? behind = some rest := by
  induction count generalizing text items with
  | zero => cases h
  | succ count ih =>
    obtain ⟨start, item, mid, more, hstart, hitem, hmore, rfl⟩ := passItems_succ_inv hread
    simp only [headEnd?, hstart, hitem, bind, Option.bind_some] at h
    split at h
    · rename_i hheading
      obtain ⟨k, hk⟩ := exists_heading hheading.1 hitem
      obtain ⟨lead, old, htext, hsplit, hbehind, hheads⟩ := heads_of_heading hk hheading.2
      cases count with
      | zero =>
        rw [if_pos rfl, hsplit] at h
        cases h
        obtain ⟨rfl, hmid⟩ := passItems_zero_inv hmore
        exact ⟨lead, hstart.trans (congrArg some htext), hheads, hbehind.trans hmid⟩
      | succ count =>
        rw [if_neg (Nat.succ_ne_zero count)] at h
        obtain ⟨lead', hstart', hheads', hend⟩ := ih h hmore
        have hold := hbehind.trans hstart'
        obtain ⟨gap, rfl, -⟩ := exists_before_tokenStart? hold hheads'.ne_nil
        refine ⟨lead ++ (gap ++ lead'), ?_, hheads.append hheads' hold, hend⟩
        rw [hstart, htext]
        simp only [List.append_assoc]
    · cases h

/-- A module ends with what it is from its first token on. -/
theorem exists_before_moduleText {start : List Char}
    (h : tokenStart? (moduleText text) = some start) (hne : start ≠ []) :
    ∃ front, text = front ++ start := by
  obtain ⟨lead, hlead, -⟩ := exists_before_tokenStart? h hne
  obtain ⟨line, hline⟩ : ∃ line, text = line ++ moduleText text := by
    unfold moduleText skipHashbang
    split
    · obtain ⟨line, hline, -, -⟩ := exists_skipLineComment _ 0
      exact ⟨line, hline⟩
    · exact ⟨[], rfl⟩
  rw [hlead] at hline
  exact ⟨line ++ lead, by rw [hline, List.append_assoc]⟩

/-- Headings at the start of a module are read alike when an item comes then. -/
theorem Heads.passItems_moduleText {front lead other fresh : List Char} {lines : Bool}
    (h : Heads markup lead behind items)
    (hstart : tokenStart? (moduleText (front ++ (lead ++ behind))) = some (lead ++ behind))
    (hgoes : GoesOn behind other) (hlength : behind.length ≤ other.length)
    (hopens : Opens other fresh lines) (hlines : lines = true ∨ ∃ old, Opens behind old lines) :
    ∃ found, alikeAll found items = true ∧
      passItems markup items.length (moduleText (front ++ (lead ++ other))) =
        some (found, fresh) := by
  obtain ⟨hbegins, found, halike, hpass⟩ :=
    h.again other fresh lines hgoes hlength hopens hlines
  have hfirst := tokenStart?_moduleText hstart h.ne_nil hbegins.solid
    (head?_of_isPlain (isPlain_of_startsItem hbegins.starts))
  refine ⟨found, halike, ?_⟩
  rw [passItems_congr (hfirst.trans (tokenStart?_solid (startsGap_mono hbegins.solid)).symm)]
  exact hpass

end

end Phrasebook.Script
