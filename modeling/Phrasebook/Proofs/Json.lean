import Mathlib.Data.List.Nodup
import Mathlib.Data.List.TakeWhile
import Phrasebook.Json.Reader

/-!
JSON texts are read back as the values they were printed from, whatever their texts hold.
-/
namespace Phrasebook.Json

variable {α β : Type} {a : α} {b : β} {input mid rest : List Char}

/-- The reader takes what comes before `rest` for `a`, wherever in a text that is. -/
def Reads (r : Read α) (input : List Char) (a : α) (rest : List Char) : Prop :=
  ∀ p, ∃ p', r ⟨input, p⟩ = .ok (a, ⟨rest, p'⟩)

theorem Reads.bind {r : Read α} {f : α → Read β} (h : Reads r input a mid)
    (hf : Reads (f a) mid b rest) : Reads (r >>= f) input b rest := by
  intro p
  obtain ⟨q, hq⟩ := h p
  obtain ⟨p', hp'⟩ := hf q
  refine ⟨p', ?_⟩
  change (r ⟨input, p⟩ >>= fun x => f x.1 x.2) = _
  rw [hq]
  exact hp'

theorem reads_pure (a : α) (input : List Char) : Reads (pure a) input a input :=
  fun p => ⟨p, rfl⟩

theorem reads_peek (input : List Char) : Reads peek input input.head? input :=
  fun p => ⟨p, rfl⟩

theorem reads_advance (c : Char) (rest : List Char) : Reads advance (c :: rest) () rest :=
  fun p => ⟨p.step c, rfl⟩

theorem reads_steps (input : List Char) : Reads steps input (input.length + 1) input :=
  fun p => ⟨p, rfl⟩

theorem reads_skipSpace (input : List Char) :
    Reads skipSpace input () (input.dropWhile isSpace) := by
  intro p
  have hskip : ∀ p, ∃ p', skipFrom input p = ⟨input.dropWhile isSpace, p'⟩ := by
    induction input with
    | nil => exact fun p => ⟨p, rfl⟩
    | cons c cs ih =>
      intro p
      unfold skipFrom
      by_cases hc : isSpace c
      · simpa [hc] using ih (p.step c)
      · exact ⟨p, by simp [hc]⟩
  obtain ⟨p', hp'⟩ := hskip p
  exact ⟨p', congrArg (fun c => Except.ok ((), c)) hp'⟩

/-- White space is skipped up to the character that comes next. -/
theorem reads_peekPast {c : Char} (hc : isSpace c = false) {white : List Char}
    (hwhite : ∀ x ∈ white, isSpace x = true) (rest : List Char) :
    Reads peekPast (white ++ c :: rest) (some c) (c :: rest) := by
  have hskip : (white ++ c :: rest).dropWhile isSpace = c :: rest := by
    rw [List.dropWhile_append_of_pos hwhite, List.dropWhile_cons_of_neg (by simp [hc])]
  have hskipped := reads_skipSpace (white ++ c :: rest)
  rw [hskip] at hskipped
  exact hskipped.bind (reads_peek (c :: rest))

/-! ### Texts -/

theorem hexDigits_of_control : ∀ n < 0x20, (Text.hexDigits 4 n).length = 4 ∧
    Text.byteLength (Text.hexDigits 4 n) = 4 ∧ hexNumber? (Text.hexDigits 4 n) = some n := by
  decide

theorem reads_hexUnit {n : Nat} (hn : n < 0x20) (rest : List Char) :
    Reads hexUnit (Text.hexDigits 4 n ++ rest) n rest := by
  intro p
  obtain ⟨hlength, hbytes, hnumber⟩ := hexDigits_of_control n hn
  refine ⟨Position.afterBytes 4 (Text.hexDigits 4 n ++ rest) p, ?_⟩
  have hlong : ¬Text.byteLength (Text.hexDigits 4 n ++ rest) < 4 := by
    rw [Text.byteLength_append]
    omega
  simp only [hexUnit, hlong, if_false, List.take_left' hlength, List.drop_left' hlength, hnumber]

theorem reads_unicodeEscape {c : Char} (hc : c.toNat < 0x20) (rest : List Char) :
    Reads unicodeEscape (Text.hexDigits 4 c.toNat ++ rest) c rest := by
  refine (reads_hexUnit hc rest).bind ?_
  have hlow : ¬0xdc00 ≤ c.toNat := by omega
  have hhigh : ¬0xd800 ≤ c.toNat := by omega
  simp only [hlow, hhigh, decide_false, Bool.false_and, Bool.false_eq_true, if_false,
    Char.ofNat_toNat]
  exact reads_pure c rest

theorem reads_simpleEscape {x d : Char} (h : simpleEscape? x = some d) (rest : List Char) :
    Reads escape (x :: rest) d rest := by
  refine (reads_peek _).bind ?_
  simp only [List.head?_cons, h]
  exact (reads_advance x rest).bind (reads_pure d rest)

/-- A character is written as it is, or after a backslash in a form that is read as this one. -/
theorem escapeChar_cases (c : Char) :
    (Text.escapeChar c = [c] ∧ c ≠ '\x22' ∧ c ≠ '\\' ∧ ¬c.toNat < 0x20) ∨
    ∃ code, Text.escapeChar c = '\\' :: code ∧ ∀ rest, Reads escape (code ++ rest) c rest := by
  have hsimple : ∀ (x d : Char), c.toNat = d.toNat → simpleEscape? x = some d →
      ∀ rest, Reads escape ([x] ++ rest) c rest := by
    intro x d hcd hx rest
    obtain rfl : c = d := Char.toNat_inj.mp hcd
    exact reads_simpleEscape hx rest
  unfold Text.escapeChar
  split
  case _ h => exact .inr ⟨_, rfl, hsimple '\x22' '\x22' h rfl⟩
  case _ h => exact .inr ⟨_, rfl, hsimple '\\' '\\' h rfl⟩
  case _ h => exact .inr ⟨_, rfl, hsimple 'b' '\x08' h rfl⟩
  case _ h => exact .inr ⟨_, rfl, hsimple 't' '\t' h rfl⟩
  case _ h => exact .inr ⟨_, rfl, hsimple 'n' '\n' h rfl⟩
  case _ h => exact .inr ⟨_, rfl, hsimple 'f' '\x0c' h rfl⟩
  case _ h => exact .inr ⟨_, rfl, hsimple 'r' '\r' h rfl⟩
  case _ hquote hslash _ _ _ _ _ =>
    split
    case isTrue hlow =>
      refine .inr ⟨_, rfl, fun rest => (reads_peek _).bind ?_⟩
      exact (reads_advance 'u' _).bind (reads_unicodeEscape hlow rest)
    case isFalse hlow =>
      exact .inl ⟨rfl, fun h => hquote (h ▸ rfl), fun h => hslash (h ▸ rfl), hlow⟩

theorem reads_textFrom (cs rest done : List Char) {fuel : Nat} (hfuel : cs.length < fuel) :
    Reads (textFrom fuel done) (cs.flatMap Text.escapeChar ++ '\x22' :: rest)
      (String.ofList (done.reverse ++ cs)) rest := by
  induction cs generalizing fuel done with
  | nil =>
    obtain ⟨fuel, rfl⟩ := Nat.exists_eq_add_of_lt hfuel
    refine (reads_peek _).bind ((reads_advance '\x22' rest).bind ?_)
    rw [List.append_nil]
    exact reads_pure _ rest
  | cons c cs ih =>
    obtain ⟨fuel, rfl⟩ : ∃ n, fuel = n + 1 := ⟨fuel - 1, by omega⟩
    have hmore := ih (c :: done) (Nat.lt_of_succ_lt_succ hfuel)
    rw [List.reverse_cons, List.append_assoc, List.singleton_append] at hmore
    rw [List.flatMap_cons, List.append_assoc]
    refine (reads_peek _).bind ?_
    obtain ⟨hplain, hquote, hslash, hlow⟩ | ⟨code, hcode, hescape⟩ := escapeChar_cases c
    · rw [hplain]
      simp only [List.singleton_append, List.head?_cons]
      rw [if_neg hlow]
      exact (reads_advance c _).bind hmore
    · rw [hcode]
      exact (reads_advance '\\' _).bind ((hescape _).bind hmore)

theorem length_le_flatMap_escapeChar (cs : List Char) :
    cs.length ≤ (cs.flatMap Text.escapeChar).length := by
  induction cs with
  | nil => exact Nat.le_refl _
  | cons c cs ih =>
    have hpos : 0 < (Text.escapeChar c).length := by
      obtain ⟨hplain, -⟩ | ⟨code, hcode, -⟩ := escapeChar_cases c
      · simp [hplain]
      · simp [hcode]
    rw [List.flatMap_cons, List.length_append, List.length_cons]
    omega

theorem toList_quote (text : String) :
    (Text.quote text).toList = '\x22' :: (text.toList.flatMap Text.escapeChar ++ ['\x22']) := by
  simp [Text.quote]

/-- A quoted text is read back after its opening quote. -/
theorem reads_textBody (text : String) (rest : List Char) :
    Reads textBody (text.toList.flatMap Text.escapeChar ++ '\x22' :: rest) text rest := by
  refine (reads_steps _).bind ?_
  have hfuel : text.toList.length <
      (text.toList.flatMap Text.escapeChar ++ '\x22' :: rest).length + 1 := by
    have := length_le_flatMap_escapeChar text.toList
    rw [List.length_append]
    omega
  simpa using reads_textFrom text.toList rest [] hfuel

/-! ### Values -/

/-- Values made of texts, with at most so many levels of lists and objects around them. No object has
a key twice. -/
inductive Value.Legible : Nat → Value → Prop where
  | text {depth : Nat} (value : String) : Legible depth (.text value)
  | list {depth : Nat} {items : List Value} : (∀ item ∈ items, Legible depth item) →
      Legible (depth + 1) (.list items)
  | object {depth : Nat} {members : List (String × Value)} : (members.map (·.1)).Nodup →
      (∀ m ∈ members, Legible depth m.2) → Legible (depth + 1) (.object members)

/-- A new line up to its first item. -/
def gap (level : Nat) : List Char := '\n' :: List.replicate (2 * level) ' '

theorem isSpace_of_mem_gap {level : Nat} : ∀ c ∈ gap level, isSpace c = true := by
  intro c hc
  rcases List.mem_cons.mp hc with rfl | hc
  · rfl
  · rw [List.eq_of_mem_replicate hc]
    rfl

theorem length_gap (level : Nat) : (gap level).length = 2 * level + 1 := by
  simp [gap]

theorem toList_intercalate_cons (s x : String) (xs : List String) :
    (s.intercalate (x :: xs)).toList = x.toList ++ xs.flatMap fun y => s.toList ++ y.toList := by
  induction xs generalizing x with
  | nil => simp
  | cons y ys ih => simp [String.intercalate_cons_cons, ih]

/-- Items but the first, each after a comma. -/
def further (level : Nat) (items : List String) : List Char :=
  items.flatMap fun item => ',' :: (gap level ++ item.toList)

theorem toList_bracketed (opening closing : String) (level : Nat) (item : String)
    (items : List String) :
    (bracketed opening closing level (item :: items)).toList =
      opening.toList ++ (gap (level + 1) ++ (item.toList ++
        (further (level + 1) items ++ (gap level ++ closing.toList)))) := by
  rw [bracketed, if_neg (by simp), List.map_cons]
  simp only [String.toList_append, toList_intercalate_cons, List.flatMap_map, indent,
    String.toList_ofList, further, gap]
  simp

theorem printItems_eq (level : Nat) (items : List Value) :
    printItems level items = items.map (·.printAt level) := by
  induction items with
  | nil => rfl
  | cons item rest ih => simp [printItems, ih]

def printMember (level : Nat) (m : String × Value) : String :=
  Text.quote m.1 ++ ": " ++ m.2.printAt level

theorem printMembers_eq (level : Nat) (members : List (String × Value)) :
    printMembers level members = members.map (printMember level) := by
  induction members with
  | nil => rfl
  | cons m rest ih => simp [printMembers, printMember, ih]

theorem toList_printAt_list_nil (level : Nat) :
    ((Value.list []).printAt level).toList = ['[', ']'] := by
  rw [Value.printAt, printItems_eq]
  simp [bracketed]

theorem toList_printAt_object_nil (level : Nat) :
    ((Value.object []).printAt level).toList = ['\x7b', '\x7d'] := by
  rw [Value.printAt, printMembers_eq]
  simp [bracketed]

theorem toList_printAt_list (level : Nat) (item : Value) (items : List Value) :
    ((Value.list (item :: items)).printAt level).toList =
      '[' :: (gap (level + 1) ++ ((item.printAt (level + 1)).toList ++
        (further (level + 1) (items.map (·.printAt (level + 1))) ++ (gap level ++ [']'])))) := by
  rw [Value.printAt, printItems_eq, List.map_cons, toList_bracketed]
  rfl

theorem toList_printAt_object (level : Nat) (m : String × Value) (members : List (String × Value)) :
    ((Value.object (m :: members)).printAt level).toList =
      '\x7b' :: (gap (level + 1) ++ ((printMember (level + 1) m).toList ++
        (further (level + 1) (members.map (printMember (level + 1))) ++
          (gap level ++ ['\x7d'])))) := by
  rw [Value.printAt, printMembers_eq, List.map_cons, toList_bracketed]
  rfl

theorem toList_printMember (level : Nat) (m : String × Value) :
    (printMember level m).toList = '\x22' :: (m.1.toList.flatMap Text.escapeChar ++
      '\x22' :: ':' :: ' ' :: (m.2.printAt level).toList) := by
  simp [printMember, toList_quote]

/-- The text of a value begins with a character that is neither white space nor the end of a
list. -/
theorem Value.Legible.head {depth : Nat} {v : Value} (h : v.Legible depth) (level : Nat) :
    ∃ c cs, (v.printAt level).toList = c :: cs ∧ isSpace c = false ∧ c ≠ ']' := by
  cases h with
  | text value => exact ⟨'\x22', _, by rw [Value.printAt, toList_quote], by decide⟩
  | @list _ items _ =>
    cases items with
    | nil => exact ⟨'[', [']'], toList_printAt_list_nil level, by decide⟩
    | cons item rest => exact ⟨'[', _, toList_printAt_list level item rest, by decide⟩
  | @object _ members _ _ =>
    cases members with
    | nil => exact ⟨'\x7b', ['\x7d'], toList_printAt_object_nil level, by decide⟩
    | cons m rest => exact ⟨'\x7b', _, toList_printAt_object level m rest, by decide⟩

theorem further_cons (level : Nat) (item : String) (items : List String) :
    further level (item :: items) = ',' :: (gap level ++ (item.toList ++ further level items)) := by
  simp [further]

/-! ### Lists -/

/-- Every text of the value is read back at this depth, given as many steps as it has characters. -/
def ReadsBack (depth : Nat) (v : Value) : Prop :=
  ∀ (level fuel : Nat) (white rest : List Char), (∀ c ∈ white, isSpace c = true) →
    (v.printAt level).toList.length ≤ fuel + 1 →
    Reads (valueFrom (fuel + 1) depth) (white ++ ((v.printAt level).toList ++ rest)) v rest

section

variable {depth : Nat} {white cs : List Char} {c : Char}

theorem moreItems_end (hwhite : ∀ c ∈ white, isSpace c = true) (isFirst : Bool)
    (rest : List Char) :
    Reads (moreItems isFirst) (white ++ ']' :: rest) false (']' :: rest) :=
  (reads_peekPast (by decide) hwhite rest).bind (reads_pure false _)

theorem moreItems_first (hwhite : ∀ c ∈ white, isSpace c = true) (hspace : isSpace c = false)
    (hclose : c ≠ ']') : Reads (moreItems true) (white ++ c :: cs) true (c :: cs) := by
  refine (reads_peekPast hspace hwhite cs).bind ?_
  split
  case _ h => cases h
  case _ h => exact absurd (Option.some.inj h) hclose
  case _ h => exact reads_pure true _

theorem moreItems_further (hwhite : ∀ c ∈ white, isSpace c = true) (hspace : isSpace c = false)
    (hclose : c ≠ ']') :
    Reads (moreItems false) (',' :: (white ++ c :: cs)) true (c :: cs) := by
  have hcomma := reads_peekPast (c := ',') (by decide) (List.forall_mem_nil _) (white ++ c :: cs)
  refine hcomma.bind ((reads_advance ',' _).bind ((reads_peekPast hspace hwhite cs).bind ?_))
  split
  case _ h => cases h
  case _ h => exact absurd (Option.some.inj h) hclose
  case _ h => exact reads_pure true _

variable {inner : Nat} {items : List Value}

/-- The items after the first one, up to the closing bracket. -/
theorem reads_itemsFrom_further (hlegible : ∀ item ∈ items, item.Legible inner)
    (hitems : ∀ item ∈ items, ReadsBack depth item) (level fuel : Nat)
    (hwhite : ∀ c ∈ white, isSpace c = true) (rest : List Char)
    (hfuel : (further level (items.map (·.printAt level))).length < fuel) :
    Reads (itemsFrom fuel depth false)
      (further level (items.map (·.printAt level)) ++ (white ++ ']' :: rest)) items
      (']' :: rest) := by
  induction items generalizing fuel with
  | nil =>
    obtain ⟨n, rfl⟩ : ∃ n, fuel = n + 1 := ⟨fuel - 1, by omega⟩
    rw [itemsFrom]
    exact (moreItems_end hwhite false rest).bind (reads_pure [] _)
  | cons item items ih =>
    rw [List.map_cons, further_cons] at hfuel ⊢
    simp only [List.length_cons, List.length_append, length_gap] at hfuel
    obtain ⟨n, rfl⟩ : ∃ n, fuel = n + 2 := ⟨fuel - 2, by omega⟩
    obtain ⟨c, cs, hhead, hspace, hclose⟩ := (hlegible item (List.mem_cons_self ..)).head level
    have hitem := hitems item (List.mem_cons_self ..) level n []
      (further level (items.map (·.printAt level)) ++ (white ++ ']' :: rest))
      (List.forall_mem_nil _) (by omega)
    have hmore := ih (fun x hx => hlegible x (List.mem_cons_of_mem _ hx))
      (fun x hx => hitems x (List.mem_cons_of_mem _ hx)) (n + 1) (by omega)
    rw [itemsFrom]
    simp only [hhead, List.append_assoc, List.cons_append, List.nil_append] at hitem ⊢
    exact (moreItems_further isSpace_of_mem_gap hspace hclose).bind
      (hitem.bind (hmore.bind (reads_pure _ _)))

theorem reads_itemsFrom (hlegible : ∀ item ∈ items, item.Legible inner)
    (hitems : ∀ item ∈ items, ReadsBack depth item) (level fuel : Nat) (rest : List Char)
    (hfuel : ((Value.list items).printAt level).toList.length ≤ fuel + 1) :
    ∃ body, ((Value.list items).printAt level).toList ++ rest = '[' :: body ∧
      Reads (itemsFrom fuel depth true) body items (']' :: rest) := by
  cases items with
  | nil =>
    rw [toList_printAt_list_nil] at hfuel ⊢
    simp only [List.length_cons, List.length_nil] at hfuel
    obtain ⟨n, rfl⟩ : ∃ n, fuel = n + 1 := ⟨fuel - 1, by omega⟩
    refine ⟨']' :: rest, rfl, ?_⟩
    rw [itemsFrom]
    exact (moreItems_end (List.forall_mem_nil _) true rest).bind (reads_pure [] _)
  | cons item items =>
    rw [toList_printAt_list] at hfuel ⊢
    simp only [List.length_cons, List.length_append, List.length_nil, length_gap] at hfuel
    obtain ⟨n, rfl⟩ : ∃ n, fuel = n + 2 := ⟨fuel - 2, by omega⟩
    obtain ⟨c, cs, hhead, hspace, hclose⟩ :=
      (hlegible item (List.mem_cons_self ..)).head (level + 1)
    have hmore := reads_itemsFrom_further (fun x hx => hlegible x (List.mem_cons_of_mem _ hx))
      (fun x hx => hitems x (List.mem_cons_of_mem _ hx)) (level + 1) (n + 1)
      (@isSpace_of_mem_gap level) rest (by omega)
    have hitem := hitems item (List.mem_cons_self ..) (level + 1) n []
      (further (level + 1) (items.map (·.printAt (level + 1))) ++ (gap level ++ ']' :: rest))
      (List.forall_mem_nil _) (by omega)
    simp only [List.append_assoc, List.cons_append, List.nil_append, hhead] at hitem ⊢
    refine ⟨_, rfl, ?_⟩
    rw [itemsFrom]
    exact (moreItems_first isSpace_of_mem_gap hspace hclose).bind
      (hitem.bind (hmore.bind (reads_pure _ _)))

theorem readsBack_list (hdepth : 0 < depth) (hlegible : ∀ item ∈ items, item.Legible inner)
    (hitems : ∀ item ∈ items, ReadsBack depth item) : ReadsBack (depth + 1) (.list items) := by
  intro level fuel white rest hwhite hfuel
  obtain ⟨body, hbody, hreads⟩ := reads_itemsFrom hlegible hitems level fuel rest hfuel
  have hdeep : ¬depth + 1 ≤ 1 := by omega
  rw [hbody, valueFrom]
  refine (reads_peekPast (by decide) hwhite body).bind ?_
  simp only [hdeep, if_false, Nat.add_sub_cancel]
  exact (reads_advance '[' body).bind (hreads.bind ((reads_advance ']' rest).bind (reads_pure _ _)))

/-! ### Objects -/

theorem moreMembers_end (hwhite : ∀ c ∈ white, isSpace c = true) (isFirst : Bool)
    (rest : List Char) :
    Reads (moreMembers isFirst) (white ++ '\x7d' :: rest) false ('\x7d' :: rest) :=
  (reads_peekPast (by decide) hwhite rest).bind (reads_pure false _)

theorem moreMembers_first (hwhite : ∀ c ∈ white, isSpace c = true) :
    Reads (moreMembers true) (white ++ '\x22' :: cs) true ('\x22' :: cs) :=
  (reads_peekPast (by decide) hwhite cs).bind (reads_pure true _)

theorem moreMembers_further (hwhite : ∀ c ∈ white, isSpace c = true) :
    Reads (moreMembers false) (',' :: (white ++ '\x22' :: cs)) true ('\x22' :: cs) := by
  have hcomma := reads_peekPast (c := ',') (by decide) (List.forall_mem_nil _)
    (white ++ '\x22' :: cs)
  refine hcomma.bind ((reads_advance ',' _).bind ?_)
  exact (reads_peekPast (by decide) hwhite cs).bind (reads_pure true _)

theorem putMember_new {members : List (String × Value)} {key : String}
    (hnew : key ∉ members.map (·.1)) (v : Value) :
    putMember members key v = members ++ [(key, v)] := by
  have hany : members.any (·.1 == key) = false := by
    rw [List.any_eq_false]
    intro m hm
    have hne : m.1 ≠ key := fun he => hnew (he ▸ List.mem_map_of_mem hm)
    simpa using hne
  simp [putMember, hany]

variable {m : String × Value} {members : List (String × Value)}

/-- A member from its opening quote on, with what is read after it. -/
theorem reads_member {fuel level : Nat} (done : List (String × Value)) {tail rest : List Char}
    (hvalue : ReadsBack depth m.2) (hfuel : (printMember level m).toList.length ≤ fuel + 1)
    (hmore : Reads (membersFrom (fuel + 1) depth (putMember done m.1 m.2)) tail members rest) :
    Reads (do
        let key ← memberKey
        colon
        let value ← valueFrom (fuel + 1) depth
        membersFrom (fuel + 1) depth (putMember done key value))
      ((printMember level m).toList ++ tail) members rest := by
  rw [toList_printMember] at hfuel ⊢
  simp only [List.length_cons, List.length_append] at hfuel
  simp only [List.append_assoc, List.cons_append]
  have hkey : Reads memberKey ('\x22' :: (m.1.toList.flatMap Text.escapeChar ++
      '\x22' :: ':' :: ' ' :: ((m.2.printAt level).toList ++ tail))) m.1
      (':' :: ' ' :: ((m.2.printAt level).toList ++ tail)) :=
    (reads_advance _ _).bind (reads_textBody m.1 _)
  have hcolon : Reads colon (':' :: ' ' :: ((m.2.printAt level).toList ++ tail)) ()
      (' ' :: ((m.2.printAt level).toList ++ tail)) :=
    (reads_peekPast (by decide) (List.forall_mem_nil _) _).bind (reads_advance ':' _)
  have hread := hvalue level fuel [' '] tail (by simp [isSpace]) (by omega)
  exact hkey.bind (hcolon.bind (hread.bind hmore))

/-- The members after those that are done, up to the closing brace. -/
theorem reads_membersFrom_further (hvalues : ∀ m ∈ members, ReadsBack depth m.2)
    {done : List (String × Value)} (hkeys : ((done ++ members).map (·.1)).Nodup)
    (hdone : done.isEmpty = false) (level fuel : Nat) (hwhite : ∀ c ∈ white, isSpace c = true)
    (rest : List Char) (hfuel : (further level (members.map (printMember level))).length < fuel) :
    Reads (membersFrom fuel depth done)
      (further level (members.map (printMember level)) ++ (white ++ '\x7d' :: rest))
      (done ++ members) ('\x7d' :: rest) := by
  induction members generalizing fuel done with
  | nil =>
    obtain ⟨n, rfl⟩ : ∃ n, fuel = n + 1 := ⟨fuel - 1, by omega⟩
    rw [membersFrom, List.append_nil]
    exact (moreMembers_end hwhite _ rest).bind (reads_pure done _)
  | cons m members ih =>
    rw [List.map_cons, further_cons] at hfuel ⊢
    simp only [List.length_cons, List.length_append, length_gap] at hfuel
    obtain ⟨n, rfl⟩ : ∃ n, fuel = n + 2 := ⟨fuel - 2, by omega⟩
    have hnew : m.1 ∉ done.map (·.1) := by
      intro hm
      rw [List.map_append, List.map_cons] at hkeys
      exact List.disjoint_of_nodup_append hkeys hm (List.mem_cons_self ..)
    have hnext : done ++ m :: members = putMember done m.1 m.2 ++ members := by
      rw [putMember_new hnew, List.append_assoc]
      rfl
    rw [hnext] at hkeys ⊢
    have hmore := ih (fun x hx => hvalues x (List.mem_cons_of_mem _ hx)) hkeys
      (by simp [putMember_new hnew]) (n + 1) (by omega)
    have hmember : Reads _ ((printMember level m).toList ++ _) _ _ :=
      reads_member done (hvalues m (List.mem_cons_self ..)) (by omega) hmore
    rw [membersFrom, hdone]
    simp only [toList_printMember, List.append_assoc, List.cons_append] at hmember ⊢
    exact (moreMembers_further isSpace_of_mem_gap).bind hmember

theorem reads_membersFrom (hvalues : ∀ m ∈ members, ReadsBack depth m.2)
    (hkeys : (members.map (·.1)).Nodup) (level fuel : Nat) (rest : List Char)
    (hfuel : ((Value.object members).printAt level).toList.length ≤ fuel + 1) :
    ∃ body, ((Value.object members).printAt level).toList ++ rest = '\x7b' :: body ∧
      Reads (membersFrom fuel depth []) body members ('\x7d' :: rest) := by
  cases members with
  | nil =>
    rw [toList_printAt_object_nil] at hfuel ⊢
    simp only [List.length_cons, List.length_nil] at hfuel
    obtain ⟨n, rfl⟩ : ∃ n, fuel = n + 1 := ⟨fuel - 1, by omega⟩
    refine ⟨'\x7d' :: rest, rfl, ?_⟩
    rw [membersFrom]
    exact (moreMembers_end (List.forall_mem_nil _) true rest).bind (reads_pure [] _)
  | cons m members =>
    rw [toList_printAt_object] at hfuel ⊢
    simp only [List.length_cons, List.length_append, List.length_nil, length_gap] at hfuel
    obtain ⟨n, rfl⟩ : ∃ n, fuel = n + 2 := ⟨fuel - 2, by omega⟩
    have hmore := reads_membersFrom_further (fun x hx => hvalues x (List.mem_cons_of_mem _ hx))
      (show (([m] ++ members).map (·.1)).Nodup from hkeys) rfl (level + 1) (n + 1)
      (@isSpace_of_mem_gap level) rest (by omega)
    have hmember : Reads _ ((printMember (level + 1) m).toList ++ _) _ _ :=
      reads_member [] (hvalues m (List.mem_cons_self ..)) (by omega) hmore
    simp only [toList_printMember, List.append_assoc, List.cons_append, List.nil_append]
      at hmember ⊢
    refine ⟨_, rfl, ?_⟩
    rw [membersFrom]
    exact (moreMembers_first isSpace_of_mem_gap).bind hmember

theorem readsBack_object (hdepth : 0 < depth) (hvalues : ∀ m ∈ members, ReadsBack depth m.2)
    (hkeys : (members.map (·.1)).Nodup) : ReadsBack (depth + 1) (.object members) := by
  intro level fuel white rest hwhite hfuel
  obtain ⟨body, hbody, hreads⟩ := reads_membersFrom hvalues hkeys level fuel rest hfuel
  have hdeep : ¬depth + 1 ≤ 1 := by omega
  rw [hbody, valueFrom]
  refine (reads_peekPast (by decide) hwhite body).bind ?_
  simp only [hdeep, if_false, Nat.add_sub_cancel]
  exact (reads_advance '\x7b' body).bind
    (hreads.bind ((reads_advance '\x7d' rest).bind (reads_pure _ _)))

end

/-! ### Whole texts -/

/-- What is printed is read back, whatever comes after it. -/
theorem Value.Legible.readsBack {inner : Nat} {v : Value} (h : v.Legible inner) {depth : Nat}
    (hdepth : inner < depth) : ReadsBack depth v := by
  induction h generalizing depth with
  | text value =>
    intro level fuel white rest hwhite _
    rw [Value.printAt, toList_quote, valueFrom]
    simp only [List.append_assoc, List.cons_append, List.nil_append]
    refine (reads_peekPast (by decide) hwhite _).bind ((reads_advance '\x22' _).bind ?_)
    exact (reads_textBody value rest).bind (reads_pure _ _)
  | list hitems ih =>
    obtain ⟨depth, rfl⟩ : ∃ n, depth = n + 1 := ⟨depth - 1, by omega⟩
    exact readsBack_list (by omega) hitems fun item hitem => ih item hitem (by omega)
  | object hkeys hvalues ih =>
    obtain ⟨depth, rfl⟩ : ∃ n, depth = n + 1 := ⟨depth - 1, by omega⟩
    exact readsBack_object (by omega) (fun m hm => ih m hm (by omega)) hkeys

/-- The text of a value is parsed to this value, with white space after it or not. -/
theorem parse_print {inner : Nat} {v : Value} (h : v.Legible inner) (hdepth : inner < depthLimit)
    {text : String} {white : List Char} (hwhite : ∀ c ∈ white, isSpace c = true)
    (htext : text.toList = v.print.toList ++ white) : parse text = .ok v := by
  have hread : Reads value text.toList v white := by
    refine (reads_steps _).bind ?_
    have hfuel : (v.printAt 0).toList.length ≤ 2 * text.toList.length + 1 + 1 := by
      rw [htext, List.length_append, Value.print]
      omega
    have := h.readsBack hdepth 0 _ [] white (List.forall_mem_nil _) hfuel
    rw [List.nil_append] at this
    rw [htext] at this ⊢
    exact this
  obtain ⟨p, hp⟩ := hread {}
  have hskip : white.dropWhile isSpace = [] := List.dropWhile_eq_nil_iff.mpr hwhite
  have hskipped := reads_skipSpace white
  rw [hskip] at hskipped
  have hpeek : Reads peekPast white none [] := hskipped.bind (reads_peek [])
  have hend : Reads finish white () [] := hpeek.bind (reads_pure () [])
  obtain ⟨q, hq⟩ := hend p
  simp only [parse, Read.run, hp]
  change (finish _ >>= _) = _
  rw [hq]
  rfl

end Phrasebook.Json
