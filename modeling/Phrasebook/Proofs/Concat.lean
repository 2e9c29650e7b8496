import Phrasebook.Proofs.Printing
import Phrasebook.Proofs.Residual
import Phrasebook.Script.Token

/-!
What a chain of `+` evaluates to. Texts are sequences of 16-bit units, in which half of a surrogate
pair may stand alone; a message can only hold characters.

Main result: the message made from a chain, with the values of its slots put in, is the value of
the chain.
-/
namespace Phrasebook

open Script Decimal

/-! ### Texts -/

/-- The 16-bit units of a code point, which may be half of a surrogate pair. -/
def unitsOfPoint (n : Nat) : List UInt16 :=
  if n < 0x10000 then [.ofNat n]
  else [.ofNat (0xd800 + (n - 0x10000) / 0x400), .ofNat (0xdc00 + (n - 0x10000) % 0x400)]

def unitsOf (text : String) : List UInt16 := text.toList.flatMap fun c => unitsOfPoint c.toNat

/-- The code points that the source text of a piece stands for. -/
def pointsOfRaw : Nat → List Char → List Nat
  | 0, _ | _, [] => []
  | fuel + 1, '\\' :: rest =>
    match readEscape false ⟨rest, 0⟩ with
    | some (points, next) => points ++ pointsOfRaw fuel next.rest
    | none => pointsOfRaw fuel rest
  | fuel + 1, '\r' :: '\n' :: rest => 0x0a :: pointsOfRaw fuel rest
  | fuel + 1, '\r' :: rest => 0x0a :: pointsOfRaw fuel rest
  | fuel + 1, c :: rest => c.toNat :: pointsOfRaw fuel rest

def pieceUnits (p : Piece) : List UInt16 :=
  match p.cooked with
  | some text => unitsOf text
  | none => (pointsOfRaw p.raw.length p.raw.toList).flatMap unitsOfPoint

/-! ### Values -/

inductive Datum where
  | text (units : List UInt16)
  | int (n : Int)
deriving DecidableEq

namespace Datum

/-- The value as a text. -/
def units : Datum → List UInt16
  | .text u => u
  | .int n => unitsOf (toString n)

/-- Joins texts if either side is one. -/
def plus : Datum → Datum → Datum
  | .int a, .int b => .int (a + b)
  | x, y => .text (x.units ++ y.units)

@[simp] theorem text_plus (u : List UInt16) (y : Datum) :
    (text u).plus y = .text (u ++ y.units) := rfl

@[simp] theorem plus_text (x : Datum) (u : List UInt16) :
    x.plus (.text u) = .text (x.units ++ u) := by
  cases x <;> rfl

/-- Once there is a text, everything after it is joined. -/
theorem foldl_plus_text (vs : List Datum) (u : List UInt16) :
    vs.foldl plus (.text u) = .text (u ++ vs.flatMap units) := by
  induction vs generalizing u with
  | nil => simp
  | cons v vs ih => simp [ih]

end Datum

/-- Values for the expressions of a chain that are not spelled out in it. -/
structure Assignment where
  value : Node → Datum
  /-- The number that a literal is printed as. -/
  number : Written → Nat

namespace Assignment
variable (a : Assignment)

def template : List Piece → List Node → List UInt16
  | [], _ => []
  | p :: ps, e :: es => pieceUnits p ++ (a.value e).units ++ template ps es
  | p :: ps, [] => pieceUnits p ++ template ps []

def eval : Node → Datum
  | .mk (.binary .add) _ [left, right] => (eval left).plus (eval right)
  | .mk (.string (some text)) _ _ => .text (unitsOf text)
  | .mk (.number w) _ _ => .int (a.number w)
  | .mk (.template pieces) _ es => .text (a.template pieces es)
  | n => a.value n

/-- The message with the values of its slots in their places. -/
def spell (parts : List Part) : List UInt16 :=
  parts.flatMap fun
    | .text s => unitsOf s
    | .slot e => (a.value e).units

/-- The literals of an operand have values: a number is printed as a whole number, and every piece
of a template is a text. -/
structure Reads (o : Node) : Prop where
  number : ∀ w, o.kind = .number w → w.toDouble.Prints (a.number w)
  template : ∀ pieces, o.kind = .template pieces → ∀ p ∈ pieces, p.cooked.isSome = true

end Assignment

def isSum : Node → Bool
  | .mk (.binary .add) _ [_, _] => true
  | _ => false

/-- No right side of a `+` is a `+` itself. -/
def isLeftNested : Node → Bool
  | .mk (.binary .add) _ [left, right] => isLeftNested left && !isSum right
  | _ => true

/-! ### Joining -/

@[simp] theorem unitsOf_empty : unitsOf "" = [] := rfl

@[simp] theorem unitsOf_append (s t : String) : unitsOf (s ++ t) = unitsOf s ++ unitsOf t := by
  simp [unitsOf]

namespace Assignment
variable {a : Assignment} {parts : List Part}

@[simp] theorem spell_nil : a.spell [] = [] := rfl

@[simp] theorem spell_append (ps qs : List Part) : a.spell (ps ++ qs) = a.spell ps ++ a.spell qs :=
  List.flatMap_append

@[simp] theorem spell_text (s : String) : a.spell [.text s] = unitsOf s := by
  simp [spell]

@[simp] theorem spell_slot (e : Node) : a.spell [.slot e] = (a.value e).units := by
  simp [spell]

@[simp] theorem spell_pushText (s : String) :
    a.spell (Message.pushText parts s) = a.spell parts ++ unitsOf s := by
  unfold Message.pushText
  split
  · next last hlast =>
    have hparts := List.dropLast_append_getLast? _ hlast
    rw [← hparts]
    simp
  · by_cases hempty : s = ""
    · simp [hempty]
    · simp [hempty]

@[simp] theorem spell_pushPart (part : Part) :
    a.spell (Message.pushPart parts part) = a.spell parts ++ a.spell [part] := by
  cases part with
  | text s => simp [Message.pushPart]
  | slot e => simp [Message.pushPart]

theorem spell_foldl_pushPart (ps : List Part) :
    a.spell (ps.foldl Message.pushPart parts) = a.spell parts ++ a.spell ps := by
  induction ps generalizing parts with
  | nil => simp
  | cons p ps ih =>
    rw [List.foldl_cons, ih, spell_pushPart, List.append_assoc, ← spell_append]
    rfl

theorem spell_weave {pieces : List Piece} (es : List Node)
    (hcooked : ∀ p ∈ pieces, p.cooked.isSome = true) :
    a.spell (Message.weave pieces es) = a.template pieces es := by
  induction pieces generalizing es with
  | nil => rfl
  | cons p ps ih =>
    obtain ⟨text, htext⟩ := Option.isSome_iff_exists.mp (hcooked p (.head _))
    have hpiece : a.spell (if p.text == "" then [] else [.text p.text]) = pieceUnits p := by
      simp only [Piece.text, pieceUnits, htext, Option.getD_some]
      by_cases hempty : text = "" <;> simp [hempty]
    have hrest := fun es => ih es fun q hq => hcooked q (.tail _ hq)
    cases es with
    | nil => simp only [Message.weave, template, spell_append, hpiece, hrest]
    | cons e es =>
      have hslot : a.spell (.slot e :: Message.weave ps es) =
          (a.value e).units ++ a.template ps es := by
        rw [← hrest, ← spell_slot, ← spell_append]
        rfl
      simp only [Message.weave, template, spell_append, hpiece, hslot, List.append_assoc]

/-- An operand adds its own value as a text. -/
theorem spell_pushOperand {o : Node} {parts' : List Part} (hsum : isSum o = false)
    (hreads : a.Reads o) (h : Message.pushOperand parts o = some parts') :
    a.spell parts' = a.spell parts ++ (a.eval o).units := by
  unfold Message.pushOperand at h
  split at h
  · next value _ _ =>
    cases value with
    | none => cases h
    | some s =>
      cases h
      simp [eval, Datum.units]
  · next w _ _ =>
    cases h
    have htext : w.text = toString (a.number w : Int) :=
      Written.text_of_prints (hreads.number w rfl)
    simp [eval, Datum.units, htext]
  · next pieces _ es =>
    cases h
    rw [spell_foldl_pushPart, spell_weave es (hreads.template pieces rfl)]
    rfl
  · next hstring hnumber htemplate =>
    cases h
    have hvalue : a.eval o = a.value o := by
      unfold eval
      split
      · exact Bool.noConfusion hsum
      · exact absurd rfl (hstring _ _ _)
      · exact absurd rfl (hnumber _ _ _)
      · exact absurd rfl (htemplate _ _ _)
      · rfl
    rw [spell_append, spell_slot, hvalue]

/-- Operands add their values one after the other. -/
theorem spell_foldlM_pushOperand {os : List Node} {parts' : List Part}
    (hsum : ∀ o ∈ os, isSum o = false) (hreads : ∀ o ∈ os, a.Reads o)
    (h : os.foldlM Message.pushOperand parts = some parts') :
    a.spell parts' = a.spell parts ++ os.flatMap fun o => (a.eval o).units := by
  induction os generalizing parts with
  | nil =>
    cases h
    simp
  | cons o os ih =>
    obtain ⟨next, hnext, hrest⟩ := Option.bind_eq_some_iff.mp h
    have hstep := spell_pushOperand (hsum o (.head _)) (hreads o (.head _)) hnext
    have htail := ih (fun x hx => hsum x (.tail _ hx)) (fun x hx => hreads x (.tail _ hx)) hrest
    rw [htail, hstep, List.flatMap_cons, List.append_assoc]

end Assignment

/-! ### Chains -/

theorem isSum_eq_false {n : Node}
    (h : ∀ span left right, n = .mk (.binary .add) span [left, right] → False) :
    isSum n = false := by
  unfold isSum
  split
  · exact (h _ _ _ rfl).elim
  · rfl

theorem operands_eq_singleton {n : Node} (h : isSum n = false) : Message.operands n = [n] := by
  unfold Message.operands
  split
  · exact Bool.noConfusion h
  · rfl

theorem isSum_of_mem_operands {n o : Node} (ho : o ∈ Message.operands n) : isSum o = false := by
  fun_induction Message.operands n with
  | case1 span left right ihl ihr =>
    rcases List.mem_append.mp ho with h | h
    · exact ihl h
    · exact ihr h
  | case2 n hn =>
    rw [List.mem_singleton.mp ho]
    exact isSum_eq_false hn

/-- A left-nested chain adds its operands to the first one, from left to right. -/
theorem Assignment.eval_eq_foldl (a : Assignment) {chain : Node} (h : isLeftNested chain = true) :
    ∃ o os, Message.operands chain = o :: os ∧
      a.eval chain = (os.map a.eval).foldl Datum.plus (a.eval o) := by
  fun_induction isLeftNested chain with
  | case1 span left right ih =>
    obtain ⟨hleft, hright⟩ := Bool.and_eq_true_iff.mp h
    obtain ⟨o, os, hos, heval⟩ := ih hleft
    refine ⟨o, os ++ [right], ?_, ?_⟩
    · rw [Message.operands, hos, operands_eq_singleton ((Bool.not_eq_true' _).mp hright)]
      rfl
    · rw [eval, heval, List.map_append, List.foldl_append]
      rfl
  | case2 n hn => exact ⟨n, [], operands_eq_singleton (isSum_eq_false hn), rfl⟩

/-- A string or template that can be part of a message evaluates to a text. -/
theorem Assignment.eval_isStringOperand (a : Assignment) {o : Node} {parts parts' : List Part}
    (ho : Message.isStringOperand o = true) (h : Message.pushOperand parts o = some parts') :
    ∃ u, a.eval o = .text u := by
  obtain ⟨kind, span, children⟩ := o
  unfold Message.isStringOperand at ho
  split at ho
  · next value hkind =>
    cases hkind
    cases value with
    | none => cases h
    | some s => exact ⟨_, rfl⟩
  · next pieces hkind =>
    cases hkind
    exact ⟨_, rfl⟩
  · cases ho

/-- With a text among the first two operands all of them are joined. -/
theorem Assignment.foldl_plus_operands (a : Assignment) {o : Node} {os : List Node} {i : Nat}
    {parts : List Part} (hfirst : (o :: os).findIdx? Message.isStringOperand = some i) (hi : i < 2)
    (h : (o :: os).foldlM Message.pushOperand [] = some parts) :
    (os.map a.eval).foldl Datum.plus (a.eval o) =
      .text ((o :: os).flatMap fun o => (a.eval o).units) := by
  obtain ⟨next, hnext, hrest⟩ := Option.bind_eq_some_iff.mp h
  rw [List.findIdx?_cons] at hfirst
  -- The text is the first operand or the second; before it nothing is added.
  split at hfirst
  · next ho =>
    obtain ⟨u, hu⟩ := a.eval_isStringOperand ho hnext
    rw [hu, Datum.foldl_plus_text, List.flatMap_cons, List.flatMap_map, hu]
    rfl
  · cases os with
    | nil => cases hfirst
    | cons o' os =>
      obtain ⟨_, hnext', _⟩ := Option.bind_eq_some_iff.mp hrest
      have ho' : Message.isStringOperand o' = true := by
        rw [List.findIdx?_cons] at hfirst
        split at hfirst
        · assumption
        · obtain ⟨j, hj, hij⟩ := Option.map_eq_some_iff.mp hfirst
          obtain ⟨k, hk, hjk⟩ := Option.map_eq_some_iff.mp hj
          omega
      obtain ⟨u, hu⟩ := a.eval_isStringOperand ho' hnext'
      rw [List.map_cons, List.foldl_cons, hu, Datum.plus_text, Datum.foldl_plus_text,
        List.flatMap_cons, List.flatMap_cons, List.flatMap_map, hu, List.append_assoc]
      rfl

/-- The message of a chain of `+` is worth what the chain is, for all values of its slots. -/
theorem concat_keeps_value (a : Assignment) {chain : Node} {parts : List Part}
    (hnested : isLeftNested chain = true) (hreads : ∀ o ∈ Message.operands chain, a.Reads o)
    (h : Message.ofConcat chain = some parts) : a.eval chain = .text (a.spell parts) := by
  obtain ⟨o, os, hos, heval⟩ := a.eval_eq_foldl hnested
  unfold Message.ofConcat at h
  obtain ⟨i, hfirst, h⟩ := Option.bind_eq_some_iff.mp h
  obtain ⟨_, hguard, h⟩ := Option.bind_eq_some_iff.mp h
  have hi : i < 2 := by
    by_contra hge
    simp [guard, hge] at hguard
  rw [hos] at hfirst h
  have hspell := Assignment.spell_foldlM_pushOperand (a := a)
    (fun o ho => isSum_of_mem_operands (hos ▸ ho)) (fun o ho => hreads o (hos ▸ ho)) h
  rw [heval, a.foldl_plus_operands hfirst hi h, hspell]
  rfl

/-- A slot before the first text, a number with an exponent and a template with a slot. -/
theorem concat_keeps_value_mixed :
    let slot (name : String) : Node := .mk (.ident name) ⟨0, 0⟩ []
    let sum (left right : Node) : Node := .mk (.binary .add) ⟨0, 0⟩ [left, right]
    let chain := sum (sum (sum (slot "n") (.mk (.string (some "/")) ⟨0, 0⟩ []))
      (.mk (.number ⟨12, 2⟩) ⟨0, 0⟩ []))
      (.mk (.template [⟨some " of ", " of "⟩, ⟨some "", ""⟩]) ⟨0, 0⟩ [slot "m"])
    let a : Assignment :=
      { value := fun n => if n.kind = .ident "n" then .int (-7) else .text [0xd83d, 0xde00]
        number := fun w => w.digits * 10 ^ w.scale.toNat }
    isLeftNested chain = true ∧ (∀ o ∈ Message.operands chain, a.Reads o) ∧
      ∃ parts, Message.ofConcat chain = some parts ∧ a.eval chain = .text (a.spell parts) ∧
        a.spell parts = unitsOf "-7/1200 of 😀" := by
  intro slot sum chain a
  have hnumber : (Written.toDouble ⟨12, 2⟩).Prints 1200 :=
    (show Double.ofNat 1200 = Written.toDouble ⟨12, 2⟩ by decide) ▸ Double.prints_of_lt (by decide)
  have hreads : ∀ o ∈ Message.operands chain, a.Reads o := by
    intro o ho
    rcases List.mem_cons.mp ho with rfl | ho
    · exact ⟨fun _ h => Kind.noConfusion h, fun _ h => Kind.noConfusion h⟩
    rcases List.mem_cons.mp ho with rfl | ho
    · exact ⟨fun _ h => Kind.noConfusion h, fun _ h => Kind.noConfusion h⟩
    rcases List.mem_cons.mp ho with rfl | ho
    · refine ⟨fun w h => ?_, fun _ h => Kind.noConfusion h⟩
      cases h
      exact hnumber
    · rw [List.mem_singleton.mp ho]
      refine ⟨fun _ h => Kind.noConfusion h, fun pieces h => ?_⟩
      cases h
      decide
  exact ⟨rfl, hreads, _, rfl, concat_keeps_value a rfl hreads rfl, by decide +kernel⟩

/-- Half of a surrogate pair in a template is joined to a chain as it is, but to the message as it
is written. -/
theorem concat_spells_half_pair :
    ¬∀ (a : Assignment) (chain : Node) (parts : List Part), isLeftNested chain = true →
      (∀ o ∈ Message.operands chain, ∀ w, o.kind = .number w →
        w.toDouble.Prints (a.number w)) →
      Message.ofConcat chain = some parts → a.eval chain = .text (a.spell parts) := by
  intro hall
  have h := hall ⟨fun _ => .int 0, fun _ => 0⟩
    (.mk (.binary .add) ⟨0, 0⟩ [.mk (.string (some "文")) ⟨0, 0⟩ [],
      .mk (.template [⟨none, "\\ud800"⟩]) ⟨0, 0⟩ []]) _ rfl ?_ rfl
  · revert h
    decide +kernel
  · intro o ho w hw
    rcases List.mem_cons.mp ho with rfl | ho
    · cases hw
    · rw [List.mem_singleton.mp ho] at hw
      cases hw

end Phrasebook
