import Phrasebook.Script.Grammar.Item

/-!
Reading a whole module.
-/
namespace Phrasebook.Script

/-- One level of the grammar, with `rec` for what is nested. -/
def Grammar.produce (rec : Rec) : Goal → Parse Node
  | .expression => Grammar.expression rec
  | .assignment => Grammar.assignment rec
  | .operation => Grammar.operation rec
  | .unary => Grammar.unary rec
  | .leftHandSide => Grammar.leftHandSide rec
  | .member => Grammar.member rec
  | .object => Grammar.objectLiteral rec
  | .decorator => Grammar.decorator rec
  | .type => Grammar.type rec
  | .plainType => Grammar.plainType rec
  | .pattern => Grammar.pattern rec
  | .statement => Grammar.statement rec true
  | .governed => Grammar.statement rec false
  | .item => Grammar.item rec
  | .element => Grammar.element rec

/-- The grammar up to a given depth of nesting. -/
def Grammar.produceWithin : Nat → Goal → Parse Node
  | 0, _ => Parse.fail
  | fuel + 1, goal => Grammar.produce (Grammar.produceWithin fuel) goal

/-- The text without a byte-order mark at its start. -/
def withoutMark : List Char → List Char
  | c :: rest => if c.toNat = 0xfeff then rest else c :: rest
  | [] => []

/-- Skips a line that names an interpreter. -/
def skipHashbang (text : List Char) : Input :=
  match text with
  | '#' :: '!' :: _ => skipLineComment text 0
  | _ => ⟨text, 0⟩

/-- The cursor on the first token of a text that starts with one. -/
def Cursor.opening (markup : Bool) (text : List Char) : Cursor :=
  let (token, stop) := readToken (text.length + 2) ⟨text, 0⟩
  { token, start := ⟨text, 0⟩, stop, newline := false, last := 0, fuel := text.length + 2,
    arrowStart := none, context := Context.outermost markup }

/-- The item at the start of a text, and the cursor behind it. Every level of nesting takes a
character, and few goals are passed through in between, so the depth is bounded by the length. -/
def readItem (markup : Bool) (text : List Char) : EStateM.Result SyntaxFault Cursor Node :=
  Grammar.produceWithin (16 * text.length + 64) .item (Cursor.opening markup text)

/-- The next item, read as if nothing stood before it, the offset where it ends and the text behind
it. At the end of the text there is none. -/
def nextItem (markup : Bool) (i : Input) : Except SyntaxFault (Option (Node × Nat × Input)) :=
  match skipTrivia (i.rest.length + 1) i false with
  | none => .error ⟨i.pos⟩
  | some (first, _) =>
    if first.rest.isEmpty then .ok none
    else
      match readItem markup first.rest with
      | .error fault _ => .error ⟨first.pos + fault.pos⟩
      | .ok item behind =>
        .ok (some (item.shift first.pos, first.pos + behind.last,
          ⟨behind.start.rest, first.pos + behind.start.pos⟩))

/-- The items of a text and where the last one ends. -/
def readItems (markup : Bool) : Nat → Input → Nat → Except SyntaxFault (List Node × Nat)
  | 0, i, _ => .error ⟨i.pos⟩
  | fuel + 1, i, last => do
    match ← nextItem markup i with
    | none => return ([], last)
    | some (item, last, behind) =>
      let (items, last) ← readItems markup fuel behind last
      return (item :: items, last)

/-- The tree of a module given without byte-order mark. -/
def parseModule (markup : Bool) (text : List Char) : Except SyntaxFault Node := do
  let start := skipHashbang text
  let (items, last) ← readItems markup (text.length + 1) start start.pos
  return .mk .module ⟨0, last⟩ items

end Phrasebook.Script
