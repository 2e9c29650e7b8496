import Phrasebook.Script.Node
import Phrasebook.Text.Quoted

/-!
Names of slots, and the lookup call that fills them.
-/
namespace Phrasebook

open Script

/-- The name an expression suggests for its slot: its own, or that of the property it reads;
otherwise one made from its position. -/
def slotName (index : Nat) : Node → String
  | .mk (.ident name) _ _ => name
  | .mk (.member (.name name)) _ _ => name
  | .mk .paren _ [e] => slotName index e
  | _ => "var" ++ toString index

/-- One entry of the map that a lookup call passes along. -/
structure SlotBinding where
  name : String
  /-- Source text of the value. -/
  value : String
  /-- Written as the name alone. -/
  shorthand : Bool
deriving DecidableEq, Repr

/-- Slots named so far, each with the source text it stands for. -/
structure SlotNames where
  bound : List (String × SlotBinding) := []
deriving DecidableEq, Repr

namespace SlotNames

def bindings (s : SlotNames) : List SlotBinding := s.bound.map (·.2)

def names (s : SlotNames) : List String := s.bindings.map (·.name)

/-- The base name, or the base name with the least number from two on that is not taken. -/
def freeName (taken : List String) (base : String) : String :=
  if taken.contains base then
    (((List.range taken.length).map fun i => base ++ toString (i + 2)).find?
      (!taken.contains ·)).getD base
  else base

/-- Names a slot. Slots with the same source share one name. -/
def bind (s : SlotNames) (base source value : String) (shorthand : Bool) : String × SlotNames :=
  match s.bound.find? (·.1 == source) with
  | some (_, b) => (b.name, s)
  | none =>
    let name := freeName s.names base
    (name, ⟨s.bound ++ [(source, ⟨name, value, shorthand && name == base⟩)]⟩)

end SlotNames

def SlotBinding.entry (b : SlotBinding) : String :=
  if b.shorthand then b.name else b.name ++ ": " ++ b.value

/-- The call that looks a key up: `t("key")` or `t("key", { name, count: list.length })`. -/
def renderLookup (function key : String) (slots : List SlotBinding) : String :=
  let call := function ++ "(" ++ Text.quote key
  if slots.isEmpty then call ++ ")"
  else call ++ ", \x7b " ++ ", ".intercalate (slots.map SlotBinding.entry) ++ " \x7d)"

end Phrasebook
