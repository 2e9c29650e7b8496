import Phrasebook.Message
import Phrasebook.Site

/-!
The outline of a module: which texts are extracted, in which order and inside which scopes. It is
decided from the tree alone, so that every walk along it makes the same decisions.
-/
namespace Phrasebook

open Script (Span)

/-- A text that is left in place. -/
structure Note where
  text : String
  form : TextForm
  reason : Reason
  pos : Nat
deriving DecidableEq, Repr

/-- What holds inside a node and not around it. -/
structure Scope where
  /-- The code runs later than the module is loaded. -/
  isRuntime : Bool := false
  /-- The lookup function is hidden. -/
  shadows : Bool := false
  component : Option String := none
  className : Option String := none
deriving DecidableEq, Repr

namespace Outline

mutual

/-- An expression, which may get a replacement. -/
inductive Value where
  | notes (notes : List Note)
  /-- A subtree past the depth limit. -/
  | abort (pos : Nat)
  /-- A text that a lookup replaces. Each of its slots is a value of its own. -/
  | message (kind : SiteKind) (span : Span) (parts : List Part) (slots : List Value)
  /-- An expression rebuilt from the edits inside it. -/
  | rebuild (span : Span) (body : List Step)
  | scope (scope : Scope) (body : Value)

/-- A stretch of the module, which may add edits to what is being rebuilt around it. -/
inductive Step where
  | notes (notes : List Note)
  /-- The place of an expression. -/
  | replace (span : Span) (value : Value)
  /-- Markup that a lookup in braces replaces, with white space around it. -/
  | braced (kind : SiteKind) (span : Span) (leading trailing : String) (parts : List Part)
      (slots : List Value)
  /-- A `key: value` of an object literal, which becomes a getter while the module is loaded. -/
  | property (key value : Span) (isArray : Bool) (inner : Value)
  | scope (scope : Scope) (body : List Step)
  /-- A binding of the module, reported when its text is looked up while the module is loaded. -/
  | binding (name : String) (pos : Nat) (body : List Step)
  /-- A static field, a binding named after its class. -/
  | staticField (key : String) (pos : Nat) (body : List Step)

end

/-- Nothing to replace. -/
def Value.nothing : Value := .notes []

end Outline

/-- The steps of a module in order. -/
abbrev Outline := List Outline.Step

end Phrasebook
