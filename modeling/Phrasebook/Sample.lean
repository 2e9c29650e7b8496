/-!
Places in files, and the texts that were left in place with the reason why.
-/
namespace Phrasebook

structure Location where
  file : String
  line : Nat
  column : Nat
deriving DecidableEq, Repr

def Location.text (l : Location) : String :=
  l.file ++ ":" ++ toString l.line ++ ":" ++ toString l.column

/-- The form a text has in the source. -/
inductive TextForm where
  | stringLiteral
  | templateLiteral
  | markupText
  | markupAttribute
deriving DecidableEq, Repr

def TextForm.text : TextForm → String
  | .stringLiteral => "StringLiteral"
  | .templateLiteral => "TemplateLiteral"
  | .markupText => "JSXText"
  | .markupAttribute => "JSXAttribute"

/-- Why a text was left in place. -/
inductive Reason where
  /-- An argument of a call that is never extracted. -/
  | skippedCall (callee : String)
  /-- Markup text in a file of pure data. -/
  | dataFile
  /-- An operand of an equality, of `in`, or a case of a switch. -/
  | comparison
  | memberKey
  | enumMember
  | moduleSpecifier
  /-- A local binding hides the lookup function. -/
  | shadowedLookup
  /-- Found once everything else was replaced. -/
  | unextracted
deriving DecidableEq, Repr

def Reason.text : Reason → String
  | .skippedCall callee => "skipFunctionCall:" ++ callee
  | .dataFile => "data-file-skip"
  | .comparison => "comparison"
  | .memberKey => "memberKey"
  | .enumMember => "enumMember"
  | .moduleSpecifier => "moduleSpecifier"
  | .shadowedLookup => "shadowedLookup"
  | .unextracted => "unextracted"

structure Sample where
  text : String
  form : TextForm
  reason : Reason
  location : Location
deriving DecidableEq, Repr

/-- A binding of a module that looks its text up when the module is loaded. -/
structure DeferredBinding where
  name : String
  key : String
  location : Location
deriving DecidableEq, Repr

end Phrasebook
