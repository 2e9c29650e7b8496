import Phrasebook.Script.Node

/-!
Local bindings, which may hide the lookup function.
-/
namespace Phrasebook

open Script

mutual

/-- Whether a node binds `name` in its own scope. Nested functions and classes are not entered,
nor is the type of a name. -/
def binds (name : String) : Node → Bool
  | .mk kind _ children =>
    match kind with
    | .binding n | .functionDecl n | .classDecl n => n == name
    | .function | .functionExpr _ | .arrow | .classBody | .classConstructor | .getter | .setter =>
      false
    | _ => bindsAny name children

def bindsAny (name : String) : List Node → Bool
  | [] => false
  | n :: ns => binds name n || bindsAny name ns

end

/-- The children of a function in which a binding belongs to the function's own scope: its
parameters and its body. -/
def isScopePart (owner : Kind) (child : Node) : Bool :=
  match owner, child.kind with
  | .arrow, .typeParams | .arrow, .ascription => false
  | .arrow, _ => true
  | _, .param | _, .block => true
  | _, _ => false

/-- A function that binds `name` by a parameter or anywhere in its body. -/
def functionBinds (name : String) (owner : Kind) (children : List Node) : Bool :=
  bindsAny name (children.filter (isScopePart owner))

/-- Statements at module level that are no declarations may bind a name for their own body. -/
def itemBinds (name : String) (item : Node) : Bool :=
  !item.kind.isDeclaration && !item.kind.isModuleDecl && binds name item

mutual

/-- Names that a pattern binds; default values and computed keys are not entered. -/
def patternNames : Node → List String
  | .mk kind _ children =>
    match kind with
    | .binding n => [n]
    | _ => if kind.isExpr then [] else patternsNames children

def patternsNames : List Node → List String
  | [] => []
  | n :: ns => patternNames n ++ patternsNames ns

end

end Phrasebook
