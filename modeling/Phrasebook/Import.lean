import Phrasebook.Binding
import Phrasebook.Edit
import Phrasebook.Options
import Phrasebook.Script.Source
import Phrasebook.Text.Quoted
import Phrasebook.Text.Target

/-!
The import of the lookup function in a module that calls it.
-/
namespace Phrasebook

open Script

/-- An import of values from a module. -/
structure ImportItem where
  span : Span
  names : List ImportName
deriving DecidableEq, Repr

def importFrom? (source : String) (item : Node) : Option ImportItem :=
  match item.kind with
  | .importDecl false from? names => if from? == some source then some ⟨item.span, names⟩ else none
  | _ => none

/-- The local name of a default import. -/
def ImportItem.defaultName? (i : ImportItem) : Option String :=
  (i.names.find? (·.form == .default)).map (·.name)

/-- A string on its own, such as `"use client"`. With target text it is text like any other. -/
def isDirective (item : Node) : Bool :=
  match item with
  | .mk .expressionStatement _ [.mk (.string (some value)) _ _] => !Text.hasTarget value
  | _ => false

/-- Names that a declaration brings into the module. -/
def declaredNames (declaration : Node) : List String :=
  match declaration.kind with
  | .variables _ =>
    declaration.children.flatMap fun d => (d.children.head?.map patternNames).getD []
  | .functionDecl name | .classDecl name => [name]
  | _ => []

/-- Names that an item of the module binds. -/
def itemNames (item : Node) : List String :=
  match item.kind with
  | .importDecl _ _ names => names.map (·.name)
  | .exportDecl => item.children.flatMap declaredNames
  | _ => declaredNames item

/-- The statement that imports the lookup function. -/
def importStatement (o : Options) : String :=
  "import " ++ o.lookupFunction ++ " from " ++ Text.quote o.importSource ++ ";"

/-- A new import, after the directives or before the first item. -/
def newImport (items : List Node) (o : Options) : Edit :=
  match (items.takeWhile isDirective).getLast?, items.head? with
  | some directive, _ => .insertAt directive.span.hi ("\n" ++ importStatement o)
  | none, some first => .insertAt first.span.lo (importStatement o ++ "\n")
  | none, none => .insertAt 0 (importStatement o ++ "\n")

/-- Adds the lookup function to an import that is already there. -/
def extendImport (i : ImportItem) (name : String) : Edit :=
  let added := if i.names.isEmpty then " " ++ name ++ " from" else " " ++ name ++ ","
  .insertAt (i.span.lo + "import".length) added

/-- Edits that bind the lookup function in the module, none when it is bound already. -/
def importEdits (items : List Node) (o : Options) : List Edit :=
  let imports := items.filterMap (importFrom? o.importSource)
  let default? := imports.findSome? fun i => i.defaultName?.map (i, ·)
  if (items.flatMap itemNames).contains o.lookupFunction then []
  else
    match default?, imports.head? with
    | some (i, bound), _ =>
      [.insertAt i.span.hi ("\nconst " ++ o.lookupFunction ++ " = " ++ bound ++ ";")]
    | none, some i => [extendImport i o.lookupFunction]
    | none, none => [newImport items o]

def Script.Source.items (s : Source) : List Node := s.tree.children

end Phrasebook
