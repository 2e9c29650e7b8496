import Phrasebook.Binding
import Phrasebook.Markup.Clean
import Phrasebook.Message
import Phrasebook.Options
import Phrasebook.Script.Source

/-!
Target text that is found in a tree: all of it, or what is left outside lookup calls and outside
the places that keep theirs on purpose.
-/
namespace Phrasebook

open Script

/-- A target text and where it starts. -/
structure Found where
  text : String
  form : TextForm
  pos : Nat
deriving DecidableEq, Repr

def foundIf (text : String) (form : TextForm) (pos : Nat) : List Found :=
  if Text.hasTarget text then [⟨text, form, pos⟩] else []

/-- Static text of a template, joined. -/
def staticText (pieces : List Piece) : String := String.join (pieces.map Piece.text)

def foundInText (value : String) (pos : Nat) : List Found :=
  let text := Markup.clean value
  if Text.hasTarget text then [⟨Text.trim text, .markupText, pos⟩] else []

/-- The text of a leaf. -/
def foundLeaf (kind : Kind) (pos : Nat) : List Found :=
  match kind with
  | .string (some value) => foundIf value .stringLiteral pos
  | .template pieces => foundIf (staticText pieces) .templateLiteral pos
  | .text value => foundInText value pos
  | .attrText value => foundIf value .markupAttribute pos
  | _ => []

mutual

/-- Every target text under a node, wherever it stands. -/
def foundTexts : Node → List Found
  | .mk kind span children => foundLeaf kind span.lo ++ foundInAll children

def foundInAll : List Node → List Found
  | [] => []
  | n :: ns => foundTexts n ++ foundInAll ns

end

/-- Elements whose content is never touched. -/
def isRawText (tag : String) : Bool := tag == "style" || tag == "script"

def isRawOpening (opening : Node) : Bool :=
  match opening.kind with
  | .opening tag => isRawText tag
  | _ => false

/-- Calls whose arguments are left alone. -/
def Options.keepsArguments (o : Options) (callee : Node) : Bool :=
  isModuleLoad callee ||
    (calleeName callee).any fun name => o.isLookupCall name || o.isSkippedCall name

def Options.keepsConstruction (o : Options) (callee : Node) : Bool :=
  (calleeName callee).any o.isSkippedCall

mutual

/-- Target text that should have been extracted. -/
def residual (o : Options) (isData : Bool) : Node → List Found
  | .mk kind span children =>
    match kind, children with
    | .module, items => residualItems o isData items
    | .namespaceDecl _, items => residualItems o isData items
    | .function, cs | .arrow, cs | .classConstructor, cs | .getter, cs | .setter, cs =>
      if functionBinds o.lookupFunction kind cs then [] else residualAll o isData cs
    | .call, callee :: args =>
      if o.keepsArguments callee then [] else residual o isData callee ++ residualAll o isData args
    | .construct, callee :: args =>
      if o.keepsConstruction callee then []
      else residual o isData callee ++ residualAll o isData args
    | .binary .compare, operands => residualUnkept o isData operands
    | .member .computed, [object, key] =>
      residual o isData object ++ residualUnkept o isData [key]
    | .computedKey, key => residualUnkept o isData key
    | .switchCase true, test :: body =>
      (if (literalTarget test).isSome then [] else residual o isData test) ++
        residualAll o isData body
    | .enumDecl _, _ => []
    | .tagged, parts => residualExprs o isData parts
    | .element, opening :: kids =>
      residual o isData opening ++ (if isRawOpening opening then [] else residualAll o isData kids)
    | .text value, _ => if isData then [] else foundInText value span.lo
    | kind, cs => foundLeaf kind span.lo ++ residualAll o isData cs

def residualAll (o : Options) (isData : Bool) : List Node → List Found
  | [] => []
  | n :: ns => residual o isData n ++ residualAll o isData ns

/-- Nodes of which bare literals are kept on purpose. -/
def residualUnkept (o : Options) (isData : Bool) : List Node → List Found
  | [] => []
  | n :: ns =>
    (if (literalTarget n).isSome then [] else residual o isData n) ++ residualUnkept o isData ns

/-- Items of a module; one that hides the lookup function is left alone as a whole. -/
def residualItems (o : Options) (isData : Bool) : List Node → List Found
  | [] => []
  | n :: ns =>
    (if itemBinds o.lookupFunction n then [] else residual o isData n) ++
      residualItems o isData ns

/-- The expressions among nodes, without types. -/
def residualExprs (o : Options) (isData : Bool) : List Node → List Found
  | [] => []
  | n :: ns =>
    (if n.kind.isExpr then residual o isData n else []) ++ residualExprs o isData ns

end

/-- Samples of what was missed in a module. -/
def residualScan (source : Source) (path : String) (isData : Bool) (o : Options) : List Sample :=
  (residual o isData source.tree).map fun found =>
    let (line, column) := source.position found.pos
    ⟨found.text, found.form, .unextracted, ⟨path, line, column⟩⟩

end Phrasebook
