import Phrasebook.Markup.Clean
import Phrasebook.Message
import Phrasebook.Script.Source

/-!
Which children of an element make one message. A sentence that is split over text and expression
containers, such as `欢迎回来，{name}！`, is fused before anything is extracted.
-/
namespace Phrasebook.Markup

open Script

inductive RunPart where
  /-- Cleaned static text. -/
  | text (text : String)
  /-- Position of a container among the children. -/
  | expr (index : Nat)
deriving DecidableEq, Repr

/-- Children from `start` to before `stop` that make one message. -/
structure Run where
  start : Nat
  stop : Nat
  /-- White space in the source before and after the visible text. -/
  leading : String
  trailing : String
  parts : List RunPart
deriving DecidableEq, Repr

/-- Runs by the span of the element that owns the children. -/
abbrev Plan := List (Span × List Run)

def Plan.runsFor (plan : Plan) (owner : Span) : List Run := (plan.lookup owner).getD []

def Plan.size (plan : Plan) : Nat := (plan.flatMap (·.2)).length

/-- Text, or a container that holds an expression. Comments, elements and spreads end a run. -/
def isRunMember (child : Node) : Bool :=
  match child.kind with
  | .text _ => true
  | .container => !child.children.isEmpty
  | _ => false

/-- What a member adds to a run. -/
inductive Piece where
  | static (text : String)
  | dynamic
deriving DecidableEq, Repr

/-- A string in a container is text like any other. -/
def pieceOf (child : Node) : Piece :=
  match child with
  | .mk (.text value) _ _ => .static (clean value)
  | .mk .container _ [.mk (.string (some value)) _ _] => .static value
  | _ => .dynamic

def pushRunText (parts : List RunPart) (text : String) : List RunPart :=
  match parts.getLast? with
  | some (.text last) => parts.dropLast ++ [.text (last ++ text)]
  | _ => parts ++ [.text text]

/-- Parts of a run whose first member has position `index`. -/
def runParts (index : Nat) (parts : List RunPart) : List Node → List RunPart
  | [] => parts
  | child :: rest =>
    match pieceOf child with
    | .static text => runParts (index + 1) (pushRunText parts text) rest
    | .dynamic => runParts (index + 1) (parts ++ [.expr index]) rest

def trimFirst : List RunPart → List RunPart
  | .text text :: rest => .text (Text.trimStart text) :: rest
  | parts => parts

def trimLast (parts : List RunPart) : List RunPart :=
  match parts.getLast? with
  | some (.text text) => parts.dropLast ++ [.text (Text.trimEnd text)]
  | _ => parts

def isEmptyText (part : RunPart) : Bool := part == .text ""

/-- The members hold target text, visible text and an expression. -/
def isMergeable (members : List Node) : Bool :=
  let pieces := members.map pieceOf
  let hasTarget := pieces.any fun
    | .static text => Text.hasTarget text
    | .dynamic => false
  let hasText := pieces.any fun
    | .static text => Text.trim text != ""
    | .dynamic => false
  hasTarget && hasText && pieces.contains .dynamic

def leadingOf (source : Source) (child : Node) : String :=
  match child.kind with
  | .text _ => Markup.leading (source.snippet child.span)
  | _ => ""

def trailingOf (source : Source) (child : Node) : String :=
  match child.kind with
  | .text _ => Markup.trailing (source.snippet child.span)
  | _ => ""

/-- The run made of consecutive members, the first of which has position `start`. -/
def planRun (source : Source) (start : Nat) (members : List Node) : Option Run :=
  match members.head?, members.getLast? with
  | some first, some last =>
    if isMergeable members then
      some {
        start, stop := start + members.length
        leading := leadingOf source first
        trailing := trailingOf source last
        parts := (trimLast (trimFirst (runParts start [] members))).filter (!isEmptyText ·) }
    else none
  | _, _ => none

/-- Runs among the children from position `index` on, after members gathered just before it. -/
def planFrom (source : Source) : Nat → List Node → List Node → List Run
  | index, gathered, [] => (planRun source (index - gathered.length) gathered).toList
  | index, gathered, child :: rest =>
    if isRunMember child then planFrom source (index + 1) (gathered ++ [child]) rest
    else
      (planRun source (index - gathered.length) gathered).toList ++
        planFrom source (index + 1) [] rest

def planChildren (source : Source) (children : List Node) : List Run :=
  planFrom source 0 [] children

/-- The children of an element or fragment that are rendered. -/
def rendered : Node → List Node
  | .mk .element _ (_ :: children) => children
  | .mk .fragment _ children => children
  | _ => []

def isMarkup (n : Node) : Bool := n.kind == .element || n.kind == .fragment

/-- The plan for one node. -/
def ownPlan (source : Source) (n : Node) : Plan :=
  let runs := planChildren source (rendered n)
  if runs.isEmpty then [] else [(n.span, runs)]

mutual

/-- Runs of all elements of a tree, outer ones first. -/
def planNode (source : Source) : Node → Plan
  | .mk kind span children => ownPlan source (.mk kind span children) ++ planNodes source children

def planNodes (source : Source) : List Node → Plan
  | [] => []
  | n :: ns => planNode source n ++ planNodes source ns

end

/-- The plan of a module. Files of pure data keep their markup. -/
def Plan.build (source : Source) (isData : Bool) : Plan :=
  if isData then [] else planNode source source.tree

/-- From the first to the last child of a run. -/
def Run.span (run : Run) (children : List Node) : Option Span := do
  let first ← children[run.start]?
  guard (0 < run.stop)
  let last ← children[run.stop - 1]?
  return ⟨first.span.lo, last.span.hi⟩

/-- The parts of a run with its expressions. -/
def Run.message (run : Run) (children : List Node) : List Part :=
  run.parts.filterMap fun
    | .text text => some (.text text)
    | .expr i =>
      match children[i]? with
      | some (.mk .container _ [e]) => some (.slot e)
      | _ => none

end Phrasebook.Markup
