import Phrasebook.FileKind
import Phrasebook.Markup.Plan
import Phrasebook.Outline.Basic
import Phrasebook.Residual

/-!
From the tree of a module to its outline. The outline of a node is made from its children and
their outlines, so it is computed bottom up in one pass.
-/
namespace Phrasebook

open Script Outline

/-- A module to be outlined and what is known about it. -/
structure Setting where
  source : Source
  file : FileInfo
  options : Options
  plan : Markup.Plan

/-- The outlines of a node in the roles it can have. -/
structure Views where
  /-- As an expression at a given depth. Spreads and containers stand for what they hold. -/
  expr : Nat → Value
  /-- Visited where it stands, without a value of its own. -/
  inner : Unit → List Step
  /-- The slots it brings to a chain of `+`, at a given depth. -/
  slots : Nat → List Value
  /-- As a member of an object literal at a given depth, or as the key of one. -/
  member : Nat → List Step

abbrev Child := Node × Views

namespace Child

def node (c : Child) : Node := c.1

def views (c : Child) : Views := c.2

def kind (c : Child) : Kind := c.node.kind

/-- The child in its place inside an expression, itself at `depth`. -/
def replaced (c : Child) (depth : Nat) : Step :=
  match c.node with
  | .mk .spread _ [e] => .replace e.span (c.views.expr depth)
  | n => .replace n.span (c.views.expr depth)

/-- The child visited on its own: an expression starts again at depth zero. -/
def visit (c : Child) : List Step :=
  if c.kind.isExpr then [c.replaced 0] else c.views.inner ()

end Child

def visitAll (cs : List Child) : List Step := cs.flatMap Child.visit

namespace Setting

variable (s : Setting)

/-- Everything found under nodes, left in place for one reason. -/
def notesIn (nodes : List Node) (reason : Reason) : List Note :=
  (foundInAll nodes).map fun found => ⟨found.text, found.form, reason, found.pos⟩

/-- A bare literal is left in place for a reason; anything else goes on as `otherwise`. -/
def unlessLiteral (reason : Reason) (c : Child) (otherwise : List Step) : List Step :=
  match literalTarget c.node with
  | some (text, form) => [.notes [⟨text, form, reason, c.node.span.lo⟩]]
  | none => otherwise

/-- A computed key keeps its literal. -/
def keptKey (c : Child) : List Step := unlessLiteral .memberKey c c.visit

/-- A text on its own. -/
def literal (span : Span) (value : Option String) : Value :=
  match value with
  | some text => if Text.hasTarget text then .message .literal span [.text text] [] else .nothing
  | none => .nothing

/-! ### Scopes -/

def functionScope (kind : Kind) (children : List Node) : Scope where
  isRuntime := true
  shadows := functionBinds s.options.lookupFunction kind children

def componentNamed (name : String) : Option String :=
  if Text.isComponentName name then some name else none

def isFunction (n : Node) : Bool :=
  match n.kind with
  | .arrow | .functionExpr _ => true
  | _ => false

def declaredName (pattern : Node) : String :=
  match pattern.kind with
  | .binding name => name
  | _ => s.source.snippet pattern.span

def declarator (lo : Nat) (cs : List Child) : List Step :=
  match cs with
  | [] => []
  | p :: init =>
    let name := declaredName s p.node
    let component := if init.any fun c => isFunction c.node then componentNamed name else none
    [.binding name lo [.scope { component } (visitAll cs)]]

def staticField (lo : Nat) (cs : List Child) : List Step :=
  match cs with
  | [] => []
  | key :: _ => [.staticField (s.source.snippet key.node.span) lo (visitAll cs)]

/-- An item of a module, which may hide the lookup function for its own body. -/
def item (c : Child) : Step :=
  .scope { shadows := itemBinds s.options.lookupFunction c.node } c.visit

/-! ### Markup -/

/-- The slots of a run: the containers among its parts, one level below the top. -/
def runSlots (run : Markup.Run) (children : List Child) : List Value :=
  run.parts.filterMap fun
    | .text _ => none
    | .expr i =>
      match children[i]? with
      | some (.mk .container _ [_], views) => some (views.expr 1)
      | _ => none

def run (run : Markup.Run) (children : List Child) : List Step :=
  let nodes := children.map (·.1)
  match run.span nodes with
  | some span =>
    [.braced .markupText span run.leading run.trailing (run.message nodes) (runSlots run children)]
  | none => []

/-- Children from position `index` on; those before `resume` belong to a run already outlined. -/
def childrenFrom (runs : List Markup.Run) (all : List Child) : Nat → Nat → List Child → List Step
  | _, _, [] => []
  | index, resume, c :: rest =>
    if index < resume then childrenFrom runs all (index + 1) resume rest
    else
      match runs.find? (·.start == index) with
      | some r => run r all ++ childrenFrom runs all (index + 1) (max r.stop (index + 1)) rest
      | none => c.views.inner () ++ childrenFrom runs all (index + 1) resume rest

def markupChildren (owner : Span) (children : List Child) : List Step :=
  childrenFrom (s.plan.runsFor owner) children 0 0 children

def markupText (span : Span) (value : String) : List Step :=
  let text := Text.trim (Markup.clean value)
  if !Text.hasTarget text then []
  else if s.file.isData then [.notes [⟨text, .markupText, .dataFile, span.lo⟩]]
  else
    let raw := s.source.snippet span
    [.braced .markupText span (Markup.leading raw) (Markup.trailing raw) [.text text] []]

def attributeText (span : Span) (value : String) : List Step :=
  if Text.hasTarget value then [.braced .literal span "" "" [.text value] []] else []

/-! ### Nodes visited where they stand -/

def inner (kind : Kind) (span : Span) (cs : List Child) : List Step :=
  match kind, cs with
  | .module, items => items.map (item s)
  | .namespaceDecl _, items => items.map (item s)
  | .function, cs | .classConstructor, cs | .getter, cs | .setter, cs =>
    [.scope (functionScope s kind (cs.map (·.1))) (visitAll cs)]
  | .field true, cs => staticField s span.lo cs
  | .field false, cs => [.scope { isRuntime := true } (visitAll cs)]
  | .member .computed, [object, key] => object.visit ++ keptKey key
  | .enumDecl _, members => [.notes (notesIn (members.map (·.1)) .enumMember)]
  | .switchCase true, test :: body => unlessLiteral .comparison test test.visit ++ visitAll body
  | .element, opening :: kids =>
    opening.visit ++ (if isRawOpening opening.node then [] else markupChildren s span kids)
  | .fragment, kids => markupChildren s span kids
  | .text value, _ => markupText s span value
  | .attrText value, _ => attributeText span value
  | .attr, value => value.flatMap (·.views.inner ())
  | .bare, held => held.flatMap (·.views.inner ())
  | .declarator, cs => declarator s span.lo cs
  | .exportDefault, cs => [.binding "default" span.lo (visitAll cs)]
  | .functionDecl name, cs => [.scope { component := componentNamed name } (visitAll cs)]
  | .functionExpr name, cs => [.scope { component := name.bind componentNamed } (visitAll cs)]
  | .classDecl name, cs =>
    [.scope { component := componentNamed name, className := some name } (visitAll cs)]
  | .classExpr name, cs => [.scope { className := some (name.getD "class") } (visitAll cs)]
  | _, cs => visitAll cs

/-! ### Expressions -/

/-- An expression rebuilt from its parts, each one level deeper. -/
def rebuilt (span : Span) (parts : List Child) (depth : Nat) : Value :=
  .rebuild span (parts.map (·.replaced (depth + 1)))

def comparison (span : Span) (operands : List Child) (depth : Nat) : Value :=
  .rebuild span (operands.flatMap fun c => unlessLiteral .comparison c [c.replaced (depth + 1)])

/-- Callee and arguments without types. A callee that is no expression is not entered. -/
def valueParts (cs : List Child) : List Child :=
  cs.filter fun c => c.kind.isExpr || c.kind == .spread

def call (span : Span) (cs : List Child) (depth : Nat) : Value :=
  match cs with
  | [] => .nothing
  | callee :: args =>
    let arguments := (valueParts args).map (·.1)
    if isModuleLoad callee.node then .notes (notesIn arguments .moduleSpecifier)
    else
      match calleeName callee.node with
      | some name =>
        if s.options.isLookupCall name then .nothing
        else if s.options.isSkippedCall name then .notes (notesIn arguments (.skippedCall name))
        else rebuilt span (valueParts cs) depth
      | none => rebuilt span (valueParts cs) depth

def construct (span : Span) (cs : List Child) (depth : Nat) : Value :=
  match cs with
  | [] => .nothing
  | callee :: args =>
    match calleeName callee.node with
    | some name =>
      if s.options.isSkippedCall name then
        .notes (notesIn ((valueParts args).map (·.1)) (.skippedCall name))
      else rebuilt span (valueParts cs) depth
    | none => rebuilt span (valueParts cs) depth

/-- A function defers its own evaluation. A nested object keeps its identity, and its own
properties become getters. -/
def isDeferredValue (n : Node) : Bool :=
  match n.kind with
  | .arrow | .functionExpr _ | .object => true
  | _ => false

/-- A property of an object literal at `depth`. -/
def property (cs : List Child) (depth : Nat) : List Step :=
  match cs with
  | [key, value] =>
    if key.kind == .computedKey then key.views.member depth ++ [value.replaced (depth + 1)]
    else if isDeferredValue value.node then [value.replaced (depth + 1)]
    else
      [.property key.node.span value.node.span (value.kind == .array)
        (value.views.expr (depth + 1))]
  | _ => []

/-- Parameters and body of an arrow function; its types are not entered. -/
def arrowPart (depth : Nat) (c : Child) : List Step :=
  match c.kind with
  | .typeParams | .ascription => []
  | _ => if c.kind.isExpr then [c.replaced (depth + 1)] else c.visit

def constAssertion (span : Span) (cs : List Child) (depth : Nat) : Value :=
  match cs with
  | [(.mk (.string value) inner _, _)] => literal inner value
  | _ => rebuilt span cs depth

/-- The slots of a template or of a chain of `+`. Nothing is a slot after the last piece. -/
def slotsOf (kind : Kind) (cs : List Child) (depth : Nat) : List Value :=
  match kind with
  | .template pieces => (cs.take pieces.length).map (·.views.expr depth)
  | .binary .add => cs.flatMap (·.views.slots depth)
  | _ => []

/-- The parts of a template or of a chain of `+` that carries target text. -/
def messageOf (kind : Kind) (span : Span) (nodes : List Node) : Option (List Part) :=
  match kind with
  | .template pieces => (some (Message.ofTemplate pieces nodes)).filter Message.hasTarget
  | .binary .add => (Message.ofConcat (.mk kind span nodes)).filter Message.hasTarget
  | _ => none

/-- An expression above the depth limit. -/
def exprWithin (kind : Kind) (span : Span) (cs : List Child) (depth : Nat) : Value :=
  let nodes := cs.map (·.1)
  match messageOf kind span nodes with
  | some parts => .message .interpolated span parts (slotsOf kind cs (depth + 1))
  | none =>
    match kind with
    | .string value => literal span value
    | .template _ | .conditional | .paren | .array | .binary .add | .binary .other =>
      rebuilt span cs depth
    | .binary .compare => comparison span cs depth
    | .tagged => rebuilt span (valueParts cs) depth
    | .call => call s span cs depth
    | .construct => construct s span cs depth
    | .object => .rebuild span (cs.flatMap (·.views.member depth))
    | .arrow => .scope (functionScope s kind nodes) (.rebuild span (cs.flatMap (arrowPart depth)))
    | .constAssertion => constAssertion span cs depth
    | _ => .rebuild span (inner s kind span cs)

/-- The slots a node brings to a chain of `+` around it. -/
def operandSlots (kind : Kind) (cs : List Child) (expr : Nat → Value) (depth : Nat) : List Value :=
  match kind, cs with
  | .string _, _ | .number _, _ => []
  | .template _, _ | .binary .add, [_, _] => slotsOf kind cs depth
  | _, _ => [expr depth]

/-- The outlines of a node from its children and theirs. -/
def views (kind : Kind) (span : Span) (cs : List Child) : Views :=
  match kind, cs with
  | .spread, [e] =>
    { expr := e.views.expr
      inner := fun _ => e.visit
      slots := fun depth => [e.views.expr depth]
      member := fun depth => [e.replaced (depth + 1)] }
  | .container, [e] =>
    { expr := e.views.expr
      inner := fun _ => e.visit
      slots := fun depth => [e.views.expr depth]
      member := fun _ => e.visit }
  | .computedKey, [key] =>
    { expr := fun _ => .nothing
      inner := fun _ => key.visit
      slots := fun _ => [.nothing]
      member := fun _ => keptKey key }
  | .property, cs =>
    { expr := fun _ => .nothing
      inner := fun _ => visitAll cs
      slots := fun _ => [.nothing]
      member := property cs }
  | kind, cs =>
    let expr : Nat → Value := fun depth =>
      if s.options.maxDepth < depth then .abort span.lo else exprWithin s kind span cs depth
    { expr
      inner := fun _ => inner s kind span cs
      slots := operandSlots kind cs expr
      member := fun _ => inner s kind span cs }

mutual

def viewsOf : Node → Views
  | .mk kind span children => views s kind span (viewsOfAll children)

def viewsOfAll : List Node → List Child
  | [] => []
  | n :: ns => (n, viewsOf n) :: viewsOfAll ns

end

/-- The outline of the module. -/
def outline : Outline := (viewsOf s s.source.tree).inner ()

end Setting

end Phrasebook
