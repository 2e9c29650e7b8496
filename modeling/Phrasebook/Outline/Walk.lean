import Phrasebook.Edit
import Phrasebook.Outline.Build
import Phrasebook.Slot

/-!
The walk along an outline. Replacements are built from the inside out: what is being rebuilt opens
a frame, the steps inside it add their edits, and closing the frame splices them into the source.
What happens to a site is up to the handler; everything else is the same in every walk.
-/
namespace Phrasebook

open Script Outline

/-- The new source text of an expression and the first key in it. -/
structure Extraction where
  replacement : String
  key : String
deriving DecidableEq, Repr

structure WalkReport where
  /-- Sites that got a key, and those of them with slots. -/
  applied : Nat := 0
  interpolated : Nat := 0
  lazyAccessors : Nat := 0
  unrecognized : List Sample := []
  deferred : List DeferredBinding := []
  /-- Subtrees past the depth limit. -/
  depthAborts : List Location := []
  /-- Getters that build a new array on every access. -/
  containerAccessors : List Location := []
deriving DecidableEq, Repr

/-- Where a walk stands. -/
structure Place where
  /-- Edits of what is being rebuilt, innermost first. -/
  frames : List (List Edit) := []
  /-- Number of functions around; at zero the code runs while the module is loaded. -/
  runtimeDepth : Nat := 0
  /-- Number of scopes around that hide the lookup function. -/
  shadowed : Nat := 0
  /-- Components and classes around, innermost first. -/
  components : List String := []
  classes : List String := []
deriving DecidableEq, Repr

namespace Place

def enter (p : Place) (scope : Scope) : Place :=
  { p with
    runtimeDepth := p.runtimeDepth + scope.isRuntime.toNat
    shadowed := p.shadowed + scope.shadows.toNat
    components := scope.component.toList ++ p.components
    classes := scope.className.toList ++ p.classes }

def leave (p : Place) (scope : Scope) : Place :=
  { p with
    runtimeDepth := p.runtimeDepth - scope.isRuntime.toNat
    shadowed := p.shadowed - scope.shadows.toNat
    components := p.components.drop scope.component.toList.length
    classes := p.classes.drop scope.className.toList.length }

def openFrame (p : Place) : Place := { p with frames := [] :: p.frames }

/-- The edits of the innermost frame, which is closed. -/
def closeFrame (p : Place) : List Edit × Place :=
  (p.frames.headD [], { p with frames := p.frames.drop 1 })

def addEdits (p : Place) (edits : List Edit) : Place :=
  { p with
    frames :=
      match p.frames with
      | [] => []
      | frame :: rest => (frame ++ edits) :: rest }

end Place

/-- The state of a walk with a handler of state `σ`. -/
structure Walk (σ : Type) where
  handler : σ
  place : Place := {}
  /-- Keys given out while the module is loaded, in order. -/
  eagerKeys : List String := []
  report : WalkReport := {}

namespace Setting

variable (s : Setting)

def location (pos : Nat) : Location :=
  let (line, column) := s.source.position pos
  ⟨s.file.path, line, column⟩

def sample (n : Note) : Sample := ⟨n.text, n.form, n.reason, s.location n.pos⟩

end Setting

/-! ### Messages -/

/-- A message with its slots named: its text, and what they are bound to. -/
structure Bound where
  text : String := ""
  names : SlotNames := {}
  /-- Edits of the slots, for when the message itself gets no key. -/
  edits : List Edit := []
  index : Nat := 0

namespace Bound

def pushText (b : Bound) (text : String) : Bound := { b with text := b.text ++ text }

def isIdent (n : Node) : Bool :=
  match n.kind with
  | .ident _ => true
  | _ => false

/-- Adds a slot for an expression, which may have been replaced. -/
def pushSlot (b : Bound) (source : Source) (e : Node) (value : Option Extraction) : Bound :=
  let written := source.snippet e.span
  let (name, names) := b.names.bind (slotName b.index e) written
    ((value.map (·.replacement)).getD written) (value.isNone && isIdent e)
  { text := b.text ++ "\x7b" ++ name ++ "\x7d"
    names
    edits := b.edits ++ (value.map fun x => ⟨e.span.lo, e.span.hi, x.replacement, x.key⟩).toList
    index := b.index + 1 }

/-- Binds the parts of a message in order; the values are those of its slots. -/
def fill (source : Source) (b : Bound) : List Part → List (Option Extraction) → Bound
  | [], _ => b
  | .text text :: parts, values => fill source (b.pushText text) parts values
  | .slot e :: parts, values =>
    fill source (b.pushSlot source e (values.headD none)) parts (values.drop 1)

end Bound

namespace Walk

variable {σ : Type} (s : Setting) (handle : Handler σ)

def addNotes (w : Walk σ) (notes : List Note) : Walk σ :=
  { w with report := { w.report with
      unrecognized := w.report.unrecognized ++ notes.map s.sample } }

def addAbort (w : Walk σ) (pos : Nat) : Walk σ :=
  { w with report := { w.report with
      depthAborts := w.report.depthAborts ++ [s.location pos] } }

def addEdits (w : Walk σ) (edits : List Edit) : Walk σ :=
  { w with place := w.place.addEdits edits }

def addExtraction (w : Walk σ) (span : Span) (x : Option Extraction) : Walk σ :=
  w.addEdits (x.map fun x => ⟨span.lo, span.hi, x.replacement, x.key⟩).toList

/-- Counts a key that was given out. -/
def addKey (w : Walk σ) (site : Site) (key : String) : Walk σ :=
  { w with
    eagerKeys := if w.place.runtimeDepth == 0 then w.eagerKeys ++ [key] else w.eagerKeys
    report := { w.report with
      applied := w.report.applied + 1
      interpolated := w.report.interpolated + (!site.vars.isEmpty).toNat } }

/-- The site at which the walk stands. -/
def siteAt (w : Walk σ) (kind : SiteKind) (span : Span) (text : String) (vars : List String) :
    Site where
  id := ⟨span, kind⟩
  text := text
  vars := vars
  location := s.location span.lo
  hint := w.place.components.head?

/-- Asks the handler for the key of a text, unless the lookup function is hidden here. -/
def ask (w : Walk σ) (kind : SiteKind) (span : Span) (text : String) (vars : List String) :
    Option String × Walk σ :=
  if 0 < w.place.shadowed then
    (none, w.addNotes s [⟨text, kind.form, .shadowedLookup, span.lo⟩])
  else
    let site := w.siteAt s kind span text vars
    match handle site w.handler with
    | (some key, h) => (some key, { w with handler := h }.addKey site key)
    | (none, h) => (none, { w with handler := h })

/-- A source range with edits in it; none when there is nothing to edit. -/
def spliced (span : Span) (edits : List Edit) : Option Extraction :=
  match edits with
  | [] => none
  | e :: _ => some ⟨splice s.source.code span.lo span.hi edits, e.key⟩

/-- A message whose slots have been walked: its lookup call, or the edits of its slots. -/
def finish (w : Walk σ) (kind : SiteKind) (span : Span) (bound : Bound) :
    Except (List Edit) Extraction × Walk σ :=
  match w.ask s handle kind span bound.text bound.names.names with
  | (some key, w) =>
    (.ok ⟨renderLookup s.options.lookupFunction key bound.names.bindings, key⟩, w)
  | (none, w) => (.error bound.edits, w)

/-- The getter that takes the place of a property. -/
def accessor (key : Span) (x : Extraction) : Extraction :=
  ⟨"get " ++ s.source.snippet key ++ "() \x7b return " ++ x.replacement ++ "; \x7d", x.key⟩

def addAccessor (w : Walk σ) (key value : Span) (isArray : Bool) (x : Option Extraction) :
    Walk σ :=
  match x with
  | none => w
  | some x =>
    let arrays := if isArray then [s.location key.lo] else []
    { w with report := { w.report with
        lazyAccessors := w.report.lazyAccessors + 1
        containerAccessors := w.report.containerAccessors ++ arrays } }.addExtraction
      ⟨key.lo, value.hi⟩ (some (accessor s key x))

/-- Reports a binding of the module if keys have been given out since `before`, the first of which
is named. -/
def addBinding (w : Walk σ) (before : Walk σ) (name : String) (pos : Nat) : Walk σ :=
  if before.place.runtimeDepth == 0 then
    match w.eagerKeys[before.eagerKeys.length]? with
    | some key => { w with report := { w.report with
        deferred := w.report.deferred ++ [⟨name, key, s.location pos⟩] } }
    | none => w
  else w

def enter (w : Walk σ) (scope : Scope) : Walk σ := { w with place := w.place.enter scope }

def leave (w : Walk σ) (scope : Scope) : Walk σ := { w with place := w.place.leave scope }

def openFrame (w : Walk σ) : Walk σ := { w with place := w.place.openFrame }

def closeFrame (w : Walk σ) (span : Span) : Option Extraction × Walk σ :=
  let (edits, place) := w.place.closeFrame
  (spliced s span edits, { w with place })

def fieldName (w : Walk σ) (key : String) : String := w.place.classes.headD "class" ++ "." ++ key

mutual

/-- The replacement of an expression, none when nothing inside it changes. -/
def value (w : Walk σ) : Value → Option Extraction × Walk σ
  | .notes ns => (none, w.addNotes s ns)
  | .abort pos => (none, w.addAbort s pos)
  | .message kind span parts slots =>
    let (xs, w) := values w slots
    match w.finish s handle kind span (Bound.fill s.source {} parts xs) with
    | (.ok x, w) => (some x, w)
    | (.error edits, w) => (spliced s span edits, w)
  | .rebuild span body => (steps w.openFrame body).closeFrame s span
  | .scope scope body =>
    let (x, w) := value (w.enter scope) body
    (x, w.leave scope)

def values (w : Walk σ) : List Value → List (Option Extraction) × Walk σ
  | [] => ([], w)
  | v :: vs =>
    let (x, w) := value w v
    let (xs, w) := values w vs
    (x :: xs, w)

/-- Adds the edits of a step to the innermost frame. -/
def step (w : Walk σ) : Step → Walk σ
  | .notes ns => w.addNotes s ns
  | .replace span v =>
    let (x, w) := value w v
    w.addExtraction span x
  | .braced kind span leading trailing parts slots =>
    let (xs, w) := values w slots
    match w.finish s handle kind span (Bound.fill s.source {} parts xs) with
    | (.ok x, w) =>
      w.addExtraction span
        (some ⟨leading ++ "\x7b" ++ x.replacement ++ "\x7d" ++ trailing, x.key⟩)
    | (.error edits, w) => w.addEdits edits
  | .property key span isArray v =>
    if 0 < w.place.runtimeDepth then
      let (x, w) := value w v
      w.addExtraction span x
    else
      let (x, w) := value (w.enter { isRuntime := true }) v
      (w.leave { isRuntime := true }).addAccessor s key span isArray x
  | .scope scope body => (steps (w.enter scope) body).leave scope
  | .binding name pos body => (steps w body).addBinding s w name pos
  | .staticField key pos body => (steps w body).addBinding s w (w.fieldName key) pos

def steps (w : Walk σ) : List Step → Walk σ
  | [] => w
  | x :: xs => steps (step w x) xs

end

end Walk

/-- What a walk leaves behind. -/
structure WalkOutput (σ : Type) where
  handler : σ
  /-- Edits of the module, in the order of the walk. -/
  edits : List Edit
  report : WalkReport

/-- Walks along the whole module. -/
def Setting.walk {σ : Type} (s : Setting) (handle : Handler σ) (start : σ) : WalkOutput σ :=
  let w : Walk σ := { handler := start }
  let w := Walk.steps s handle w.openFrame s.outline
  ⟨w.handler, w.place.closeFrame.1, w.report⟩

end Phrasebook
