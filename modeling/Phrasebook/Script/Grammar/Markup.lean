import Phrasebook.Script.Entity
import Phrasebook.Script.Grammar.Type

/-!
Markup: elements, fragments, their attributes and children. Inside a tag the tokens differ from
those of expressions, and between tags everything up to the next `<` or `{` is text.
-/
namespace Phrasebook.Script.Grammar

open Parse

variable (rec : Rec)

def advanceInTag : Parse Unit := modify Cursor.nextInTag

/-- Reads the current token once more as one inside a tag. -/
def rereadInTag : Parse Unit := modify fun c =>
  let (token, stop) := readTagToken c.start
  { c with token, stop }

/-- A node up to the end of the current token. -/
def nodeThrough (kind : Kind) (lo : Nat) (children : List Node) : Parse Node := do
  return .mk kind ⟨lo, (← get).stop.pos⟩ children

def expectHere (text : String) : Parse Unit := do
  unless ← isPunct text do fail

def tagWord : Parse String := do
  match (← get).word? with
  | some name =>
    advanceInTag
    return name
  | none => fail

def tagNameFrom : Nat → String → Parse String
  | 0, _ => fail
  | fuel + 1, name => do
    if ← isPunct "." then
      advanceInTag
      let part ← tagWord
      tagNameFrom fuel (name ++ "." ++ part)
    else return name

/-- A plain, namespaced or dotted tag name. -/
def tagName : Parse String := do
  let name ← tagWord
  if ← isPunct ":" then
    advanceInTag
    return name ++ ":" ++ (← tagWord)
  tagNameFrom (← get).fuel name

/-! ### Containers -/

/-- What braces hold; the cursor goes from the `{` to the `}`. -/
def container : Parse Node := do
  let lo ← here
  expect "\x7b"
  if ← isPunct "\x7d" then nodeThrough .container lo []
  else if ← accept "..." then
    let e ← nested (rec .expression)
    expectHere "\x7d"
    nodeThrough .spreadChild lo [e]
  else
    let e ← nested (rec .expression)
    expectHere "\x7d"
    nodeThrough .container lo [e]

/-! ### Attributes -/

def attributeString (quote : Char) : Parse Node := do
  let c ← get
  let lo := c.start.pos
  let (value, closing) := c.stop.takeWhile (· != quote)
  if closing.rest.isEmpty then fail
  let after := closing.skip 1
  set (c.readFrom after readTagToken)
  let text := String.ofList (decodeEntities (doubleLineBreaks value))
  return .mk (.attrText text) ⟨lo, after.pos⟩ []

def attributeValue : Parse Node := do
  match (← get).token with
  | .punct "\x22" => attributeString '\x22'
  | .punct "\x27" => attributeString '\x27'
  | .punct "\x7b" =>
    let value ← container rec
    if value.children.isEmpty || value.kind == .spreadChild then fail
    advanceInTag
    return value
  | .punct "<" =>
    let value ← rec .element
    advanceInTag
    return value
  | _ => fail

def attributeItem : Parse Node := do
  let lo ← here
  if ← accept "\x7b" then
    expect "..."
    let e ← nested (rec .assignment)
    expectHere "\x7d"
    advanceInTag
    node .spread lo [e]
  else
    let _ ← tagWord
    if ← isPunct ":" then
      advanceInTag
      let _ ← tagWord
    if ← isPunct "=" then
      advanceInTag
      let value ← attributeValue rec
      node .attr lo [value]
    else node .attr lo []

/-! ### Elements -/

def isText (c : Char) : Bool := c != '<' && c != '\x7b'

/-- The text before the next tag or container. -/
def textNode (start : Input) : List Node × Input :=
  let (raw, after) := start.takeWhile isText
  if raw.isEmpty then ([], after)
  else
    let value := String.ofList (decodeEntities (joinLineBreaks raw))
    ([.mk (.text value) ⟨start.pos, after.pos⟩ []], after)

/-- Children up to the closing tag; the cursor is left on the `/` of that tag. -/
def childrenFrom : Nat → Input → Parse (List Node)
  | 0, _ => fail
  | fuel + 1, start => do
    let c ← get
    let (texts, after) := textNode start
    match after.rest with
    | [] =>
      set (c.readFrom after (readToken c.fuel))
      fail
    | '<' :: '/' :: _ =>
      set (c.readFrom after (readToken c.fuel)).nextInTag
      return texts
    | '<' :: _ =>
      set (c.readFrom after (readToken c.fuel))
      let child ← rec .element
      let more ← childrenFrom fuel (← get).stop
      return texts ++ child :: more
    | _ =>
      set (c.readFrom after (readToken c.fuel))
      let child ← container rec
      let more ← childrenFrom fuel (← get).stop
      return texts ++ child :: more

def children : Parse (List Node) := do
  let c ← get
  childrenFrom rec c.fuel c.stop

def fragment (lo : Nat) : Parse Node := do
  let kids ← children rec
  advanceInTag
  expectHere ">"
  nodeThrough .fragment lo kids

def element : Parse Node := do
  let lo ← here
  expectHere "<"
  advanceInTag
  if ← isPunct ">" then fragment rec lo
  else
    let name ← tagName
    let types ← if ← isPunct "<" then attempt (typeArguments rec) else pure none
    if types.isSome then rereadInTag
    let attributes ← many (fun c => c.isPunct ">" || c.isPunct "/") (attributeItem rec)
    let opening ← node (.opening name) lo (attributes ++ types.toList)
    if ← isPunct "/" then
      advanceInTag
      expectHere ">"
      nodeThrough .element lo [opening]
    else
      let kids ← children rec
      advanceInTag
      let closing ← tagName
      unless closing == name do fail
      expectHere ">"
      nodeThrough .element lo (opening :: kids)

end Phrasebook.Script.Grammar
