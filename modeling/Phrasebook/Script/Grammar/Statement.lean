import Phrasebook.Script.Grammar.Declaration

/-!
Statements.
-/
namespace Phrasebook.Script.Grammar

open Parse

variable (rec : Rec)

/-! ### Loops -/

/-- The rest of a loop with three clauses after the first. -/
def countedLoop (lo : Nat) (init : List Node) : Parse Node := do
  expect ";"
  let test ← if ← isPunct ";" then pure [] else pure [← rec .expression]
  expect ";"
  let update ← if ← isPunct ")" then pure [] else pure [← rec .expression]
  expect ")"
  let body ← rec .governed
  node .statement lo (init ++ test ++ update ++ [body])

/-- The rest of a loop over what `left` takes on. A loop that awaits has `of`. -/
def eachLoop (lo : Nat) (awaited : Bool) (left : Node) : Parse Node := do
  let ofWord ← isWord "of"
  advance
  if awaited && !ofWord then fail
  let right ← if ofWord then rec .assignment else rec .expression
  expect ")"
  let body ← rec .governed
  node .statement lo [left, right, body]

/-- The expression is the word `using`, after `await` or alone. -/
def isUsingWord (awaited : Bool) : Node → Bool
  | .mk (.ident "using") _ _ => true
  | .mk .unary _ [.mk (.ident "using") _ _] => awaited
  | _ => false

/-- A loop that starts with an expression. -/
def expressionLoop (lo : Nat) (awaited : Bool) : Parse Node := do
  let c ← get
  let headLo ← here
  let e ← within ({ · with allowIn := false, inLoopHead := true }) (rec .expression)
  let after ← get
  if isUsingWord (c.isWord "await") e && !after.isWord "of" && isLoopWord after.next then
    let nameLo ← here
    let name ← bindingName
    let b ← node (.binding name) nameLo []
    let d ← node .declarator headLo [b]
    eachLoop rec lo awaited (← node .resources headLo [d])
  else if isLoopWord after then
    match loopTarget e with
    | some target => eachLoop rec lo awaited target
    | none => fail
  else if awaited then fail
  else countedLoop rec lo [e]

def forStatement (lo : Nat) : Parse Node := do
  expectWord "for"
  let awaited ← acceptWord "await"
  expect "("
  let c ← get
  if startsVariables c then
    let vars ← loopVariables rec (← here)
    if ← test isLoopWord then eachLoop rec lo awaited vars
    else if awaited then fail
    else countedLoop rec lo [vars]
  else if c.isPunct ";" then
    if awaited then fail
    countedLoop rec lo []
  else expressionLoop rec lo awaited

def parenthesizedTest : Parse Node := do
  expect "("
  let e ← rec .expression
  expect ")"
  return e

/-- A loop or `with` statement: a keyword, an expression and what it governs. -/
def whileStatement (lo : Nat) : Parse Node := do
  advance
  let test ← parenthesizedTest rec
  let body ← rec .governed
  node .statement lo [test, body]

def doStatement (lo : Nat) : Parse Node := do
  expectWord "do"
  let body ← rec .governed
  expectWord "while"
  let test ← parenthesizedTest rec
  let _ ← acceptSemicolon
  node .statement lo [test, body]

/-! ### Branches -/

def ifStatement (lo : Nat) : Parse Node := do
  expectWord "if"
  let test ← parenthesizedTest rec
  let yes ← rec .governed
  let no ← if ← acceptWord "else" then pure [← rec .governed] else pure []
  node .statement lo (test :: yes :: no)

def switchCase : Parse Node := do
  let lo ← here
  let test ← if ← acceptWord "default" then pure [] else do
    expectWord "case"
    pure [← rec .expression]
  expect ":"
  let body ← many (fun c => c.anyWord ["case", "default"] || isBraceEnd c) (rec .statement)
  node (.switchCase !test.isEmpty) lo (test ++ body)

def switchStatement (lo : Nat) : Parse Node := do
  expectWord "switch"
  let subject ← parenthesizedTest rec
  expect "\x7b"
  let cases ← many (!·.anyWord ["case", "default"]) (switchCase rec)
  if (cases.filter (·.kind == .switchCase false)).length > 1 then fail
  expect "\x7d"
  node .statement lo (subject :: cases)

/-! ### Exceptions -/

def catchClause : Parse Node := do
  let lo ← here
  expectWord "catch"
  let param ← if ← accept "(" then do
    let p ← rec .pattern
    let ann ← optionalAscription rec
    expect ")"
    pure [extend p ann]
  else pure []
  let body ← block rec
  node .statement lo (param ++ [body])

def handlers : Parse (List Node) := do
  let handler ← if ← isWord "catch" then pure [← catchClause rec] else pure []
  let last ← if ← acceptWord "finally" then pure [← block rec] else pure []
  return handler ++ last

def tryStatement (lo : Nat) : Parse Node := do
  expectWord "try"
  let body ← block rec
  let handlers ← handlers rec
  node .statement lo (body :: handlers)

/-- Handlers with nothing to handle are dropped, as far as they can be read. -/
def strayHandlers (lo : Nat) : Parse Node := do
  let _ ← recover [] (handlers rec)
  node .statement lo []

def throwStatement (lo : Nat) : Parse Node := do
  expectWord "throw"
  if (← get).newline then fail
  let value ← rec .expression
  semicolon
  node .statement lo [value]

/-! ### Jumps -/

/-- A jump with an optional label. -/
def jump (lo : Nat) : Parse Node := do
  advance
  unless ← test Cursor.endsStatement do
    let _ ← name
  semicolon
  node .statement lo []

def returnStatement (lo : Nat) : Parse Node := do
  expectWord "return"
  let value ← if ← test Cursor.endsStatement then pure [] else pure [← rec .expression]
  semicolon
  node .statement lo value

def debuggerStatement (lo : Nat) : Parse Node := do
  advance
  semicolon
  node .statement lo []

/-! ### Expressions as statements -/

/-- The end of an expression statement. An operator still takes the expression as an operand. -/
def expressionEnd (lo : Nat) (e : Node) : Parse Node := do
  if ← acceptSemicolon then node .expressionStatement lo [e]
  else if ← test isBinarySymbol then
    let whole ← binaryFrom rec e.span.lo (← get).fuel 0 e
    node .expressionStatement lo [whole]
  else fail

/-- An expression that loads a module. Nothing need end it. -/
def loadStatement : Parse Node := do
  let lo ← here
  unless ← test fun c => c.isWord "import" && c.next.anyPunct ["(", "."] do fail
  let e ← rec .expression
  let _ ← acceptSemicolon
  node .expressionStatement lo [e]

/-- The statement after a label. -/
def labelled (lo : Nat) : Parse Node := do
  let body ← if ← isWord "function" then functionDecl rec (← here) false [] else rec .governed
  node .statement lo [body]

/-- The word that was read opens a declaration before this token. -/
def opensDeclaration (word : String) (c : Cursor) : Bool :=
  match word with
  | "abstract" => c.isWord "class" && !c.newline
  | "module" => (c.isString || c.isName) && !c.newline
  | "namespace" => c.isName
  | "type" => c.isName && !c.newline
  | _ => false

/-- The declaration that starts with a word that might have been an expression. -/
def declarationFrom (lo : Nat) (decs : List Node) (word : String) : Parse (Option Node) := do
  let c ← get
  if word == "declare" then ambientDeclaration rec lo decs
  else if word == "global" && c.isPunct "\x7b" then
    let items ← namespaceBody rec
    return some (← node (.namespaceDecl none) lo items)
  else if opensDeclaration word c then return some (← declarationAfter rec lo decs word)
  else if word == "abstract" && (← acceptWord "interface") then
    return some (← interfaceDecl rec lo)
  else return none

/-- A statement that starts with an expression, which may turn out to be a label or the first word
of a declaration. -/
def expressionStatement (lo : Nat) (decs : List Node) : Parse Node := do
  let e ← rec .expression
  match e.kind with
  | .ident word =>
    if ← accept ":" then labelled rec e.span.lo
    else
      match ← declarationFrom rec e.span.lo decs word with
      | some d => return d
      | none => expressionEnd rec lo e
  | _ => expressionEnd rec lo e

/-- A statement that starts with `await using`. -/
def awaitUsing (lo : Nat) : Parse Node := do
  expectWord "await"
  if ← test startsResources then resources rec lo
  else
    let operand ← rec .unary
    let first ← node .unary lo [operand]
    let e ← binaryFrom rec lo (← get).fuel 0 first
    let _ ← acceptSemicolon
    node .expressionStatement lo [e]

/-! ### All statements -/

/-- The statement that a keyword opens wherever it stands. The offset `lo` is before the decorators
and `pos` after them. -/
def keywordStatement (lo pos : Nat) (decs : List Node) (keyword : String) :
    Option (Parse Node) :=
  match keyword with
  | "if" => some (ifStatement rec pos)
  | "for" => some (forStatement rec pos)
  | "while" | "with" => some (whileStatement rec pos)
  | "do" => some (doStatement rec pos)
  | "switch" => some (switchStatement rec pos)
  | "try" => some (tryStatement rec pos)
  | "catch" | "finally" => some (strayHandlers rec pos)
  | "return" => some (returnStatement rec pos)
  | "throw" => some (throwStatement rec pos)
  | "break" | "continue" => some (jump pos)
  | "debugger" => some (debuggerStatement pos)
  | "var" => some (variablesDecl rec pos)
  | "function" => some (functionDecl rec pos false decs)
  | "class" => some (classDecl rec lo decs)
  | _ => none

/-- A statement that starts with a word and is none of the keyword statements. -/
def wordStatement (lo pos : Nat) (declares : Bool) (decs : List Node) : Parse Node := do
  let c ← get
  let next := c.next
  if c.isWord "const" && next.isWord "enum" then
    advance
    advance
    enumDecl rec lo
  else if declares && startsVariables c then variablesDecl rec pos
  else if declares && startsResources c then resources rec lo
  else if declares && c.isWord "await" && next.isWord "using" then awaitUsing rec lo
  else if c.anyWord ["interface", "type", "enum"] && next.word?.isSome && !next.newline then
    advance
    if c.isWord "interface" then interfaceDecl rec pos
    else if c.isWord "type" then typeAliasDecl rec pos
    else enumDecl rec pos
  else if c.isWord "async" && next.isWord "function" && !next.newline then
    advance
    functionDecl rec pos true decs
  else expressionStatement rec lo decs

/-- A statement after its decorators, which functions and classes keep. Without `declares` it
declares no variables of its own scope. -/
def statementAfter (lo : Nat) (declares : Bool) (decs : List Node) : Parse Node := do
  let pos ← here
  match (← get).token with
  | .punct "\x7b" => block rec
  | .punct ";" =>
    advance
    node .statement pos []
  | .word _ (some role) =>
    match keywordStatement rec lo pos decs role with
    | some p => p
    | none => wordStatement rec lo pos declares decs
  | _ => expressionStatement rec lo decs

def statement (declares : Bool) : Parse Node := do
  let lo ← here
  let decs ← decorators rec
  if ← test (·.anyWord ["import", "export"]) then loadStatement rec
  else statementAfter rec lo declares decs

end Phrasebook.Script.Grammar
