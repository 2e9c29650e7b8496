import Phrasebook.Decimal.Binary

/-!
The syntax tree of a module: one kind of node, labelled with what it is, over the byte range it
covers. Children stand in the order in which they are visited.
-/
namespace Phrasebook.Script

/-- Byte offsets of the first byte and of the first byte past the end. -/
structure Span where
  lo : Nat
  hi : Nat
deriving DecidableEq, Repr, Inhabited

/-- Binary operators, as far as they are told apart: `compare` covers the equality operators and
`in`. -/
inductive Operator where
  | add
  | compare
  | other
deriving DecidableEq, Repr

/-- What follows the object of a member access. -/
inductive Access where
  | name (name : String)
  | hidden
  | computed
deriving DecidableEq, Repr

/-- A static piece of a template literal. Without a `cooked` text only the source text is known. -/
structure Piece where
  cooked : Option String
  raw : String
deriving DecidableEq, Repr

def Piece.text (p : Piece) : String := p.cooked.getD p.raw

inductive ImportForm where
  | default
  | named
  | wildcard
deriving DecidableEq, Repr

structure ImportName where
  form : ImportForm
  name : String
deriving DecidableEq, Repr

/-- What a node is. Comments give the children of a kind where their roles matter; an optional
child is marked with `?`. -/
inductive Kind where
  -- Expressions.
  | ident (name : String)
  | this
  /-- A string literal. A value with half of a surrogate pair is no text. -/
  | string (value : Option String)
  | number (value : Decimal.Written)
  /-- Children: `expression*`. -/
  | template (pieces : List Piece)
  /-- Children: `tag typeArgs? expression*`. -/
  | tagged
  /-- Children: `test consequent alternate`. -/
  | conditional
  /-- Children: `left right`. -/
  | binary (op : Operator)
  /-- Children: `callee argument* typeArgs?`. -/
  | call
  /-- Children: `callee argument* typeArgs?`. -/
  | construct
  | array
  | object
  /-- Children: `param* body typeParams? ascription?`. -/
  | arrow
  | paren
  /-- Written `x as const` or `<const>x`. -/
  | constAssertion
  /-- Children: `object key?`. -/
  | member (access : Access)
  /-- Children: `computedKey?`. -/
  | superMember
  /-- A member access or call after `?.`, held by a `bare` node. -/
  | optional
  | functionExpr (name : Option String)
  | classExpr (name : Option String)
  /-- Children: `target value`. -/
  | assignment
  /-- Children: `opening child*`. -/
  | element
  | fragment
  /-- An operator before its operand, other than an increment or decrement. -/
  | unary
  /-- An expression with a type, or one said to be there. Children: `expression type?`. -/
  | assertion
  /-- Any other expression. -/
  | operation
  -- Parts of expressions.
  | superCallee
  | importCallee
  /-- Children: `callee argument* typeArgs?`. -/
  | optionalCall
  | spread
  /-- Children: `key value`. -/
  | property
  | shorthand (name : String)
  /-- Written `{ a = 1 }`, which only a pattern may hold. -/
  | shorthandDefault
  /-- Children: `key ascription? block`. -/
  | getter
  /-- Children: `key thisParam? param block`. -/
  | setter
  /-- Children: `key function`. -/
  | method
  | key
  | computedKey
  -- Markup.
  | opening (tag : String)
  | attr
  | attrText (value : String)
  | text (value : String)
  /-- Children: `expression?`. -/
  | container
  | spreadChild
  -- Functions and classes.
  /-- Children: `param* decorator* block? typeParams? ascription?`. -/
  | function
  | param
  | thisParam
  | decorator
  /-- Children: `decorator* member* superclass? types*`. -/
  | classBody
  /-- Children: `key param* block?`. -/
  | classConstructor
  /-- Children: `key value? ascription? decorator*`. -/
  | field (isStatic : Bool)
  | accessorField
  | staticBlock
  -- Patterns.
  /-- Children: `ascription?`. -/
  | binding (name : String)
  | arrayPattern
  | objectPattern
  /-- Children: `key pattern`. -/
  | keyedPattern
  | restPattern
  | defaulted
  /-- Holds the form of an expression that is no value of its own here: the left side of an
  assignment, import attributes, a default-exported function or class. -/
  | bare
  -- Types.
  | ascription
  | typeArgs
  | typeParams
  | type
  -- Statements and declarations.
  | expressionStatement
  | block
  | switchCase (hasTest : Bool)
  | statement
  /-- Variables declared with `var` belong to the function or module around all blocks. -/
  | variables (isVar : Bool)
  /-- Variables declared with `using`, which are disposed of at the end of their scope. -/
  | resources
  /-- Children: `pattern init?`. -/
  | declarator
  | functionDecl (name : String)
  | classDecl (name : String)
  | typeDecl
  | enumDecl (name : String)
  | enumMember
  /-- The global scope and other modules have no name in this one. -/
  | namespaceDecl (name : Option String)
  -- Modules.
  | module
  /-- Children: `attributes?`, held by a `bare` node. -/
  | importDecl (typeOnly : Bool) (source : Option String) (names : List ImportName)
  | exportDecl
  | exportDefault
  | exportDefaultDecl
  /-- Written `import x = …`. -/
  | importAlias (name : String)
  | moduleDecl
deriving DecidableEq, Repr

inductive Node where
  | mk (kind : Kind) (span : Span) (children : List Node)
deriving Repr

namespace Node

def kind : Node → Kind
  | mk k _ _ => k

def span : Node → Span
  | mk _ s _ => s

def children : Node → List Node
  | mk _ _ cs => cs

instance : Inhabited Node := ⟨mk .operation ⟨0, 0⟩ []⟩

mutual

/-- The tree of a text that stands `offset` bytes further on. -/
def shift (offset : Nat) : Node → Node
  | mk kind span cs => mk kind ⟨span.lo + offset, span.hi + offset⟩ (shiftAll offset cs)

def shiftAll (offset : Nat) : List Node → List Node
  | [] => []
  | n :: ns => n.shift offset :: shiftAll offset ns

end

end Node

/-- Kinds that are expressions, wherever they stand. -/
def Kind.isExpr : Kind → Bool
  | .ident _ | .this | .string _ | .number _ | .template _ | .tagged | .conditional | .binary _
  | .call | .construct | .array | .object | .arrow | .paren | .constAssertion | .member _
  | .superMember | .optional | .functionExpr _ | .classExpr _ | .assignment | .element | .fragment
  | .unary | .assertion | .operation => true
  | _ => false

/-- Declarations, which share the scope they stand in. -/
def Kind.isDeclaration : Kind → Bool
  | .variables _ | .resources | .functionDecl _ | .classDecl _ | .typeDecl | .enumDecl _
  | .namespaceDecl _ => true
  | _ => false

/-- Items that only a module may hold. -/
def Kind.isModuleDecl : Kind → Bool
  | .importDecl .. | .exportDecl | .exportDefault | .exportDefaultDecl | .importAlias _
  | .moduleDecl => true
  | _ => false

end Phrasebook.Script
