/-!
What the extraction of a module is told: how a text is looked up and which calls keep theirs.
-/
namespace Phrasebook

structure Options where
  lookupFunction : String := "t"
  importSource : String := "@/i18n"
  skipFunctions : List String := ["console", "logger", "debug"]
  /-- How deep expressions are followed. -/
  maxDepth : Nat := 10
deriving DecidableEq, Repr

namespace Options

/-- The part of a dotted name after its last dot. -/
def lastSegment (callee : String) : String :=
  String.ofList (callee.toList.reverse.takeWhile (· != '.')).reverse

/-- A call of the lookup function, or of a method of its name. -/
def isLookupCall (o : Options) (callee : String) : Bool := lastSegment callee == o.lookupFunction

/-- The text of `whole` after `start`, when it begins so. -/
def after? : List Char → List Char → Option (List Char)
  | [], rest => some rest
  | _ :: _, [] => none
  | c :: start, d :: rest => if c == d then after? start rest else none

/-- The callee is on the skip list, or a member of something on it. -/
def isSkippedCall (o : Options) (callee : String) : Bool :=
  o.skipFunctions.any fun skip =>
    match after? skip.toList callee.toList with
    | some [] => true
    | some (c :: _) => c == '.'
    | none => false

end Options

end Phrasebook
