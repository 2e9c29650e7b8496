import Phrasebook.Text.Sorted

/-!
The table of texts. Each key holds one entry. A text whose key is already taken by another text
is stored under the key with a number after it.
-/
namespace Phrasebook

/-- A stored message. -/
structure Entry where
  /-- The text, with slots as `{name}`. -/
  text : String
  /-- The file it was first found in. -/
  sourceFile : String
  /-- Names of the slots in order of first appearance. -/
  interpolations : List String
deriving DecidableEq, Repr

/-- What makes two messages the same: the text and the set of slot names. -/
structure Signature where
  text : String
  /-- In increasing order. -/
  vars : List String
deriving DecidableEq, Repr

def Signature.of (text : String) (vars : List String) : Signature := ⟨text, Text.sortTexts vars⟩

def Entry.signature (e : Entry) : Signature := .of e.text e.interpolations

/-- A key that was already taken by another text. -/
structure Collision where
  key : String
  existingText : String
  text : String
  /-- The key the new text is stored under. -/
  assignedKey : String
  file : String
deriving DecidableEq, Repr

structure Table where
  /-- In increasing order of their keys. -/
  entries : List (String × Entry) := []
  /-- The key under which a signature is found. -/
  index : List (Signature × String) := []
deriving DecidableEq, Repr

namespace Table

def get? (t : Table) (key : String) : Option Entry := t.entries.lookup key

def contains (t : Table) (key : String) : Bool := (t.get? key).isSome

def keys (t : Table) : List String := t.entries.map (·.1)

def size (t : Table) : Nat := t.entries.length

def isEmpty (t : Table) : Bool := t.entries.isEmpty

def find? (t : Table) (signature : Signature) : Option String := t.index.lookup signature

/-- The first key of a signature is the one it is found under. -/
def putIndex (index : List (Signature × String)) (signature : Signature) (key : String) :
    List (Signature × String) :=
  if (index.lookup signature).isSome then index else index ++ [(signature, key)]

def put (t : Table) (key : String) (entry : Entry) : Table :=
  ⟨Text.putKey key entry t.entries, putIndex t.index entry.signature key⟩

def ofEntries (entries : List (String × Entry)) : Table :=
  entries.foldl (fun t (key, entry) => t.put key entry) {}

/-- The key with the least number from two on that makes it free. -/
def freeKey (t : Table) (key : String) : String :=
  (((List.range (t.size + 1)).map fun i => key ++ "_" ++ toString (i + 2)).find?
    (!t.contains ·)).getD key

/-- Stores an entry under a key, and tells under which key it ended up. -/
def insert (t : Table) (key : String) (entry : Entry) : (String × Option Collision) × Table :=
  match t.get? key with
  | none => ((key, none), t.put key entry)
  | some existing =>
    if existing.signature == entry.signature then
      ((key, none), { t with index := putIndex t.index entry.signature key })
    else
      let assigned := t.freeKey key
      let collision : Collision := ⟨key, existing.text, entry.text, assigned, entry.sourceFile⟩
      ((assigned, some collision), t.put assigned entry)

/-- Takes entries out again. -/
def rollback (t : Table) (keys : List String) : Table where
  entries := t.entries.filter fun (key, _) => !keys.contains key
  index := t.index.filter fun (_, key) => !keys.contains key

/-- The text of each key. -/
def messages (t : Table) : List (String × String) := t.entries.map fun (key, e) => (key, e.text)

end Table

end Phrasebook
