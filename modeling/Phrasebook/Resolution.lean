import Phrasebook.Key
import Phrasebook.Site
import Phrasebook.Table

/-!
Keys for the sites of a file. Sites with the same signature share a key. Texts that are not in the
table yet are sent to the generator together, and stored.
-/
namespace Phrasebook

structure Resolution where
  keys : SiteKeys := []
  /-- Sites whose key was there already, in the table or from an earlier site. -/
  reused : Nat := 0
  collisions : List Collision := []
  /-- Keys that were added to the table, in order. -/
  inserted : List String := []
deriving DecidableEq, Repr

def Site.signature (s : Site) : Signature := .of s.text s.vars

/-- Sites sorted by what they need: a known key, or a new one. -/
structure Demand where
  known : SiteKeys := []
  /-- The first site of each new signature. -/
  pending : List Site := []
  /-- Sites that wait for a new key, with its place in `pending`. -/
  waiting : List (SiteId × Nat) := []
  reused : Nat := 0
deriving DecidableEq, Repr

namespace Demand

def add (t : Table) (d : Demand) (site : Site) : Demand :=
  match t.find? site.signature with
  | some key => { d with known := d.known.put site.id key, reused := d.reused + 1 }
  | none =>
    match d.pending.findIdx? (·.signature == site.signature) with
    | some i => { d with waiting := d.waiting ++ [(site.id, i)], reused := d.reused + 1 }
    | none =>
      { d with
        waiting := d.waiting ++ [(site.id, d.pending.length)]
        pending := d.pending ++ [site] }

def of (t : Table) (sites : List Site) : Demand := sites.foldl (add t) {}

def requests (d : Demand) (file : FileInfo) : List KeyRequest :=
  d.pending.map fun site => ⟨site.text, file, site.hint⟩

end Demand

/-- New keys as they are stored one after another. -/
structure Storing where
  table : Table
  collisions : List Collision := []
  inserted : List String := []
  /-- The key of each pending site. -/
  assigned : List String := []
deriving DecidableEq, Repr

def Storing.add (file : FileInfo) (st : Storing) (site : Site) (key : String) : Storing :=
  let isFresh := !st.table.contains key
  match st.table.insert key ⟨site.text, file.path, site.vars⟩ with
  | ((key, collision), table) =>
    { table
      collisions := st.collisions ++ collision.toList
      inserted := if collision.isSome || isFresh then st.inserted ++ [key] else st.inserted
      assigned := st.assigned ++ [key] }

def Storing.addAll (file : FileInfo) (st : Storing) (sites : List (Site × String)) : Storing :=
  sites.foldl (fun st (site, key) => st.add file site key) st

/-- Gives every waiting site the key that its signature got. -/
def Demand.settle (d : Demand) (assigned : List String) : SiteKeys :=
  d.waiting.foldl (fun keys (id, i) => keys.put id (assigned.getD i "")) d.known

/-- Finds or makes the keys of a file's sites. The table changes only if the generator succeeds. -/
def resolve {γ : Type} (sites : List Site) (file : FileInfo) (generate : KeyGenerator γ)
    (table : Table) (state : γ) : Except KeyFault (Resolution × Table) × γ :=
  let d := Demand.of table sites
  if d.pending.isEmpty then (.ok (⟨d.known, d.reused, [], []⟩, table), state)
  else
    match generate (d.requests file) state with
    | (.error reason, state) => (.error (.failed reason), state)
    | (.ok keys, state) =>
      if keys.length == d.pending.length then
        let st := Storing.addAll file { table } (d.pending.zip keys)
        (.ok (⟨d.settle st.assigned, d.reused, st.collisions, st.inserted⟩, st.table), state)
      else (.error (.wrongCount keys.length d.pending.length), state)

end Phrasebook
