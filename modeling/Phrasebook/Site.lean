import Phrasebook.Sample
import Phrasebook.Script.Node

/-!
Sites: the places of a module where a text can be looked up. A module is walked twice. The first
time its sites are collected; the second time, when their keys are known, they are replaced. Both
walks come by the same sites, so each is found again by its span and kind.
-/
namespace Phrasebook

open Script (Span)

inductive SiteKind where
  /-- A string literal or an attribute. -/
  | literal
  /-- A template literal or a chain of `+`. -/
  | interpolated
  /-- Markup text or a run of markup children. -/
  | markupText
deriving DecidableEq, Repr

def SiteKind.text : SiteKind → String
  | .literal => "literal"
  | .interpolated => "interpolated"
  | .markupText => "markup-text"

/-- The form in which a site is reported when it is left alone. -/
def SiteKind.form : SiteKind → TextForm
  | .literal => .stringLiteral
  | .interpolated => .templateLiteral
  | .markupText => .markupText

structure SiteId where
  span : Span
  kind : SiteKind
deriving DecidableEq, Repr

structure Site where
  id : SiteId
  /-- The message, with slots as `{name}`. -/
  text : String
  /-- Names of the slots in order of first appearance. -/
  vars : List String
  location : Location
  /-- The component the site belongs to. -/
  hint : Option String
deriving DecidableEq, Repr

/-- Decides, with a state of its own, which key a site gets; without one it is left as it is. -/
abbrev Handler (σ : Type) := Site → σ → Option String × σ

/-! ### First walk -/

/-- Sites seen so far, each once. -/
structure Collector where
  sites : List Site := []
deriving DecidableEq, Repr

/-- Every site counts as replaced, under an empty key. -/
def Collector.handler : Handler Collector := fun site c =>
  (some "", if c.sites.any (·.id == site.id) then c else ⟨c.sites ++ [site]⟩)

/-! ### Second walk -/

/-- Keys of sites, at most one for each. -/
abbrev SiteKeys := List (SiteId × String)

namespace SiteKeys

def get? (keys : SiteKeys) (id : SiteId) : Option String := keys.lookup id

def put (keys : SiteKeys) (id : SiteId) (key : String) : SiteKeys :=
  if keys.any (·.1 == id) then keys.map fun (i, k) => if i == id then (i, key) else (i, k)
  else keys ++ [(id, key)]

end SiteKeys

/-- How well the second walk met the sites of the first. -/
structure Integrity where
  /-- Sites that had no key. -/
  unmatched : Nat := 0
  /-- Sites reached more than once. -/
  doubleConsumed : Nat := 0
  /-- Keys whose site was never reached. -/
  unconsumed : Nat := 0
deriving DecidableEq, Repr

def Integrity.isClean (i : Integrity) : Bool := i == {}

structure Applier where
  keys : SiteKeys
  consumed : List SiteId := []
  unmatched : Nat := 0
  doubleConsumed : Nat := 0
  /-- Warnings, in order. -/
  warnings : List String := []
deriving DecidableEq, Repr

namespace Applier

def describe (site : Site) : String := site.id.kind.text ++ " site at " ++ site.location.text

def handler : Handler Applier := fun site a =>
  if a.consumed.contains site.id then
    (none, { a with
      doubleConsumed := a.doubleConsumed + 1
      warnings := a.warnings ++ [describe site ++ " reached twice; second replacement skipped"] })
  else
    let a := { a with consumed := a.consumed ++ [site.id] }
    match a.keys.get? site.id with
    | some key => (some key, a)
    | none =>
      (none, { a with
        unmatched := a.unmatched + 1
        warnings := a.warnings ++ [describe site ++ " has no assigned key; left untouched"] })

def integrity (a : Applier) : Integrity where
  unmatched := a.unmatched
  doubleConsumed := a.doubleConsumed
  unconsumed := (a.keys.filter fun (id, _) => !a.consumed.contains id).length

end Applier

end Phrasebook
