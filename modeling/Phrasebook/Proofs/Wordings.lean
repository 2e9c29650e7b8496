import Phrasebook.Proofs.SiteTrace

/-!
The wordings of an outline: every text in it that a lookup may replace, wherever it stands. The
sites of a module are some of them, in the same order; the others lie where the lookup function is
hidden.
-/
namespace Phrasebook

open Script Outline

namespace Outline

/-- A text that a lookup may replace: where it stands and what it is made of. -/
structure Wording where
  kind : SiteKind
  span : Span
  parts : List Part

def Wording.id (m : Wording) : SiteId := ⟨m.span, m.kind⟩

mutual

/-- The wordings of an expression in the order of the walk; slots come before their message. -/
def Value.wordings : Value → List Wording
  | .notes _ | .abort _ => []
  | .message kind span parts slots => valuesWordings slots ++ [⟨kind, span, parts⟩]
  | .rebuild _ body => stepsWordings body
  | .scope _ body => body.wordings

def valuesWordings : List Value → List Wording
  | [] => []
  | v :: vs => v.wordings ++ valuesWordings vs

def Step.wordings : Step → List Wording
  | .notes _ => []
  | .replace _ v | .property _ _ _ v => v.wordings
  | .braced kind span _ _ parts slots => valuesWordings slots ++ [⟨kind, span, parts⟩]
  | .scope _ body | .binding _ _ body | .staticField _ _ body => stepsWordings body

def stepsWordings : List Step → List Wording
  | [] => []
  | x :: xs => x.wordings ++ stepsWordings xs

end

theorem valuesWordings_eq (vs : List Value) : valuesWordings vs = vs.flatMap Value.wordings := by
  induction vs with
  | nil => rfl
  | cons v vs ih => rw [valuesWordings, ih, List.flatMap_cons]

theorem stepsWordings_eq (xs : List Step) : stepsWordings xs = xs.flatMap Step.wordings := by
  induction xs with
  | nil => rfl
  | cons x xs ih => rw [stepsWordings, ih, List.flatMap_cons]

end Outline

/-- What a site says, and where. -/
def Site.said (site : Site) : SiteId × String × List String := (site.id, site.text, site.vars)

namespace Setting

variable (s : Setting)

/-- What the site of a wording says. -/
def said (m : Wording) : SiteId × String × List String :=
  let bound := Bound.fill s.source {} m.parts []
  (m.id, bound.text, bound.names.names)

theorem messageSites_said (a : Surroundings) (kind : SiteKind) (span : Span) (parts : List Part) :
    ((s.messageSites a kind span parts).map Site.said).Sublist [s.said ⟨kind, span, parts⟩] := by
  unfold messageSites
  split
  · exact List.nil_sublist _
  · exact List.Sublist.refl _

mutual

theorem valueSites_said (a : Surroundings) : ∀ v : Value,
    ((s.valueSites a v).map Site.said).Sublist (v.wordings.map s.said)
  | .notes _ | .abort _ => List.nil_sublist _
  | .message kind span parts slots => by
    simp only [valueSites, Value.wordings, List.map_append]
    exact (valuesSites_said a slots).append (messageSites_said s a kind span parts)
  | .rebuild _ body => stepsSites_said a body
  | .scope scope body => valueSites_said (a.enter scope) body

theorem valuesSites_said (a : Surroundings) : ∀ vs : List Value,
    ((s.valuesSites a vs).map Site.said).Sublist ((valuesWordings vs).map s.said)
  | [] => List.nil_sublist _
  | v :: vs => by
    simp only [valuesSites, valuesWordings, List.map_append]
    exact (valueSites_said a v).append (valuesSites_said a vs)

theorem stepSites_said (a : Surroundings) : ∀ x : Step,
    ((s.stepSites a x).map Site.said).Sublist (x.wordings.map s.said)
  | .notes _ => List.nil_sublist _
  | .replace _ v | .property _ _ _ v => valueSites_said a v
  | .braced kind span _ _ parts slots => by
    simp only [stepSites, Step.wordings, List.map_append]
    exact (valuesSites_said a slots).append (messageSites_said s a kind span parts)
  | .scope scope body => stepsSites_said (a.enter scope) body
  | .binding _ _ body | .staticField _ _ body => stepsSites_said a body

theorem stepsSites_said (a : Surroundings) : ∀ xs : List Step,
    ((s.stepsSites a xs).map Site.said).Sublist ((stepsWordings xs).map s.said)
  | [] => List.nil_sublist _
  | x :: xs => by
    simp only [stepsSites, stepsWordings, List.map_append]
    exact (stepSites_said a x).append (stepsSites_said a xs)

end

theorem outlineSites_said :
    (s.outlineSites.map Site.said).Sublist ((stepsWordings s.outline).map s.said) :=
  stepsSites_said s {} s.outline

end Setting

end Phrasebook
