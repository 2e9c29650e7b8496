import Phrasebook.Proofs.Frames

/-!
A walk closes what it opens. An expression leaves frames, scopes, components and classes as they
were. A visit appends edits to the innermost frame and leaves the rest; which edits these are does
not depend on the frames around, so they are those that the visit would leave in a frame of its own.
-/
namespace Phrasebook

open Script Outline

variable {σ : Type}

namespace Walk

/-- The walk with other edits around it. -/
def onFrames (w : Walk σ) (frames : List (List Edit)) : Walk σ :=
  { w with place := { w.place with frames } }

variable (s : Setting) (handle : Handler σ)

/-- The edits that a visit leaves in a frame of its own. -/
def editsOf (w : Walk σ) (visit : List Step) : List Edit :=
  (w.openFrame.steps s handle visit).place.closeFrame.1

/-! ### Single moves on other frames -/

variable (w : Walk σ) (frames : List (List Edit))

theorem onFrames_self : w.onFrames w.place.frames = w := rfl

theorem openFrame_onFrames : (w.onFrames frames).openFrame = w.onFrames ([] :: frames) := rfl

theorem enter_onFrames (scope : Scope) :
    (w.onFrames frames).enter scope = (w.enter scope).onFrames frames := rfl

theorem addEdits_addEdits (xs ys : List Edit) :
    (w.addEdits xs).addEdits ys = w.addEdits (xs ++ ys) := by
  simp only [addEdits, Place.addEdits_addEdits]

theorem addEdits_nil : w.addEdits [] = w := by
  simp [addEdits]

/-- Frames with more edits in the innermost one are frames, too. -/
theorem exists_onFrames_addEdits (edits : List Edit) :
    ∃ more, ∀ u : Walk σ, (u.onFrames frames).addEdits edits = u.onFrames more :=
  ⟨(Place.addEdits { frames } edits).frames, fun _ => rfl⟩

theorem closeFrame_addEdits (span : Span) (edits : List Edit) :
    ((w.onFrames ([] :: frames)).addEdits edits).closeFrame s span =
      (spliced s span edits, w.onFrames frames) := rfl

theorem finish_onFrames (kind : SiteKind) (span : Span) (bound : Bound) :
    (w.onFrames frames).finish s handle kind span bound =
      ((w.finish s handle kind span bound).1,
        (w.finish s handle kind span bound).2.onFrames frames) := by
  have hsite : (w.onFrames frames).siteAt s = w.siteAt s := rfl
  have hshadowed : (w.onFrames frames).place.shadowed = w.place.shadowed := rfl
  have hhandler : (w.onFrames frames).handler = w.handler := rfl
  unfold finish ask
  rw [hsite, hshadowed, hhandler]
  by_cases hs : 0 < w.place.shadowed
  · simp only [hs, if_true]
    rfl
  · simp only [hs, if_false]
    cases handle (w.siteAt s kind span bound.text bound.names.names) w.handler with
    | mk key h => cases key <;> rfl

theorem addBinding_onFrames (before : Walk σ) (edits : List Edit) (name : String) (pos : Nat) :
    ((w.onFrames frames).addEdits edits).addBinding s (before.onFrames frames) name pos =
      ((w.addBinding s before name pos).onFrames frames).addEdits edits := by
  have hdepth : (before.onFrames frames).place.runtimeDepth = before.place.runtimeDepth := rfl
  have hkeys : ((w.onFrames frames).addEdits edits).eagerKeys = w.eagerKeys := rfl
  have hbefore : (before.onFrames frames).eagerKeys = before.eagerKeys := rfl
  unfold addBinding
  rw [hdepth, hkeys, hbefore]
  split
  · cases w.eagerKeys[before.eagerKeys.length]? <;> rfl
  · rfl

/-! ### Values and visits on other frames -/

/-- Whatever the frames around are, the innermost one gets the same edits. -/
def Appends (next : Walk σ → Walk σ) (w : Walk σ) : Prop :=
  ∃ edits, ∀ frames, next (w.onFrames frames) = ((next w).onFrames frames).addEdits edits

theorem Appends.comp {first rest : Walk σ → Walk σ} {w : Walk σ} (hfirst : Appends first w)
    (hrest : Appends rest (first w)) : Appends (fun w => rest (first w)) w := by
  obtain ⟨edits, hfirst⟩ := hfirst
  obtain ⟨others, hrest⟩ := hrest
  refine ⟨edits ++ others, fun frames => ?_⟩
  obtain ⟨more, hmore⟩ := exists_onFrames_addEdits (σ := σ) frames edits
  simp only [hfirst, hmore, hrest]
  rw [← hmore, addEdits_addEdits]

mutual

theorem value_onFrames (w : Walk σ) : ∀ (v : Value) (frames : List (List Edit)),
    (w.onFrames frames).value s handle v =
      ((w.value s handle v).1, (w.value s handle v).2.onFrames frames)
  | .notes _, _ | .abort _, _ => rfl
  | .message kind span parts slots, frames => by
    simp only [value, values_onFrames w slots frames, finish_onFrames]
    cases (w.values s handle slots).2.finish s handle kind span
        (Bound.fill s.source {} parts (w.values s handle slots).1) with
    | mk result after => cases result <;> rfl
  | .rebuild span body, frames => by
    obtain ⟨edits, hbody⟩ := steps_onFrames w body
    have hclose (frames : List (List Edit)) :
        (w.onFrames frames).value s handle (.rebuild span body) =
          (spliced s span edits, (w.steps s handle body).onFrames frames) := by
      simp only [value, openFrame_onFrames, hbody]
      exact closeFrame_addEdits s _ frames span edits
    have hown := hclose w.place.frames
    rw [onFrames_self] at hown
    rw [hclose, hown]
    rfl
  | .scope scope body, frames => by
    simp only [value, enter_onFrames, value_onFrames (w.enter scope) body frames]
    rfl

theorem values_onFrames (w : Walk σ) : ∀ (vs : List Value) (frames : List (List Edit)),
    (w.onFrames frames).values s handle vs =
      ((w.values s handle vs).1, (w.values s handle vs).2.onFrames frames)
  | [], _ => rfl
  | v :: vs, frames => by
    simp only [values, value_onFrames w v frames, values_onFrames _ vs frames]

theorem step_onFrames (w : Walk σ) : ∀ x : Step, Appends (fun w => w.step s handle x) w
  | .notes _ => ⟨[], fun _ => (addEdits_nil _).symm⟩
  | .replace span v => ⟨_, fun frames => by
      simp only [step, value_onFrames w v frames]
      rfl⟩
  | .braced kind span leading trailing parts slots => by
    simp only [Appends, step, values_onFrames w slots, finish_onFrames]
    cases (w.values s handle slots).2.finish s handle kind span
        (Bound.fill s.source {} parts (w.values s handle slots).1) with
    | mk result after =>
      cases result with
      | ok x => exact ⟨_, fun _ => rfl⟩
      | error edits => exact ⟨edits, fun _ => rfl⟩
  | .property key span isArray v => by
    have hdepth (frames : List (List Edit)) :
        (w.onFrames frames).place.runtimeDepth = w.place.runtimeDepth := rfl
    simp only [Appends, step, hdepth]
    split
    · exact ⟨_, fun frames => by
        simp only [value_onFrames w v frames]
        rfl⟩
    · simp only [enter_onFrames, value_onFrames (w.enter { isRuntime := true }) v]
      cases ((w.enter { isRuntime := true }).value s handle v).1 with
      | none => exact ⟨[], fun _ => (addEdits_nil _).symm⟩
      | some x => exact ⟨_, fun _ => rfl⟩
  | .scope scope body => by
    obtain ⟨edits, hbody⟩ := steps_onFrames (w.enter scope) body
    refine ⟨edits, fun frames => ?_⟩
    simp only [step, enter_onFrames, hbody]
    rfl
  | .binding name pos body => by
    obtain ⟨edits, hbody⟩ := steps_onFrames w body
    refine ⟨edits, fun frames => ?_⟩
    simp only [step, hbody, addBinding_onFrames]
  | .staticField key pos body => by
    obtain ⟨edits, hbody⟩ := steps_onFrames w body
    have hname (frames : List (List Edit)) : (w.onFrames frames).fieldName key = w.fieldName key :=
      rfl
    refine ⟨edits, fun frames => ?_⟩
    simp only [step, hbody, hname, addBinding_onFrames]

theorem steps_onFrames (w : Walk σ) : ∀ xs : List Step, Appends (fun w => w.steps s handle xs) w
  | [] => ⟨[], fun _ => (addEdits_nil _).symm⟩
  | x :: xs => (step_onFrames w x).comp (steps_onFrames (w.step s handle x) xs)

end

/-- What a visit adds to the innermost frame is what it leaves in a frame of its own. -/
theorem steps_place (w : Walk σ) (visit : List Step) :
    (w.steps s handle visit).place = w.place.addEdits (w.editsOf s handle visit) := by
  obtain ⟨edits, hvisit⟩ := steps_onFrames s handle w visit
  obtain ⟨⟨others, hplace, -⟩, -⟩ := steps_adds s handle w visit
  have hown : w.editsOf s handle visit = edits :=
    congrArg (fun u => u.place.closeFrame.1) (hvisit ([] :: w.place.frames))
  calc (w.steps s handle visit).place
      = ((w.steps s handle visit).onFrames w.place.frames).place.addEdits edits :=
        congrArg Walk.place (hvisit w.place.frames)
    _ = w.place.addEdits edits := by
        rw [onFrames, hplace]
        rfl
    _ = w.place.addEdits (w.editsOf s handle visit) := by rw [hown]

end Walk

/-- From any state and with any handler: an expression at any depth leaves the frames, with all the
edits in them, the number of functions and of scopes that hide the lookup function, the components
and the classes exactly as they were, and so do the slots of a message. A visit, whatever its steps
are, leaves them as they were but for edits appended to the innermost frame, the same ones as in a
frame of its own. -/
theorem walk_restores_place (s : Setting) (handle : Handler σ) (w : Walk σ) :
    (∀ (n : Node) (depth : Nat),
      (w.value s handle ((s.viewsOf n).expr depth)).2.place = w.place ∧
      (w.values s handle ((s.viewsOf n).slots depth)).2.place = w.place) ∧
    ∀ visit : List Step,
      (w.steps s handle visit).place = w.place.addEdits (w.editsOf s handle visit) := by
  refine ⟨fun n depth => ⟨?_, ?_⟩, w.steps_place s handle⟩
  · exact (w.value_keeps s handle _).place
  · exact (w.values_keeps s handle _).place

end Phrasebook
