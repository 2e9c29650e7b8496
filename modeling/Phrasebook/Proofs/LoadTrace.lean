import Phrasebook.Proofs.Agreement
import Phrasebook.Proofs.Frames

/-!
What happens while a module is loaded, read off its outline without walking. A site is offered while
the module is loaded or later, and a binding that is met while the module is loaded covers a stretch
of the offers. Every walk reports of these bindings exactly those for which its handler gives out a
key at once, each with the first such key.
-/
namespace Phrasebook

open Script Outline

variable {σ : Type}

/-- A site that is offered. -/
structure Offer where
  site : Site
  /-- The code there runs while the module is loaded. -/
  isLoad : Bool
deriving DecidableEq, Repr

/-- A binding that is met while the module is loaded, with the stretch of the offers inside it. -/
structure Tracked where
  name : String
  pos : Nat
  start : Nat
  count : Nat
deriving DecidableEq, Repr

/-- What the code around decides. -/
structure Scene where
  isLoad : Bool := true
  around : Surroundings := {}
  /-- Classes around, innermost first. -/
  classes : List String := []

def Scene.enter (c : Scene) (scope : Scope) : Scene where
  isLoad := c.isLoad && !scope.isRuntime
  around := c.around.enter scope
  classes := scope.className.toList ++ c.classes

theorem Scene.enter_nothing (c : Scene) : c.enter {} = c := by
  simp [enter, Surroundings.enter]

/-! ### Traces -/

/-- Offers and bindings in the order in which they come to an end. -/
@[ext]
structure Trace where
  offers : List Offer
  bindings : List Tracked
  within : ∀ b ∈ bindings, b.start + b.count ≤ offers.length

def Tracked.shift (n : Nat) (b : Tracked) : Tracked := { b with start := n + b.start }

namespace Trace

def empty : Trace := ⟨[], [], fun _ h => absurd h List.not_mem_nil⟩

def ofSites (isLoad : Bool) (sites : List Site) : Trace :=
  ⟨sites.map (⟨·, isLoad⟩), [], fun _ h => absurd h List.not_mem_nil⟩

def append (t u : Trace) : Trace where
  offers := t.offers ++ u.offers
  bindings := t.bindings ++ u.bindings.map (·.shift t.offers.length)
  within := by
    intro b hb
    rw [List.length_append]
    rcases List.mem_append.mp hb with hb | hb
    · have := t.within b hb
      omega
    · obtain ⟨inner, hinner, rfl⟩ := List.mem_map.mp hb
      have := u.within inner hinner
      simp only [Tracked.shift]
      omega

instance : Append Trace := ⟨append⟩

/-- A binding around the whole trace. -/
def bound (t : Trace) (name : String) (pos : Nat) : Trace where
  offers := t.offers
  bindings := t.bindings ++ [⟨name, pos, 0, t.offers.length⟩]
  within := by
    intro b hb
    rcases List.mem_append.mp hb with hb | hb
    · exact t.within b hb
    · rw [List.mem_singleton.mp hb]
      simp

variable (t u : Trace) (name : String) (pos : Nat)

@[simp]
theorem offers_ofSites (isLoad : Bool) (sites : List Site) :
    (ofSites isLoad sites).offers = sites.map (⟨·, isLoad⟩) := rfl

@[simp]
theorem bindings_ofSites (isLoad : Bool) (sites : List Site) :
    (ofSites isLoad sites).bindings = [] := rfl

@[simp]
theorem offers_append : (t ++ u).offers = t.offers ++ u.offers := rfl

@[simp]
theorem bindings_append :
    (t ++ u).bindings = t.bindings ++ u.bindings.map (·.shift t.offers.length) := rfl

@[simp]
theorem offers_bound : (t.bound name pos).offers = t.offers := rfl

@[simp]
theorem bindings_bound :
    (t.bound name pos).bindings = t.bindings ++ [⟨name, pos, 0, t.offers.length⟩] := rfl

@[simp]
theorem append_empty : t ++ empty = t := by
  apply Trace.ext
  · simp [empty]
  · simp [empty]

end Trace

namespace Setting

variable (s : Setting)

/-- A binding counts if it is met while the module is loaded. -/
def boundIn (c : Scene) (name : String) (pos : Nat) (t : Trace) : Trace :=
  if c.isLoad then t.bound name pos else t

def messageTrace (c : Scene) (kind : SiteKind) (span : Span) (parts : List Part) : Trace :=
  .ofSites c.isLoad (s.messageSites c.around kind span parts)

mutual

def valueTrace (c : Scene) : Value → Trace
  | .notes _ | .abort _ => .empty
  | .message kind span parts slots => valuesTrace c slots ++ s.messageTrace c kind span parts
  | .rebuild _ body => stepsTrace c body
  | .scope scope body => valueTrace (c.enter scope) body

def valuesTrace (c : Scene) : List Value → Trace
  | [] => .empty
  | v :: vs => valueTrace c v ++ valuesTrace c vs

/-- The value of a property is looked up later, by a getter at the latest. -/
def stepTrace (c : Scene) : Step → Trace
  | .notes _ => .empty
  | .replace _ v => valueTrace c v
  | .property _ _ _ v => valueTrace (c.enter { isRuntime := true }) v
  | .braced kind span _ _ parts slots => valuesTrace c slots ++ s.messageTrace c kind span parts
  | .scope scope body => stepsTrace (c.enter scope) body
  | .binding name pos body => boundIn c name pos (stepsTrace c body)
  | .staticField key pos body =>
    boundIn c (c.classes.headD "class" ++ "." ++ key) pos (stepsTrace c body)

def stepsTrace (c : Scene) : List Step → Trace
  | [] => .empty
  | x :: xs => stepTrace c x ++ stepsTrace c xs

end

/-- What happens in the module. -/
def trace : Trace := s.stepsTrace {} s.outline

end Setting

/-! ### Handlers along a trace -/

/-- The offers with the keys that they get, one after another. -/
def Handler.log (handle : Handler σ) : List Offer → σ → List (Offer × Option String)
  | [], _ => []
  | o :: rest, h => (o, (handle o.site h).1) :: log handle rest (handle o.site h).2

/-- The state after all offers. -/
def Handler.after (handle : Handler σ) (offers : List Offer) (h : σ) : σ :=
  offers.foldl (fun h o => (handle o.site h).2) h

theorem Handler.log_append (handle : Handler σ) (xs ys : List Offer) (h : σ) :
    handle.log (xs ++ ys) h = handle.log xs h ++ handle.log ys (handle.after xs h) := by
  induction xs generalizing h with
  | nil => rfl
  | cons o xs ih => simp [log, ih, after]

theorem Handler.after_append (handle : Handler σ) (xs ys : List Offer) (h : σ) :
    handle.after (xs ++ ys) h = handle.after ys (handle.after xs h) := List.foldl_append

@[simp]
theorem Handler.length_log (handle : Handler σ) (xs : List Offer) (h : σ) :
    (handle.log xs h).length = xs.length := by
  induction xs generalizing h with
  | nil => rfl
  | cons o xs ih => simp [log, ih]

/-- Keys that are given out while the module is loaded. -/
def loadKeys (log : List (Offer × Option String)) : List String :=
  log.filterMap fun (o, key) => if o.isLoad then key else none

namespace Tracked

variable (b : Tracked) {before after : List (Offer × Option String)}

/-- The first key that is given out inside the binding while the module is loaded. -/
def firstKey (log : List (Offer × Option String)) : Option String :=
  (loadKeys ((log.drop b.start).take b.count)).head?

theorem firstKey_append (h : b.start + b.count ≤ before.length) :
    b.firstKey (before ++ after) = b.firstKey before := by
  have hstart : b.start ≤ before.length := by omega
  have hcount : b.count ≤ (before.drop b.start).length := by
    rw [List.length_drop]
    omega
  rw [firstKey, firstKey, List.drop_append_of_le_length hstart,
    List.take_append_of_le_length hcount]

theorem firstKey_shift : (b.shift before.length).firstKey (before ++ after) = b.firstKey after := by
  rw [firstKey, firstKey, shift, List.drop_length_add_append]

end Tracked

namespace Trace

variable (s : Setting) (t u : Trace)

/-- What is reported of the bindings if the offers get the keys of the log. -/
def deferred (log : List (Offer × Option String)) : List DeferredBinding :=
  t.bindings.filterMap fun b => (b.firstKey log).map fun key => ⟨b.name, key, s.location b.pos⟩

theorem deferred_append {before after : List (Offer × Option String)}
    (h : before.length = t.offers.length) :
    (t ++ u).deferred s (before ++ after) = t.deferred s before ++ u.deferred s after := by
  simp only [deferred, bindings_append, List.filterMap_append, List.filterMap_map]
  congr 1
  · refine List.filterMap_congr fun b hb => ?_
    rw [b.firstKey_append (h ▸ t.within b hb)]
  · refine List.filterMap_congr fun b _ => ?_
    simp only [Function.comp_apply, ← h, b.firstKey_shift]
    rfl

theorem deferred_bound (name : String) (pos : Nat) (log : List (Offer × Option String)) :
    (t.bound name pos).deferred s log = t.deferred s log ++
      ((Tracked.firstKey ⟨name, pos, 0, t.offers.length⟩ log).map
        fun key => ⟨name, key, s.location pos⟩).toList := by
  rw [deferred, bindings_bound, List.filterMap_append, deferred]
  cases h : Tracked.firstKey ⟨name, pos, 0, t.offers.length⟩ log <;> simp [h]

end Trace

/-! ### Walks -/

def Place.scene (p : Place) : Scene := ⟨p.runtimeDepth == 0, p.around, p.classes⟩

theorem Place.scene_enter (p : Place) (scope : Scope) :
    (p.enter scope).scene = p.scene.enter scope := by
  cases h : scope.isRuntime <;> simp [scene, enter, Scene.enter, Surroundings.enter, around, h]

theorem Walk.scene_enter (w : Walk σ) (scope : Scope) :
    (w.enter scope).place.scene = w.place.scene.enter scope := w.place.scene_enter scope

theorem Place.scene_addEdits (p : Place) (edits : List Edit) :
    (p.addEdits edits).scene = p.scene := rfl

namespace Walk

variable {s : Setting} {handle : Handler σ} {w w' w'' : Walk σ} {t u : Trace}

/-- From `w` to `w'` a walk has followed the trace: its handler has seen the offers, and it has kept
account of keys and bindings. -/
structure Follows (s : Setting) (handle : Handler σ) (t : Trace) (w w' : Walk σ) : Prop where
  handler : w'.handler = handle.after t.offers w.handler
  eagerKeys : w'.eagerKeys = w.eagerKeys ++ loadKeys (handle.log t.offers w.handler)
  deferred : w'.report.deferred =
    w.report.deferred ++ t.deferred s (handle.log t.offers w.handler)

namespace Follows

theorem quiet (hh : w'.handler = w.handler) (hk : w'.eagerKeys = w.eagerKeys)
    (hd : w'.report.deferred = w.report.deferred) : Follows s handle .empty w w' :=
  ⟨hh, by simp [hk, Trace.empty, Handler.log, loadKeys], by simp [hd, Trace.empty, Trace.deferred]⟩

theorem trans (h : Follows s handle t w w') (h' : Follows s handle u w' w'') :
    Follows s handle (t ++ u) w w'' := by
  constructor
  · rw [h'.handler, h.handler, Trace.offers_append, Handler.after_append]
  · rw [h'.eagerKeys, h.eagerKeys, h.handler, Trace.offers_append, Handler.log_append,
      List.append_assoc, loadKeys, loadKeys, loadKeys, List.filterMap_append]
  · rw [h'.deferred, h.deferred, h.handler, Trace.offers_append, Handler.log_append,
      Trace.deferred_append s t u (by simp), List.append_assoc]

/-- What is done after the last offer does not show. -/
theorem congr (h : Follows s handle t w w') (hh : w''.handler = w'.handler)
    (hk : w''.eagerKeys = w'.eagerKeys) (hd : w''.report.deferred = w'.report.deferred) :
    Follows s handle t w w'' :=
  ⟨hh.trans h.handler, hk.trans h.eagerKeys, hd.trans h.deferred⟩

theorem leave {scope : Scope} (h : Follows s handle t (w.enter scope) w') :
    Follows s handle t w (w'.leave scope) :=
  ⟨h.handler, h.eagerKeys, h.deferred⟩

theorem addExtraction (h : Follows s handle t w w') (span : Span) (x : Option Extraction) :
    Follows s handle t w (w'.addExtraction span x) :=
  h.congr rfl rfl rfl

theorem addAccessor (h : Follows s handle t w w') (key value : Span) (isArray : Bool)
    (x : Option Extraction) : Follows s handle t w (w'.addAccessor s key value isArray x) := by
  cases x <;> exact h.congr rfl rfl rfl

/-- The keys that a binding finds after its body are those given out inside it. -/
theorem addBinding (h : Follows s handle t w w') (name : String) (pos : Nat) :
    Follows s handle (Setting.boundIn w.place.scene name pos t) w
      (w'.addBinding s w name pos) := by
  unfold Setting.boundIn Walk.addBinding
  by_cases hload : w.place.runtimeDepth = 0
  · have hkey : w'.eagerKeys[w.eagerKeys.length]? =
        (⟨name, pos, 0, t.offers.length⟩ : Tracked).firstKey (handle.log t.offers w.handler) := by
      rw [h.eagerKeys, List.getElem?_append_right (Nat.le_refl _), Nat.sub_self,
        ← List.head?_eq_getElem?, Tracked.firstKey, List.drop_zero, List.take_of_length_le (by simp)]
    have hbound := t.deferred_bound s name pos (handle.log t.offers w.handler)
    rw [← hkey] at hbound
    simp only [Place.scene, hload, beq_self_eq_true, if_true]
    split
    · rename_i key hfound
      refine ⟨h.handler, h.eagerKeys, ?_⟩
      rw [Trace.offers_bound, hbound, hfound, ← List.append_assoc, ← h.deferred]
      rfl
    · rename_i hnone
      refine ⟨h.handler, h.eagerKeys, ?_⟩
      rw [Trace.offers_bound, hbound, hnone, ← List.append_assoc, ← h.deferred]
      simp
  · simp only [Place.scene, beq_eq_false_iff_ne.mpr hload, Bool.false_eq_true, if_false]
    exact h

end Follows

variable (s handle)

theorem finish_follows (w : Walk σ) (kind : SiteKind) (span : Span) (parts : List Part)
    (xs : List (Option Extraction)) :
    Follows s handle (s.messageTrace w.place.scene kind span parts) w
      (w.finish s handle kind span (Bound.fill s.source {} parts xs)).2 := by
  have hfill := Bound.fill_alike s.source parts (.refl {}) xs []
  unfold finish ask Setting.messageTrace Setting.messageSites
  by_cases hs : 0 < w.place.shadowed
  · simp only [Place.scene, Place.around, hs, if_true]
    exact .quiet rfl rfl rfl
  · simp only [Place.scene, Place.around, hs, if_false, siteAt, hfill.text, hfill.names]
    cases hk : handle _ w.handler with
    | mk key h =>
      cases key with
      | none =>
        refine ⟨?_, ?_, ?_⟩
        · simp [Handler.after, hk]
        · simp [Handler.log, hk, loadKeys]
        · simp [Trace.deferred]
      | some key =>
        refine ⟨?_, ?_, ?_⟩
        · simp [Handler.after, hk, addKey]
        · by_cases hload : w.place.runtimeDepth = 0 <;>
            simp [Handler.log, hk, loadKeys, addKey, hload]
        · simp [Trace.deferred, addKey]

theorem value_scene (w : Walk σ) (v : Value) :
    (w.value s handle v).2.place.scene = w.place.scene := by
  rw [(value_keeps s handle w v).place]

theorem values_scene (w : Walk σ) (vs : List Value) :
    (w.values s handle vs).2.place.scene = w.place.scene := by
  rw [(values_keeps s handle w vs).place]

theorem step_scene (w : Walk σ) (x : Step) :
    (w.step s handle x).place.scene = w.place.scene := by
  obtain ⟨⟨edits, hplace, -⟩, -⟩ := step_adds s handle w x
  rw [hplace, Place.scene_addEdits]

-- The recursion is that of the walk itself, so each form of value and step is one case.
mutual

theorem value_follows (w : Walk σ) : ∀ v : Value,
    Follows s handle (s.valueTrace w.place.scene v) w (w.value s handle v).2
  | .notes _ => by
    simp only [value, Setting.valueTrace]
    exact .quiet rfl rfl rfl
  | .abort _ => by
    simp only [value, Setting.valueTrace]
    exact .quiet rfl rfl rfl
  | .message kind span parts slots => by
    have hslots := values_follows w slots
    have hmessage := finish_follows s handle (w.values s handle slots).2 kind span parts
      (w.values s handle slots).1
    rw [values_scene] at hmessage
    simp only [value, Setting.valueTrace]
    split <;> rename_i heq <;> rw [heq] at hmessage <;> exact hslots.trans hmessage
  | .rebuild span body => by
    have hbody := steps_follows w.openFrame body
    simp only [value, Setting.valueTrace]
    exact ⟨hbody.handler, hbody.eagerKeys, hbody.deferred⟩
  | .scope scope body => by
    have hbody := value_follows (w.enter scope) body
    rw [scene_enter] at hbody
    simp only [value, Setting.valueTrace]
    exact hbody.leave

theorem values_follows (w : Walk σ) : ∀ vs : List Value,
    Follows s handle (s.valuesTrace w.place.scene vs) w (w.values s handle vs).2
  | [] => .quiet rfl rfl rfl
  | v :: vs => by
    have hv := value_follows w v
    have hvs := values_follows (w.value s handle v).2 vs
    rw [value_scene] at hvs
    simp only [values, Setting.valuesTrace]
    exact hv.trans hvs

theorem step_follows (w : Walk σ) : ∀ x : Step,
    Follows s handle (s.stepTrace w.place.scene x) w (w.step s handle x)
  | .notes _ => by
    simp only [step, Setting.stepTrace]
    exact .quiet rfl rfl rfl
  | .replace span v => by
    simp only [step, Setting.stepTrace]
    exact (value_follows w v).addExtraction span _
  | .braced kind span leading trailing parts slots => by
    have hslots := values_follows w slots
    have hmessage := finish_follows s handle (w.values s handle slots).2 kind span parts
      (w.values s handle slots).1
    rw [values_scene] at hmessage
    simp only [step, Setting.stepTrace]
    split <;> rename_i heq <;> rw [heq] at hmessage
    · exact (hslots.trans hmessage).addExtraction _ _
    · exact (hslots.trans hmessage).congr rfl rfl rfl
  | .property key span isArray v => by
    simp only [step, Setting.stepTrace]
    split
    · rename_i hruntime
      -- where code runs later already, there is nothing more to enter
      have hscene : w.place.scene.enter { isRuntime := true } = w.place.scene := by
        simp only [Place.scene, Scene.enter, Surroundings.enter, Place.around]
        simp [Nat.ne_of_gt hruntime]
      rw [hscene]
      exact (value_follows w v).addExtraction span _
    · have hv := value_follows (w.enter { isRuntime := true }) v
      rw [scene_enter] at hv
      exact hv.leave.addAccessor key span isArray _
  | .scope scope body => by
    have hbody := steps_follows (w.enter scope) body
    rw [scene_enter] at hbody
    simp only [step, Setting.stepTrace]
    exact hbody.leave
  | .binding name pos body => by
    simp only [step, Setting.stepTrace]
    exact (steps_follows w body).addBinding name pos
  | .staticField key pos body => by
    simp only [step, Setting.stepTrace]
    exact (steps_follows w body).addBinding _ pos

theorem steps_follows (w : Walk σ) : ∀ xs : List Step,
    Follows s handle (s.stepsTrace w.place.scene xs) w (w.steps s handle xs)
  | [] => .quiet rfl rfl rfl
  | x :: xs => by
    have hx := step_follows w x
    have hxs := steps_follows (w.step s handle x) xs
    rw [step_scene] at hxs
    simp only [steps, Setting.stepsTrace]
    exact hx.trans hxs

end

end Walk

namespace Setting

variable (s : Setting)

/-- A whole walk reports the bindings of the trace that get a key at once. -/
theorem walk_deferred (handle : Handler σ) (start : σ) :
    (s.walk handle start).report.deferred =
      s.trace.deferred s (handle.log s.trace.offers start) := by
  have h := (Walk.steps_follows s handle (Walk.openFrame { handler := start }) s.outline).deferred
  exact h.trans (List.nil_append _)

/-! ### The sites of a trace -/

mutual

theorem valueTrace_sites (c : Scene) : ∀ v : Value,
    (s.valueTrace c v).offers.map (·.site) = s.valueSites c.around v
  | .notes _ | .abort _ => rfl
  | .message kind span parts slots => by
    simp [valueTrace, valueSites, messageTrace, valuesTrace_sites c slots, Function.comp_def]
  | .rebuild _ body => by simp only [valueTrace, valueSites, stepsTrace_sites c body]
  | .scope scope body => by
    simp only [valueTrace, valueSites, valueTrace_sites (c.enter scope) body]
    rfl

theorem valuesTrace_sites (c : Scene) : ∀ vs : List Value,
    (s.valuesTrace c vs).offers.map (·.site) = s.valuesSites c.around vs
  | [] => rfl
  | v :: vs => by
    simp [valuesTrace, valuesSites, valueTrace_sites c v, valuesTrace_sites c vs]

theorem stepTrace_sites (c : Scene) : ∀ x : Step,
    (s.stepTrace c x).offers.map (·.site) = s.stepSites c.around x
  | .notes _ => rfl
  | .replace _ v => by simp only [stepTrace, stepSites, valueTrace_sites c v]
  | .property _ _ _ v => by
    simp only [stepTrace, stepSites, valueTrace_sites (c.enter { isRuntime := true }) v]
    rfl
  | .braced kind span _ _ parts slots => by
    simp [stepTrace, stepSites, messageTrace, valuesTrace_sites c slots, Function.comp_def]
  | .scope scope body => by
    simp only [stepTrace, stepSites, stepsTrace_sites (c.enter scope) body]
    rfl
  | .binding name pos body => by
    simp only [stepTrace, stepSites, boundIn, ← stepsTrace_sites c body]
    split <;> rfl
  | .staticField key pos body => by
    simp only [stepTrace, stepSites, boundIn, ← stepsTrace_sites c body]
    split <;> rfl

theorem stepsTrace_sites (c : Scene) : ∀ xs : List Step,
    (s.stepsTrace c xs).offers.map (·.site) = s.stepsSites c.around xs
  | [] => rfl
  | x :: xs => by
    simp [stepsTrace, stepsSites, stepTrace_sites c x, stepsTrace_sites c xs]

end

/-- The offers of the trace are those that every handler gets. -/
theorem trace_sites (handle : Handler σ) (start : σ) :
    s.trace.offers.map (·.site) = s.offered handle start :=
  (s.stepsTrace_sites {} s.outline).trans (s.offered_eq handle start).symm

end Setting

end Phrasebook
