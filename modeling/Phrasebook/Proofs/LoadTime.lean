import Phrasebook.Proofs.Keys
import Phrasebook.Proofs.LoadWays

/-!
Lookups while a module is loaded. Those in the properties of object literals are deferred by getters:
as every node has a place of its own, no site that is met at once lies in the value of a property. A
binding with a lookup that is not deferred is reported with its key.
-/
namespace Phrasebook

open Script Outline

variable {s : Setting} {id : SiteId} {role : Role}

/-- Values of the properties of an object literal whose keys are not computed. -/
def Script.Node.plainValues : Node → List Node
  | .mk .object _ members => members.filterMap fun
    | .mk .property _ [key, value] => if key.kind == .computedKey then none else some value
    | _ => none
  | _ => []

namespace Setting

namespace Meets

variable {n c m value : Node}

/-! ### Ways in a tree with places -/

section Way
variable {source : Source} {file : FileInfo} {options : Options}

theorem holds (htree : source.tree.Charted) (hn : n.subnodes ⊆ source.tree.subnodes)
    (hplaces : n.mayBear = true → ∀ p ∈ n.places, p.lo < p.hi)
    (h : (Setting.of source file options).Meets (.site id) role n) :
    id.span.lo < id.span.hi ∧ n.Holds id.span := by
  have hup : ∀ {n c : Node}, n.subnodes ⊆ source.tree.subnodes → c ∈ n.children →
      (c.subnodes ⊆ source.tree.subnodes → (c.mayBear = true → ∀ p ∈ c.places, p.lo < p.hi) →
        id.span.lo < id.span.hi ∧ c.Holds id.span) →
      id.span.lo < id.span.hi ∧ n.Holds id.span := by
    intro n c hn hc h
    have hspaced := htree.spaced n (hn (Node.mem_subnodes_self n))
    have hsub := List.Subset.trans (Node.subnodes_subset_of_mem_children hc) hn
    obtain ⟨hne, hholds⟩ := h hsub fun _ _ hp => hspaced.nonempty hc hp
    exact ⟨hne, .of_child hc hholds⟩
  induction h with
  | @text _ n _ hcarries he =>
    cases he
    have hlocates : options.Locates id n :=
      .of_carries hcarries hplaces (htree.texts n (hn (Node.mem_subnodes_self n)))
    exact ⟨hlocates.nonempty, hlocates.holds⟩
  | @run _ n r span hmarkup hraw hruns hspan he =>
    have hself := hn (Node.mem_subnodes_self n)
    have hplanned := (Markup.runsFor_planned htree.distinct hself hmarkup hruns).2
    cases he
    have hlocates : options.Locates ⟨span, .markupText⟩ n :=
      .of_run hmarkup hraw (htree.spaced n hself) (Markup.planChildren_takes hplanned) hspan
    exact ⟨hlocates.nonempty, hlocates.holds⟩
  | binding _ he => cases he
  | down _ _ hc _ _ ih => exact hup hn hc ih
  | key _ _ ih => exact hup hn (List.mem_cons_self ..) ih
  | value _ _ ih => exact hup hn (List.mem_cons_of_mem _ (List.mem_singleton_self _)) ih

/-- The way down to a site leads through every child that holds it. -/
theorem into_child (htree : source.tree.Charted) (hn : n.subnodes ⊆ source.tree.subnodes)
    (h : (Setting.of source file options).Meets (.site id) role n) (hc : c ∈ n.children)
    (hholds : c.Holds id.span) : ∃ next, n.kind.Turns role c.kind next ∧
      (Setting.of source file options).Meets (.site id) next c := by
  have hself := hn (Node.mem_subnodes_self n)
  have hspaced := htree.spaced n hself
  have hsame : ∀ d ∈ n.children, ∀ next,
      (Setting.of source file options).Meets (.site id) next d → d = c := by
    intro d hd next hmeets
    obtain ⟨hne, hdholds⟩ := hmeets.holds htree
      (List.Subset.trans (Node.subnodes_subset_of_mem_children hd) hn)
      fun _ _ hp => hspaced.nonempty hd hp
    exact hspaced.eq_of_holds hne hd hc hdholds hholds
  -- Where the way ends, the site lies in no child.
  cases h with
  | text hcarries he =>
    cases he
    exact absurd hholds (hcarries.not_holds (htree.texts n hself) c hc)
  | @run _ _ r span hmarkup _ hruns hspan he =>
    have hplanned := (Markup.runsFor_planned htree.distinct hself hmarkup hruns).2
    have hapart := (Markup.planChildren_takes hplanned).not_holds hspaced hmarkup hspan
    cases he
    exact absurd hholds (hapart c hc)
  | binding _ he => cases he
  | @down _ next _ d _ _ hd hturns hmeets =>
    cases hsame d hd next hmeets
    exact ⟨next, hturns, hmeets⟩
  | @key _ d _ hkind hmeets =>
    cases hsame d (List.mem_cons_self ..) _ hmeets
    refine ⟨.member, ⟨fun hobject => ?_, by simp [Node.kind]⟩, hmeets⟩
    rw [hkind] at hobject
    cases hobject
  | @value _ _ d _ hmeets =>
    cases hsame d (List.mem_cons_of_mem _ (List.mem_singleton_self _)) _ hmeets
    exact ⟨.value, ⟨fun _ _ => rfl, by simp [Node.kind]⟩, hmeets⟩

/-- Every node that holds a site is on the way down to it. -/
theorem of_holds (htree : source.tree.Charted) (hn : n.subnodes ⊆ source.tree.subnodes)
    (h : (Setting.of source file options).Meets (.site id) role n) (hm : m ∈ n.subnodes)
    (hholds : m.Holds id.span) :
    ∃ role, (Setting.of source file options).Meets (.site id) role m := by
  induction n using Node.inductOn generalizing role with
  | mk kind span children ih =>
    rcases List.mem_cons.mp hm with rfl | hm
    · exact ⟨role, h⟩
    · obtain ⟨c, hc, hm⟩ := Node.mem_subnodesOfAll.mp hm
      obtain ⟨next, -, hmeets⟩ := h.into_child htree hn hc (hholds.of_subnode hm)
      exact ih c hc (List.Subset.trans (Node.subnodes_subset_of_mem hc) hn) hmeets hm

/-- No site that is met at once lies in the value of a property of an object literal that is not
merely held, unless the key is computed or the value is an object literal. -/
theorem not_holds_plainValue (htree : source.tree.Charted)
    (hshape : ∀ n ∈ source.tree.subnodes, n.holdsFunctions = true)
    (h : (Setting.of source file options).Meets (.site id) .visited source.tree)
    {above object : Node} (habove : above ∈ source.tree.subnodes) (hin : object ∈ above.children)
    (hheld : above.kind.isHolder = false) (hvalue : value ∈ object.plainValues)
    (hobject : value.kind ≠ .object) : ¬value.Holds id.span := by
  intro hholds
  unfold Node.plainValues at hvalue
  split at hvalue
  · rename_i span members
    obtain ⟨p, hp, hvalue⟩ := List.mem_filterMap.mp hvalue
    split at hvalue
    · rename_i pspan key found
      split at hvalue
      · cases hvalue
      · rename_i hkey
        cases hvalue
        have hmem : value ∈ (Node.mk .property pspan [key, value]).children :=
          List.mem_cons_of_mem _ (List.mem_singleton_self _)
        have hpholds := Node.Holds.of_child hmem hholds
        have hoholds : (Node.mk .object span members).Holds id.span := .of_child hp hpholds
        have hsub := Node.subnodes_subset_of_mem_subnodes habove
        have hosub := List.Subset.trans (Node.subnodes_subset_of_mem_children hin) hsub
        have hvsub := List.Subset.trans (Node.subnodes_subset_of_mem hp) hosub
        obtain ⟨role, hdown⟩ := h.of_holds htree (List.Subset.refl _) habove (.of_child hin hoholds)
        obtain ⟨next, hturns, hdown⟩ := hdown.into_child htree hsub hin hoholds
        cases hturns.object rfl hheld
        obtain ⟨next, hturns, hdown⟩ := hdown.into_child htree hosub hp hpholds
        cases hturns.members rfl rfl
        have hself := hvsub (Node.subnodes_subset_of_mem_children hmem (Node.mem_subnodes_self _))
        exact hdown.not_of_property (by simpa using hkey) hobject (hshape value hself)
    · cases hvalue
  · cases hvalue

end Way

end Meets

/-! ### Bindings of the module -/

/-- A node that binds a name is met as one binding around its parts, if it is met at once. -/
theorem trace_of_bindingName {n : Node} {c : Scene} {name : String}
    (h : s.bindingName c.classes n = some name) : ∃ component,
      s.stepsTrace c ((s.viewsOf n).inner ()) = boundIn c name n.span.lo
        (s.stepsTrace (c.enter { component }) (visitAll (s.viewsOfAll n.children))) := by
  unfold bindingName at h
  split at h
  · rename_i span pattern init
    cases h
    refine ⟨if (s.viewsOfAll init).any (fun c => isFunction c.node) then
      componentNamed (s.declaredName pattern) else none, ?_⟩
    simp only [viewsOf, views, inner, viewsOfAll, declarator, stepsTrace, stepTrace,
      Trace.append_empty]
    rfl
  · rename_i span children
    cases h
    refine ⟨none, ?_⟩
    simp only [viewsOf, views, inner, stepsTrace, stepTrace, Trace.append_empty,
      Scene.enter_nothing]
    rfl
  · rename_i span key init
    cases h
    refine ⟨none, ?_⟩
    simp only [viewsOf, views, inner, viewsOfAll, staticField, stepsTrace, stepTrace,
      Trace.append_empty, Scene.enter_nothing]
    rfl
  · cases h

end Setting

/-- Whatever handler is asked, lookups that would run while the module is loaded are deferred or
reported. The sites that are offered are those of the trace, and from any state a walk gives out and
reports the keys and bindings of the trace of its steps. So of the bindings of the trace exactly
those are reported inside which a key is given out at once, each with the first such key. These
bindings are variables that are declared, default exports and static fields; each of them counts once
wherever it is met while the module is loaded, around all that is met inside it. Nothing is offered
at once inside a property of an object literal, unless its key is computed or its value is an object
literal too, so that no site that is met at once lies in such a value. -/
theorem load_time_lookups_deferred_or_reported (source : Source) (file : FileInfo)
    (options : Options) {σ : Type} (handle : Handler σ) (start : σ) :
    let s := Setting.of source file options
    let log := handle.log s.trace.offers start
    s.trace.offers.map (·.site) = s.offered handle start ∧
    (∀ (w : Walk σ) (xs : List Step),
      Walk.Follows s handle (s.stepsTrace w.place.scene xs) w (w.steps s handle xs)) ∧
    ((s.walk handle start).report.deferred = s.trace.bindings.filterMap fun b =>
      (b.firstKey log).map fun key => ⟨b.name, key, s.location b.pos⟩) ∧
    (∀ b ∈ s.trace.bindings, ∃ n ∈ source.tree.subnodes, ∃ classes,
      s.bindingName classes n = some b.name ∧ b.pos = n.span.lo) ∧
    (∀ n c name, s.bindingName c.classes n = some name → ∃ component,
      s.stepsTrace c ((s.viewsOf n).inner ()) = Setting.boundIn c name n.span.lo
        (s.stepsTrace (c.enter { component }) (visitAll (s.viewsOfAll n.children)))) ∧
    (∀ span key value, key.kind ≠ .computedKey → value.kind ≠ .object →
      value.holdsFunctions = true → ∀ c depth,
        ∀ o ∈ (s.stepsTrace c ((s.viewsOf (.mk .property span [key, value])).member depth)).offers,
          o.isLoad = false) ∧
    (source.tree.Charted → (∀ n ∈ source.tree.subnodes, n.holdsFunctions = true) →
      ∀ o ∈ s.trace.offers, o.isLoad = true → ∀ above ∈ source.tree.subnodes,
        ∀ object ∈ above.children, above.kind.isHolder = false →
          ∀ value ∈ object.plainValues, value.kind ≠ .object → ¬value.Holds o.site.id.span) := by
  intro s log
  refine ⟨s.trace_sites handle start, Walk.steps_follows s handle, s.walk_deferred handle start,
    ?_, fun n c name => Setting.trace_of_bindingName, ?_, ?_⟩
  · intro b hb
    exact (Setting.meets_of_trace_has (e := .binding b.name b.pos) ⟨b, hb, rfl, rfl⟩).exists_binding
  · intro span key value hkey hobject hshape c depth o ho
    rw [Bool.eq_false_iff]
    intro hload
    have hhas : Trace.Has
        (s.stepsTrace c ((s.viewsOf (.mk .property span [key, value])).member depth))
        (.site o.site.id) := ⟨o, ho, hload, rfl⟩
    have hmet := s.viewsOf_met (.site o.site.id) (.mk .property span [key, value])
    exact (hmet.member depth (.of_trace hhas)).not_of_property hkey hobject hshape
  · intro htree hshape o ho hload above habove object hin hheld value hvalue hobject
    have hmeets := Setting.meets_of_trace_has (e := .site o.site.id) ⟨o, ho, hload, rfl⟩
    exact hmeets.not_holds_plainValue htree hshape habove hin hheld hvalue hobject

/-- One static field inside another, a computed key, and texts that are deferred by getters, functions
and an instance field. -/
theorem load_time_lookups_deferred_or_reported_nested :
    let code :=
      "const A = \x7b a: \"甲\", b: \x7b c: \"乙\" \x7d, [k(\"丙\")]: 1, " ++
      "d: function () \x7b return \"丁\" \x7d \x7d; " ++
      "class B \x7b static s = [class \x7b static x = \"戊\" \x7d]; i = \"己\" \x7d " ++
      "const C = () => \"庚\"; export default f(C, \"辛\");"
    ∃ source, Source.read true code = .ok source ∧ source.tree.Charted ∧
      (∀ n ∈ source.tree.subnodes, n.holdsFunctions = true) ∧
      let s := Setting.of source ⟨"src/a.tsx", .component⟩ {}
      let keys : SiteKeys := s.sites.map fun site => (site.id, site.text)
      (s.apply keys).report.deferred.map (fun d => (d.name, d.key)) =
        [("A", "丙"), ("class.x", "戊"), ("B.s", "戊"), ("default", "辛")] ∧
      (s.trace.bindings.map fun b => b.firstKey (Handler.log Applier.handler s.trace.offers { keys })) =
        [some "丙", some "戊", some "戊", none, some "辛"] ∧
      ∀ o ∈ s.trace.offers, o.isLoad = true → ∀ above ∈ source.tree.subnodes,
        ∀ object ∈ above.children, above.kind.isHolder = false →
          ∀ value ∈ object.plainValues, value.kind ≠ .object → ¬value.Holds o.site.id.span := by
  intro code
  subst code
  generalize hcode : (_ : String) ++ (_ : String) = code
  have hchecked : (Source.read true code).toOption.any (fun source =>
      let s := Setting.of source ⟨"src/a.tsx", .component⟩ {}
      let keys : SiteKeys := s.sites.map fun site => (site.id, site.text)
      decide (source.tree.Charted ∧ (∀ n ∈ source.tree.subnodes, n.holdsFunctions = true) ∧
        (s.apply keys).report.deferred.map (fun d => (d.name, d.key)) =
          [("A", "丙"), ("class.x", "戊"), ("B.s", "戊"), ("default", "辛")] ∧
        (s.trace.bindings.map fun b =>
          b.firstKey (Handler.log Applier.handler s.trace.offers { keys })) =
          [some "丙", some "戊", some "戊", none, some "辛"])) = true := by
    rw [← hcode]
    decide +kernel
  obtain ⟨source, hread, htree, hshape, hdeferred, hkeys⟩ := Source.exists_read hchecked
  refine ⟨source, hread, htree, hshape, hdeferred, hkeys, ?_⟩
  exact (load_time_lookups_deferred_or_reported source ⟨"src/a.tsx", .component⟩ {}
    Applier.handler { keys := [] }).2.2.2.2.2.2 htree hshape

end Phrasebook
