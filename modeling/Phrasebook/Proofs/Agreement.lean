import Phrasebook.Extract
import Phrasebook.Proofs.Pairs
import Phrasebook.Proofs.SiteTrace

/-!
Both walks of a module meet the same sites. Any two handlers are offered the same sequence, so the
second walk, given a key for every site of the first, replaces each of them once.
-/
namespace Phrasebook

open Script Outline

variable {σ τ : Type}

/-! ### Handlers that keep a record -/

/-- Answers like `handle` and records what it was asked. -/
def Handler.recording (handle : Handler σ) : Handler (σ × List Site) := fun site (h, seen) =>
  let (key, h) := handle site h
  (key, h, seen ++ [site])

/-- The sites that a walk offers to its handler, in order. -/
def Setting.offered (s : Setting) (handle : Handler σ) (start : σ) : List Site :=
  (s.walk handle.recording (start, [])).handler.2

theorem Handler.recording_answers (handle : Handler σ) (sites : List Site) (h : σ)
    (seen : List Site) : (handle.recording.answers sites (h, seen)).2.2 = seen ++ sites := by
  induction sites generalizing h seen with
  | nil => simp [answers]
  | cons site rest ih => simp [answers, recording, ih, List.append_assoc]

theorem Setting.offered_eq (s : Setting) (handle : Handler σ) (start : σ) :
    s.offered handle start = s.outlineSites := by
  rw [offered, walk_handler, Handler.recording_answers, List.nil_append]

/-- The walk with another state of the handler. -/
def Walk.mapHandler (f : σ → τ) (w : Walk σ) : Walk τ where
  handler := f w.handler
  place := w.place
  eagerKeys := w.eagerKeys
  report := w.report

/-- The second handler answers like the first, of whose state it knows the part `f`. -/
def Handler.Views (f : σ → τ) (first : Handler σ) (second : Handler τ) : Prop :=
  ∀ site h, second site (f h) = ((first site h).1, f (first site h).2)

theorem Handler.recording_views (handle : Handler σ) :
    Handler.Views Prod.fst handle.recording handle := by
  intro site h
  rfl

namespace Walk

variable {s : Setting} {first : Handler σ} {second : Handler τ} {f : σ → τ}

theorem mapHandler_place (w : Walk σ) : (w.mapHandler f).place = w.place := rfl

theorem mapHandler_enter (w : Walk σ) (scope : Scope) :
    (w.mapHandler f).enter scope = (w.enter scope).mapHandler f := rfl

theorem mapHandler_leave (w : Walk σ) (scope : Scope) :
    (w.mapHandler f).leave scope = (w.leave scope).mapHandler f := rfl

theorem mapHandler_addExtraction (w : Walk σ) (span : Span) (x : Option Extraction) :
    (w.mapHandler f).addExtraction span x = (w.addExtraction span x).mapHandler f := rfl

theorem mapHandler_addAccessor (w : Walk σ) (key value : Span) (isArray : Bool)
    (x : Option Extraction) :
    (w.mapHandler f).addAccessor s key value isArray x =
      (w.addAccessor s key value isArray x).mapHandler f := by
  cases x <;> rfl

theorem mapHandler_addBinding (w before : Walk σ) (name : String) (pos : Nat) :
    (w.mapHandler f).addBinding s (before.mapHandler f) name pos =
      (w.addBinding s before name pos).mapHandler f := by
  by_cases hr : before.place.runtimeDepth == 0
  · cases hk : w.eagerKeys[before.eagerKeys.length]? <;> simp [addBinding, mapHandler, hr, hk]
  · simp [addBinding, mapHandler, hr]

theorem mapHandler_finish (h : Handler.Views f first second) (w : Walk σ) (kind : SiteKind)
    (span : Span) (bound : Bound) :
    (w.mapHandler f).finish s second kind span bound =
      ((w.finish s first kind span bound).1,
        (w.finish s first kind span bound).2.mapHandler f) := by
  unfold finish ask
  by_cases hs : 0 < w.place.shadowed
  · simp only [mapHandler, hs, if_true]
    rfl
  · have hview := h (w.siteAt s kind span bound.text bound.names.names) w.handler
    simp only [mapHandler, hs, if_false, siteAt] at hview ⊢
    rw [hview]
    cases hk : first _ w.handler with
    | mk key h' => cases key <;> rfl

variable (s)

mutual

theorem value_mapHandler (h : Handler.Views f first second) (w : Walk σ) : ∀ v : Value,
    (w.mapHandler f).value s second v =
      ((w.value s first v).1, (w.value s first v).2.mapHandler f)
  | .notes _ | .abort _ => by simp only [value]; rfl
  | .message kind span parts slots => by
    simp only [value, values_mapHandler h w slots, mapHandler_finish h]
    cases hf : finish s first _ kind span _ with
    | mk r w' => cases r <;> rfl
  | .rebuild span body => by
    have hbody := steps_mapHandler h w.openFrame body
    simp only [value]
    exact congrArg (closeFrame s · span) hbody
  | .scope scope body => by
    simp only [value, mapHandler_enter, value_mapHandler h _ body, mapHandler_leave]

theorem values_mapHandler (h : Handler.Views f first second) (w : Walk σ) : ∀ vs : List Value,
    (w.mapHandler f).values s second vs =
      ((w.values s first vs).1, (w.values s first vs).2.mapHandler f)
  | [] => rfl
  | v :: vs => by simp only [values, value_mapHandler h w v, values_mapHandler h _ vs]

theorem step_mapHandler (h : Handler.Views f first second) (w : Walk σ) : ∀ x : Step,
    (w.mapHandler f).step s second x = (w.step s first x).mapHandler f
  | .notes _ => rfl
  | .replace span v => by
    simp only [step, value_mapHandler h w v, mapHandler_addExtraction]
  | .braced kind span leading trailing parts slots => by
    simp only [step, values_mapHandler h w slots, mapHandler_finish h]
    cases hf : finish s first _ kind span _ with
    | mk r w' => cases r <;> rfl
  | .property key span isArray v => by
    simp only [step, mapHandler_place]
    by_cases hr : 0 < w.place.runtimeDepth
    · simp only [hr, if_true, value_mapHandler h w v, mapHandler_addExtraction]
    · simp only [hr, if_false, mapHandler_enter, value_mapHandler h _ v, mapHandler_leave,
        mapHandler_addAccessor]
  | .scope scope body => by
    simp only [step, mapHandler_enter, steps_mapHandler h _ body, mapHandler_leave]
  | .binding name pos body => by
    simp only [step, steps_mapHandler h w body, mapHandler_addBinding]
  | .staticField key pos body => by
    simp only [step, steps_mapHandler h w body]
    exact mapHandler_addBinding _ _ _ _

theorem steps_mapHandler (h : Handler.Views f first second) (w : Walk σ) : ∀ xs : List Step,
    (w.mapHandler f).steps s second xs = (w.steps s first xs).mapHandler f
  | [] => rfl
  | x :: xs => by simp only [steps, step_mapHandler h w x, steps_mapHandler h _ xs]

end

end Walk

/-- Keeping a record changes nothing else. -/
theorem Setting.walk_recording (s : Setting) (handle : Handler σ) (start : σ) :
    s.walk handle start =
      ⟨(s.walk handle.recording (start, [])).handler.1,
        (s.walk handle.recording (start, [])).edits,
        (s.walk handle.recording (start, [])).report⟩ := by
  have h := Walk.steps_mapHandler s handle.recording_views
    (Walk.openFrame { handler := (start, []) }) s.outline
  exact congrArg (fun w : Walk σ => WalkOutput.mk w.handler w.place.closeFrame.1 w.report) h

/-! ### The two handlers side by side -/

/-- The sites a collector holds after it was offered some more. -/
def Collector.after (c : Collector) (sites : List Site) : List Site :=
  (Collector.handler.answers sites c).2.sites

namespace Collector

theorem after_cons (c : Collector) (site : Site) (rest : List Site) :
    c.after (site :: rest) = (Collector.handler site c).2.after rest := rfl

/-- A site is added unless its place is known. -/
theorem handler_sites (site : Site) (c : Collector) :
    (site.id ∈ c.sites.map (·.id) ∧ (Collector.handler site c).2 = c) ∨
      (site.id ∉ c.sites.map (·.id) ∧ (Collector.handler site c).2.sites = c.sites ++ [site]) := by
  have hany : c.sites.any (·.id == site.id) = true ↔ site.id ∈ c.sites.map (·.id) := by
    simp only [List.any_eq_true, beq_iff_eq, List.mem_map]
  by_cases h : c.sites.any (·.id == site.id)
  · exact Or.inl ⟨hany.mp h, by simp [handler, h]⟩
  · exact Or.inr ⟨fun hm => h (hany.mpr hm), by simp [handler, h]⟩

theorem subset_after (c : Collector) (sites : List Site) : c.sites ⊆ c.after sites := by
  induction sites generalizing c with
  | nil => exact List.Subset.refl _
  | cons site rest ih =>
    rw [after_cons]
    refine List.Subset.trans ?_ (ih _)
    obtain ⟨-, h⟩ | ⟨-, h⟩ := handler_sites site c
    · rw [h]
      exact List.Subset.refl _
    · rw [h]
      exact List.subset_append_left _ _

/-- Nothing that is offered is lost: a site of the same place is kept. -/
theorem id_mem_after {c : Collector} {sites : List Site} {site : Site} (h : site ∈ sites) :
    site.id ∈ (c.after sites).map (·.id) := by
  induction sites generalizing c with
  | nil => cases h
  | cons first rest ih =>
    rw [after_cons]
    rcases List.mem_cons.mp h with rfl | hr
    · have hsub := List.map_subset (·.id) (subset_after (Collector.handler site c).2 rest)
      apply hsub
      obtain ⟨hm, he⟩ | ⟨-, he⟩ := handler_sites site c
      · rwa [he]
      · simp [he]
    · exact ih hr

theorem nodup_after {c : Collector} (sites : List Site) (h : (c.sites.map (·.id)).Nodup) :
    ((c.after sites).map (·.id)).Nodup := by
  induction sites generalizing c with
  | nil => exact h
  | cons site rest ih =>
    rw [after_cons]
    apply ih
    obtain ⟨-, he⟩ | ⟨hn, he⟩ := handler_sites site c
    · rwa [he]
    · rw [he, List.map_append, List.nodup_append]
      refine ⟨h, by simp, ?_⟩
      rintro a ha b hb rfl
      simp only [List.map_cons, List.map_nil, List.mem_singleton] at hb
      exact hn (hb ▸ ha)

end Collector

/-- The applier has met the places that the collector knows, in the same order. -/
def Applier.Tracks (a : Applier) (c : Collector) : Prop := a.consumed = c.sites.map (·.id)

namespace Applier

/-- One site offered to both: they stay in step. The applier answers only where the collector adds
the site, and then by the key of its place. -/
theorem handler_cases {a : Applier} {c : Collector} (h : a.Tracks c) (site : Site) :
    (Applier.handler site a).2.Tracks (Collector.handler site c).2 ∧
      (Applier.handler site a).2.keys = a.keys ∧
      (((Applier.handler site a).1 = none ∧ (Collector.handler site c).2 = c ∧
          (Applier.handler site a).2.unmatched = a.unmatched) ∨
        (site.id ∉ c.sites.map (·.id) ∧ (Applier.handler site a).1 = a.keys.get? site.id ∧
          (Collector.handler site c).2.sites = c.sites ++ [site] ∧
          (Applier.handler site a).2.unmatched =
            a.unmatched + (a.keys.get? site.id).isNone.toNat)) := by
  unfold Tracks at h ⊢
  obtain ⟨hm, hc⟩ | ⟨hn, hc⟩ := Collector.handler_sites site c
  · have hseen : a.consumed.contains site.id = true := by rw [h]; exact List.contains_iff_mem.mpr hm
    have heq : Applier.handler site a = _ := if_pos hseen
    rw [heq]
    exact ⟨h.trans (by rw [hc]), rfl, Or.inl ⟨rfl, hc, rfl⟩⟩
  · have hnew : a.consumed.contains site.id = false := by
      rw [h]
      exact Bool.eq_false_iff.mpr fun hc => hn (List.contains_iff_mem.mp hc)
    simp only [handler, hnew, Bool.false_eq_true, if_false]
    have hgrown : a.consumed ++ [site.id] = (Collector.handler site c).2.sites.map (·.id) := by
      rw [hc, h, List.map_append]
      rfl
    cases hk : a.keys.get? site.id with
    | none => exact ⟨hgrown, rfl, Or.inr ⟨hn, rfl, hc, rfl⟩⟩
    | some key => exact ⟨hgrown, rfl, Or.inr ⟨hn, rfl, hc, rfl⟩⟩

/-- Offered the same sites, both end up knowing the same places, and every answer is the key of a
site that was collected. -/
theorem answers_tracks {a : Applier} {c : Collector} (h : a.Tracks c) (sites : List Site) :
    (Applier.handler.answers sites a).2.consumed = (c.after sites).map (·.id) ∧
      (Applier.handler.answers sites a).2.keys = a.keys ∧
      ∀ p ∈ (Applier.handler.answers sites a).1,
        p.1 ∈ c.after sites ∧ a.keys.get? p.1.id = some p.2 := by
  induction sites generalizing a c with
  | nil => exact ⟨h, rfl, by simp [Handler.answers]⟩
  | cons site rest ih =>
    obtain ⟨ht, hkeys, hcase⟩ := handler_cases h site
    obtain ⟨hcons, hk, hans⟩ := ih ht
    rw [Collector.after_cons]
    refine ⟨hcons, hk.trans hkeys, ?_⟩
    intro p hp
    simp only [Handler.answers, List.mem_append, Option.mem_toList, Option.map_eq_some_iff] at hp
    rcases hp with ⟨key, hkey, rfl⟩ | hp
    · obtain ⟨hnone, -, -⟩ | ⟨-, hget, hsites, -⟩ := hcase
      · simp [hnone] at hkey
      · refine ⟨Collector.subset_after _ rest ?_, hget.symm.trans hkey⟩
        simp [hsites]
    · rw [← hkeys]
      exact hans p hp

/-- With a key for every site there is, each place is answered once. -/
theorem answers_complete {a : Applier} {c : Collector} (h : a.Tracks c) (sites : List Site)
    (hkeyed : ∀ site ∈ sites, (a.keys.get? site.id).isSome) :
    (Applier.handler.answers sites a).2.unmatched = a.unmatched ∧
      c.sites.length + (Applier.handler.answers sites a).1.length = (c.after sites).length := by
  induction sites generalizing a c with
  | nil => exact ⟨rfl, rfl⟩
  | cons site rest ih =>
    obtain ⟨ht, hkeys, hcase⟩ := handler_cases h site
    obtain ⟨hun, hlen⟩ := ih ht fun x hx => by
      rw [hkeys]
      exact hkeyed x (List.mem_cons_of_mem _ hx)
    have hsome := hkeyed site (List.mem_cons_self ..)
    rw [Collector.after_cons, ← hlen]
    simp only [Handler.answers, hun, List.length_append]
    obtain ⟨hnone, hc, hu⟩ | ⟨-, hget, hc, hu⟩ := hcase
    · simp [hnone, hc, hu]
    · obtain ⟨key, hkey⟩ := Option.isSome_iff_exists.mp hsome
      rw [hkey] at hget hu
      simp [hget, hc, hu, Nat.add_assoc]

end Applier

theorem Setting.sites_eq (s : Setting) : s.sites = Collector.after {} s.outlineSites := by
  rw [Setting.sites, walk_handler, Collector.after]

/-- Recording does not disturb a walk, and any two handlers are offered the same sites. So when the
keys are given for just the places collected, the second walk finds a key everywhere, leaves none
over, and puts as many lookups in place as sites were collected. -/
theorem walk_offers_same_sites (s : Setting) :
    (∀ {σ τ : Type} (first : Handler σ) (second : Handler τ) (a : σ) (b : τ),
      (s.walk first a).edits = (s.walk first.recording (a, [])).edits ∧
      (s.walk first a).report = (s.walk first.recording (a, [])).report ∧
      s.offered first a = s.offered second b) ∧
    ∀ keys : SiteKeys, (∀ id, (keys.get? id).isSome ↔ id ∈ s.sites.map (·.id)) →
      (s.apply keys).handler.integrity.unmatched = 0 ∧
      (s.apply keys).handler.integrity.unconsumed = 0 ∧
      (s.apply keys).report.applied = s.sites.length := by
  refine ⟨?_, ?_⟩
  · intro σ τ first second a b
    refine ⟨?_, ?_, ?_⟩
    · rw [s.walk_recording first a]
    · rw [s.walk_recording first a]
    · rw [s.offered_eq, s.offered_eq]
  · intro keys hkeys
    have htracks : Applier.Tracks { keys } {} := rfl
    obtain ⟨hconsumed, hsame, -⟩ := Applier.answers_tracks htracks s.outlineSites
    have hkeyed : ∀ site ∈ s.outlineSites, (keys.get? site.id).isSome := by
      intro site hm
      rw [hkeys, s.sites_eq]
      exact Collector.id_mem_after hm
    obtain ⟨hunmatched, happlied⟩ := Applier.answers_complete htracks s.outlineSites hkeyed
    rw [← s.sites_eq] at hconsumed happlied
    have hhandler : (s.apply keys).handler = _ := s.walk_handler Applier.handler { keys }
    refine ⟨?_, ?_, ?_⟩
    · rw [hhandler]
      exact hunmatched
    · rw [hhandler, Applier.integrity, hsame, hconsumed]
      simp only [List.length_eq_zero_iff, List.filter_eq_nil_iff]
      rintro ⟨id, key⟩ hmem
      have hsome : (keys.get? id).isSome :=
        Text.isSome_lookup_iff.mpr (List.mem_map_of_mem hmem)
      have := (hkeys id).mp hsome
      simpa using this
    · rw [Setting.apply, s.walk_applied]
      simpa using happlied

/-- A template with a text of its own in its slot, alone in a module. -/
def nestedTemplate : Setting where
  source :=
    { code := "`共$\x7b\"条目\"\x7d`;".toList
      tree := .mk .module ⟨0, 17⟩ [.mk .expressionStatement ⟨0, 17⟩
        [.mk (.template [⟨some "共", "共"⟩, ⟨some "", ""⟩]) ⟨0, 16⟩
          [.mk (.string (some "条目")) ⟨6, 14⟩ []]]] }
  file := ⟨"src/list.ts", .component⟩
  options := {}
  plan := []

theorem walk_offers_same_sites_nested :
    let keys : SiteKeys :=
      [(⟨⟨6, 14⟩, .literal⟩, "list.item"), (⟨⟨0, 16⟩, .interpolated⟩, "list.count")]
    (∀ id, (keys.get? id).isSome ↔ id ∈ nestedTemplate.sites.map (·.id)) ∧
      (nestedTemplate.apply keys).handler.integrity.unmatched = 0 ∧
      (nestedTemplate.apply keys).handler.integrity.unconsumed = 0 ∧
      (nestedTemplate.apply keys).report.applied = 2 := by
  intro keys
  have hids : keys.map (·.1) = nestedTemplate.sites.map (·.id) := by decide +kernel
  have hcount : nestedTemplate.sites.length = 2 := by decide +kernel
  have hkeys : ∀ id, (keys.get? id).isSome ↔ id ∈ nestedTemplate.sites.map (·.id) := by
    intro id
    rw [← hids]
    exact Text.isSome_lookup_iff
  refine ⟨hkeys, ?_⟩
  rw [← hcount]
  exact (walk_offers_same_sites nestedTemplate).2 keys hkeys

end Phrasebook
