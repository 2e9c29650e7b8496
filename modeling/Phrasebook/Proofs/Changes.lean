import Phrasebook.Proofs.Idempotence
import Phrasebook.Proofs.Lookups
import Phrasebook.Proofs.Placement

/-!
A module is edited exactly if a key is given out for it. What is edited has the text of a lookup in
it, and a module with a lookup imports the function.
-/
namespace Phrasebook

open Script Outline

variable {σ : Type}

/-! ### Lookups in edits -/

theorem infix_placeAll {source : List Char} {hi cursor : Nat} {edits : List Edit} {e : Edit}
    (he : e ∈ edits) : e.text.toList <:+: placeAll source hi cursor edits := by
  induction edits generalizing cursor with
  | nil => cases he
  | cons first rest ih =>
    rw [placeAll]
    rcases List.mem_cons.mp he with rfl | he
    · exact ⟨_, _, rfl⟩
    · exact (ih he).trans (List.suffix_append _ _).isInfix

/-- Edits that fit are found in the text. -/
theorem infix_splice (source : List Char) {range : Span} {edits : List Edit}
    (h : Edit.FitIn range edits) {e : Edit} (he : e ∈ edits) :
    e.text.toList <:+: (splice source range.lo range.hi edits).toList := by
  rw [splice_eq_placeAll source h, String.toList_ofList]
  exact infix_placeAll (Edit.mem_sort.mpr he)

/-- The edits of a message without a key are the replacements of its slots. -/
theorem Bound.mem_fill_edits {source : Source} {parts : List Part} {b : Bound}
    {xs : List (Option Extraction)} {e : Edit} (he : e ∈ (fill source b parts xs).edits) :
    e ∈ b.edits ∨ ∃ x, some x ∈ xs ∧ e.text = x.replacement := by
  induction parts generalizing b xs with
  | nil => exact .inl he
  | cons p parts ih =>
    cases p with
    | text text => exact ih (b := b.pushText text) he
    | slot n =>
      rcases ih (b := b.pushSlot source n (xs.headD none)) he with he | ⟨x, hx, htext⟩
      · rcases List.mem_append.mp he with he | he
        · exact .inl he
        · obtain ⟨x, hx, rfl⟩ := Option.map_eq_some_iff.mp (Option.mem_toList.mp he)
          refine .inr ⟨x, ?_, rfl⟩
          cases xs with
          | nil => cases hx
          | cons y ys => exact hx ▸ List.mem_cons_self ..
      · exact .inr ⟨x, List.mem_of_mem_drop hx, htext⟩

/-- One of the calls is part of the text. -/
def Holds (calls : List LookupCall) (text : String) : Prop :=
  ∃ c ∈ calls, c.text.toList <:+: text.toList

theorem Holds.mono {calls calls' : List LookupCall} {text : String} (h : Holds calls text)
    (hsub : calls ⊆ calls') : Holds calls' text := by
  obtain ⟨c, hc, htext⟩ := h
  exact ⟨c, hsub hc, htext⟩

theorem Holds.within {calls : List LookupCall} {text longer : String} (h : Holds calls text)
    (hin : text.toList <:+: longer.toList) : Holds calls longer := by
  obtain ⟨c, hc, htext⟩ := h
  exact ⟨c, hc, htext.trans hin⟩

theorem infix_between (before text after : String) :
    text.toList <:+: (before ++ text ++ after).toList := by
  rw [String.toList_append, String.toList_append]
  exact ⟨_, _, rfl⟩

namespace Walk

variable (s : Setting) (handle : Handler σ)

/-- Every edit has a call in it, so what is spliced from them has one. -/
theorem holds_spliced {calls : List LookupCall} {span : Span} {edits : List Edit}
    (hlaid : Splicing.Laid ⟨span, edits⟩) (hedits : ∀ e ∈ edits, Holds calls e.text)
    {x : Extraction} (hx : spliced s span edits = some x) : Holds calls x.replacement := by
  cases edits with
  | nil => cases hx
  | cons e rest =>
    obtain rfl := Option.some.inj hx
    have he : e ∈ e :: rest := List.mem_cons_self ..
    exact (hedits e he).within (infix_splice _ (.of_laidIn hlaid) he)

/-- A step adds edits with calls in them. -/
def AddsCalls (calls : List LookupCall) (w w' : Walk σ) : Prop :=
  ∃ edits, w'.place = w.place.addEdits edits ∧ ∀ e ∈ edits, Holds calls e.text

theorem AddsCalls.extraction {w w' : Walk σ} {calls : List LookupCall} {x : Option Extraction}
    (hplace : w'.place = w.place) (h : ∀ y, x = some y → Holds calls y.replacement) (span : Span) :
    AddsCalls calls w (w'.addExtraction span x) := by
  refine ⟨(x.map fun x => ⟨span.lo, span.hi, x.replacement, x.key⟩).toList, ?_, ?_⟩
  · rw [addExtraction, addEdits, hplace]
  · intro e he
    obtain ⟨y, hy, rfl⟩ := Option.map_eq_some_iff.mp (Option.mem_toList.mp he)
    exact h y hy

theorem AddsCalls.accessor {w w' : Walk σ} {calls : List LookupCall} {x : Option Extraction}
    (hplace : w'.place = w.place) (h : ∀ y, x = some y → Holds calls y.replacement)
    (key value : Span) (isArray : Bool) :
    AddsCalls calls w (w'.addAccessor s key value isArray x) := by
  cases x with
  | none => exact ⟨[], by simpa [addAccessor] using hplace, by simp⟩
  | some x =>
    refine .extraction (x := some (Walk.accessor s key x)) (by exact hplace) (fun y hy => ?_) _
    obtain rfl := Option.some.inj hy
    exact (h x rfl).within (infix_between _ _ _)

/-- The edits that a message without a key takes over from its slots have calls in them. -/
theorem holds_slots {w : Walk σ} {parts : List Part} {slots : List Value}
    (hslots : ∀ y, some y ∈ (w.values s handle slots).1 →
      Holds (w.valuesCalls s handle slots) y.replacement) {kind : SiteKind} {span : Span}
    {edits : List Edit} (hfinish : ((w.values s handle slots).2.finish s handle kind span
      (Bound.fill s.source {} parts (w.values s handle slots).1)).1 = .error edits) :
    ∀ e ∈ edits, Holds (w.valuesCalls s handle slots) e.text := by
  intro e he
  rw [finish_edits s handle hfinish] at he
  rcases Bound.mem_fill_edits he with he | ⟨x, hx, htext⟩
  · cases he
  · rw [htext]
    exact hslots x hx

/-- A message with a key is replaced by its call. -/
theorem holds_finish {w w' : Walk σ} {kind : SiteKind} {span : Span} {bound : Bound}
    {x : Extraction} (h : w.finish s handle kind span bound = (.ok x, w')) :
    Holds (w.finishCalls s handle kind span bound) x.replacement := by
  rw [finishCalls, h]
  exact ⟨_, List.mem_singleton_self _, List.infix_rfl⟩

mutual

theorem value_holds (w : Walk σ) : ∀ v : Value, (∀ x ∈ w.valueSplicings s handle v, x.Laid) →
    ∀ x, (w.value s handle v).1 = some x → Holds (w.valueCalls s handle v) x.replacement
  | .notes _, _, _, hx | .abort _, _, _, hx => by cases hx
  | .message kind span parts slots, hlaid, x, hx => by
    simp only [valueSplicings, List.forall_mem_append] at hlaid
    have hslots := values_holds w slots hlaid.1
    simp only [value] at hx
    simp only [valueCalls]
    split at hx <;> rename_i heq
    · obtain rfl := Option.some.inj hx
      exact (holds_finish s handle heq).mono (List.subset_append_right _ _)
    · rename_i edits after
      have hedits := holds_slots s handle hslots (congrArg Prod.fst heq)
      have hsplicing : Splicing.Laid ⟨span, edits⟩ := by
        refine hlaid.2 _ ?_
        rw [finishSplicings, heq]
        exact List.mem_singleton_self _
      exact (holds_spliced s hsplicing hedits hx).mono (List.subset_append_left _ _)
  | .rebuild span body, hlaid, x, hx => by
    simp only [valueSplicings, List.forall_mem_append, List.forall_mem_singleton] at hlaid
    obtain ⟨edits, hplace, hedits⟩ := steps_holds w.openFrame body hlaid.1
    have hclose : (w.openFrame.steps s handle body).place.closeFrame = (edits, w.place) := by
      rw [hplace]
      exact Place.closeFrame_addEdits_openFrame w.place edits
    simp only [value, closeFrame, hclose] at hx hlaid
    exact holds_spliced s hlaid.2 hedits hx
  | .scope scope body, hlaid, x, hx => value_holds (w.enter scope) body hlaid x hx

theorem values_holds (w : Walk σ) : ∀ vs : List Value,
    (∀ x ∈ w.valuesSplicings s handle vs, x.Laid) →
    ∀ x, some x ∈ (w.values s handle vs).1 → Holds (w.valuesCalls s handle vs) x.replacement
  | [], _, _, hx => by cases hx
  | v :: vs, hlaid, x, hx => by
    simp only [valuesSplicings, List.forall_mem_append] at hlaid
    simp only [valuesCalls]
    rcases List.mem_cons.mp hx with hx | hx
    · exact (value_holds w v hlaid.1 x hx.symm).mono (List.subset_append_left _ _)
    · exact (values_holds _ vs hlaid.2 x hx).mono (List.subset_append_right _ _)

theorem step_holds (w : Walk σ) : ∀ x : Step, (∀ y ∈ w.stepSplicings s handle x, y.Laid) →
    AddsCalls (w.stepCalls s handle x) w (w.step s handle x)
  | .notes _, _ => ⟨[], by simp [step, addNotes], by simp⟩
  | .replace span v, hlaid => by
    simp only [step]
    exact .extraction (value_keeps s handle w v).place (value_holds w v hlaid) span
  | .braced kind span leading trailing parts slots, hlaid => by
    have hslots := values_holds w slots hlaid
    have hplace := (finish_place s handle (w.values s handle slots).2 kind span
      (Bound.fill s.source {} parts (w.values s handle slots).1)).trans
        (values_keeps s handle w slots).place
    simp only [step, stepCalls]
    split <;> rename_i heq <;> rw [heq] at hplace
    · rename_i x after
      refine .extraction hplace (fun y hy => ?_) span
      obtain rfl := Option.some.inj hy
      have hcall := (holds_finish s handle heq).mono
        (List.subset_append_right (w.valuesCalls s handle slots) _)
      refine hcall.within ?_
      rw [String.append_assoc]
      exact infix_between (leading ++ "\x7b") x.replacement ("\x7d" ++ trailing)
    · rename_i edits after
      refine ⟨edits, congrArg (Place.addEdits · edits) hplace, fun e he => ?_⟩
      exact (holds_slots s handle hslots (congrArg Prod.fst heq) e he).mono
        (List.subset_append_left _ _)
  | .property key span isArray v, hlaid => by
    simp only [stepSplicings] at hlaid
    simp only [step, stepCalls]
    split
    · rename_i hruntime
      rw [if_pos hruntime] at hlaid
      exact .extraction (value_keeps s handle w v).place (value_holds w v hlaid) span
    · rename_i hload
      rw [if_neg hload] at hlaid
      have hv := value_holds (w.enter { isRuntime := true }) v hlaid
      exact .accessor s (value_place_scoped s handle w { isRuntime := true } v) hv key span isArray
  | .scope scope body, hlaid => by
    obtain ⟨edits, hplace, hedits⟩ := steps_holds (w.enter scope) body hlaid
    refine ⟨edits, ?_, hedits⟩
    simp only [step, leave, hplace]
    exact Place.leave_addEdits_enter w.place scope edits
  | .binding name pos body, hlaid => by
    obtain ⟨edits, hplace, hedits⟩ := steps_holds w body hlaid
    exact ⟨edits, (addBinding_place s _ w name pos).trans hplace, hedits⟩
  | .staticField key pos body, hlaid => by
    obtain ⟨edits, hplace, hedits⟩ := steps_holds w body hlaid
    exact ⟨edits, (addBinding_place s _ w _ pos).trans hplace, hedits⟩

theorem steps_holds (w : Walk σ) : ∀ xs : List Step, (∀ y ∈ w.stepsSplicings s handle xs, y.Laid) →
    AddsCalls (w.stepsCalls s handle xs) w (w.steps s handle xs)
  | [], _ => ⟨[], by simp [steps], by simp⟩
  | x :: xs, hlaid => by
    simp only [stepsSplicings, List.forall_mem_append] at hlaid
    obtain ⟨edits, hplace, hedits⟩ := step_holds w x hlaid.1
    obtain ⟨edits', hplace', hedits'⟩ := steps_holds (w.step s handle x) xs hlaid.2
    refine ⟨edits ++ edits', ?_, List.forall_mem_append.mpr ⟨fun e he => ?_, fun e he => ?_⟩⟩
    · simp only [steps]
      rw [hplace', hplace, Place.addEdits_addEdits]
    · exact (hedits e he).mono (List.subset_append_left _ _)
    · exact (hedits' e he).mono (List.subset_append_right _ _)

end

end Walk

/-! ### Whole modules -/

namespace Setting

variable (s : Setting) (handle : Handler σ) (start : σ)

theorem length_calls :
    (s.calls handle start).length = (s.walk handle start).report.applied := by
  have hanswered := congrArg List.length (s.calls_renders handle start).answered
  rwa [List.length_map, ← s.walk_applied handle start] at hanswered

theorem calls_eq_nil_iff :
    s.calls handle start = [] ↔ (s.walk handle start).report.applied = 0 := by
  rw [← s.length_calls, List.length_eq_zero_iff]

/-- The lookup function is imported for a module that calls it. -/
theorem output_eq (keys : SiteKeys) : s.output (s.apply keys) =
    splice s.source.code 0 (Text.byteLength s.source.code) ((s.apply keys).edits ++
      if s.calls Applier.handler { keys } = [] then []
      else importEdits s.source.items s.options) := by
  have hcalls := s.calls_eq_nil_iff Applier.handler { keys }
  rw [output]
  by_cases hnone : (s.apply keys).report.applied = 0
  · rw [if_neg (by omega), if_pos (hcalls.mpr hnone)]
  · rw [if_pos (by omega), if_neg fun h => hnone (hcalls.mp h)]

/-- A module with a lookup has the text of one in it. -/
theorem call_in_output {source : Source} (hlaid : source.LaidOut) (file : FileInfo)
    (options : Options) (keys : SiteKeys)
    (hcalls : (of source file options).calls Applier.handler { keys } ≠ []) :
    Holds ((of source file options).calls Applier.handler { keys })
      ((of source file options).output ((of source file options).apply keys)) := by
  have hfits := outline_fits hlaid file options
  obtain ⟨hsplicings, hplaced⟩ := walk_laid hfits Applier.handler { keys }
  obtain ⟨edits, hplace, hholds⟩ := Walk.steps_holds _ Applier.handler _ _ hsplicings
  have hedits := walk_edits _ _ _ hplace
  obtain ⟨e, he⟩ : ∃ e, e ∈ edits := by
    refine List.exists_mem_of_ne_nil _ fun hnil => hcalls ?_
    rw [calls_eq_nil_iff, ← (walk_changes _ _ _).1, hedits, hnil]
  rw [output_eq, if_neg hcalls]
  have hmem : e ∈ ((of source file options).apply keys).edits ++
      importEdits source.items options := by
    rw [apply, hedits]
    exact List.mem_append_left _ he
  exact (hholds e he).within (infix_splice _ (hlaid.fitIn hplaced options) hmem)

end Setting

/-- A module is edited exactly if a key is given out for it, and only then is anything reported
about keys. Its import of the lookup function is asked for exactly if a lookup is called, and a
source that is laid out then has the call in its new text. A file without sites is left as it is,
and neither the generator nor the table is used. -/
theorem edited_iff_keyed :
    (∀ (σ : Type) (s : Setting) (handle : Handler σ) (start : σ),
      let out := s.walk handle start
      (out.edits = [] ↔ out.report.applied = 0) ∧
      (out.report.applied = 0 ↔ (handle.answers (s.offered handle start) start).1 = []) ∧
      (out.report.applied = 0 → out.report.lazyAccessors = 0 ∧ out.report.deferred = [] ∧
        out.report.containerAccessors = [])) ∧
    (∀ (s : Setting) (keys : SiteKeys),
      let calls := s.calls Applier.handler { keys }
      (calls = [] ↔ (s.apply keys).edits = []) ∧
      s.output (s.apply keys) = splice s.source.code 0 (Text.byteLength s.source.code)
        ((s.apply keys).edits ++ if calls = [] then [] else importEdits s.source.items s.options)) ∧
    (∀ (source : Source) (file : FileInfo) (options : Options) (keys : SiteKeys),
      let s := Setting.of source file options
      let calls := s.calls Applier.handler { keys }
      source.LaidOut → calls ≠ [] → Holds calls (s.output (s.apply keys))) ∧
    ∀ (code : String) (file : FileInfo) (options : Options) (source : Source),
      Source.read file.hasMarkup code = .ok source → (Setting.of source file options).sites = [] →
        ∃ outcome log, outcome.newText = none ∧
          ∀ (γ : Type) (generate : KeyGenerator γ) (table : Table) (state : γ),
            extract code file options generate table state = ⟨.ok outcome, table, state, log⟩ := by
  refine ⟨fun σ s handle start => ?_, fun s keys => ?_,
    fun source file options keys hlaid => Setting.call_in_output hlaid file options keys,
    fun code file options source hread hsites => ?_⟩
  · obtain ⟨hedits, hreport⟩ := s.walk_changes handle start
    refine ⟨hedits, ?_, hreport⟩
    rw [s.walk_applied, s.offered_eq, List.length_eq_zero_iff]
  · refine ⟨?_, s.output_eq keys⟩
    rw [s.calls_eq_nil_iff]
    exact (s.walk_changes Applier.handler { keys }).1.symm
  · obtain ⟨outcome, log, hnone, -, hextract⟩ := extract_of_no_sites hread hsites
    exact ⟨outcome, log, hnone, hextract⟩

/-- A template without a key around a text with one, in a property that becomes a getter. -/
theorem edited_iff_keyed_slot :
    let code := "o=\x7ba:\x60甲$\x7b\"乙\"\x7d\x60\x7d"
    let keys : SiteKeys := [(⟨⟨11, 16⟩, .literal⟩, "k")]
    ∃ source, Source.read true code = .ok source ∧ source.Nested ∧
      let s := Setting.of source ⟨"src/a.tsx", .component⟩ {}
      (s.apply keys).edits ≠ [] ∧ (s.apply keys).report.lazyAccessors = 1 ∧
        Holds (s.calls Applier.handler { keys }) (s.output (s.apply keys)) ∧
        (s.apply []).edits = [] ∧ (s.apply []).report.lazyAccessors = 0 := by
  intro code keys
  generalize hcode : code = text
  have hchecked : (Source.read true text).toOption.any (fun source =>
      let s := Setting.of source ⟨"src/a.tsx", .component⟩ {}
      decide (source.Nested ∧ (s.apply keys).report.applied = 1 ∧
        (s.apply keys).report.lazyAccessors = 1 ∧ (s.apply []).report.applied = 0)) = true := by
    rw [← hcode]
    decide +kernel
  obtain ⟨source, hread, hnested, happlied, hlazy, hnone⟩ := Source.exists_read hchecked
  obtain ⟨hwalk, houtput, hcall, -⟩ := edited_iff_keyed
  have hedits : ((Setting.of source ⟨"src/a.tsx", .component⟩ {}).apply keys).edits ≠ [] := by
    intro hempty
    have hzero := (hwalk _ _ Applier.handler { keys }).1.mp hempty
    exact absurd (happlied.symm.trans hzero) (by decide)
  have hcalls := mt (houtput (.of source ⟨"src/a.tsx", .component⟩ {}) keys).1.mp hedits
  obtain ⟨hquiet, -, hreport⟩ := hwalk _ (.of source ⟨"src/a.tsx", .component⟩ {})
    Applier.handler { keys := [] }
  exact ⟨source, hread, hnested, hedits, hlazy,
    hcall source ⟨"src/a.tsx", .component⟩ {} keys hnested.laidOut hcalls,
    hquiet.mpr hnone, (hreport hnone).1⟩

end Phrasebook
