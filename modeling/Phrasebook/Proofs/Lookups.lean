import Phrasebook.Proofs.Agreement
import Phrasebook.Proofs.Atomicity

/-!
The lookup calls that a walk renders, and the entries they find. A call passes values for exactly
the slots of the message that is stored under its key.
-/
namespace Phrasebook

open Script Outline

variable {σ : Type}

/-- A call that takes the place of a site. -/
structure LookupCall where
  site : Site
  key : String
  /-- The map that is passed along. -/
  slots : List SlotBinding
  /-- What is written. -/
  text : String
deriving DecidableEq, Repr

namespace Walk

variable (s : Setting) (handle : Handler σ)

/-- The call that finishes a message, if the handler gives it a key. -/
def finishCalls (w : Walk σ) (kind : SiteKind) (span : Span) (bound : Bound) : List LookupCall :=
  match (w.finish s handle kind span bound).1 with
  | .ok x =>
    [⟨w.siteAt s kind span bound.text bound.names.names, x.key, bound.names.bindings,
      x.replacement⟩]
  | .error _ => []

mutual

/-- The calls rendered for an expression, those of slots before that of their message. -/
def valueCalls (w : Walk σ) : Value → List LookupCall
  | .notes _ | .abort _ => []
  | .message kind span parts slots =>
    let (xs, after) := w.values s handle slots
    valuesCalls w slots ++
      after.finishCalls s handle kind span (Bound.fill s.source {} parts xs)
  | .rebuild _ body => stepsCalls w.openFrame body
  | .scope scope body => valueCalls (w.enter scope) body

def valuesCalls (w : Walk σ) : List Value → List LookupCall
  | [] => []
  | v :: vs => valueCalls w v ++ valuesCalls (w.value s handle v).2 vs

def stepCalls (w : Walk σ) : Step → List LookupCall
  | .notes _ => []
  | .replace _ v => valueCalls w v
  | .braced kind span _ _ parts slots =>
    let (xs, after) := w.values s handle slots
    valuesCalls w slots ++
      after.finishCalls s handle kind span (Bound.fill s.source {} parts xs)
  | .property _ _ _ v =>
    if 0 < w.place.runtimeDepth then valueCalls w v
    else valueCalls (w.enter { isRuntime := true }) v
  | .scope scope body => stepsCalls (w.enter scope) body
  | .binding _ _ body | .staticField _ _ body => stepsCalls w body

def stepsCalls (w : Walk σ) : List Step → List LookupCall
  | [] => []
  | x :: xs => stepCalls w x ++ stepsCalls (w.step s handle x) xs

end

/-- The calls rendered while a handler in state `h` is offered `sites`: one for each answer, in the
same order, and each passes a value for every slot of its site. -/
structure Renders (h : σ) (sites : List Site) (calls : List LookupCall) : Prop where
  answered : calls.map (fun c => (c.site, c.key)) = (handle.answers sites h).1
  written : ∀ c ∈ calls, c.text = renderLookup s.options.lookupFunction c.key c.slots
  complete : ∀ c ∈ calls, c.slots.map (·.name) = c.site.vars

variable {s handle}

theorem Renders.none (h : σ) : Renders s handle h [] [] := ⟨rfl, by simp, by simp⟩

theorem Renders.append {h : σ} {xs ys : List Site} {cs ds : List LookupCall}
    (hc : Renders s handle h xs cs) (hd : Renders s handle (handle.answers xs h).2 ys ds) :
    Renders s handle h (xs ++ ys) (cs ++ ds) := by
  constructor
  · rw [List.map_append, hc.answered, hd.answered, Handler.answers_append]
  · exact fun c hm => (List.mem_append.mp hm).elim (hc.written c) (hd.written c)
  · exact fun c hm => (List.mem_append.mp hm).elim (hc.complete c) (hd.complete c)

variable (s handle)

theorem finishCalls_renders (w : Walk σ) (kind : SiteKind) (span : Span) (parts : List Part)
    (xs : List (Option Extraction)) :
    Renders s handle w.handler (s.messageSites w.place.around kind span parts)
      (w.finishCalls s handle kind span (Bound.fill s.source {} parts xs)) := by
  have hfill := Bound.fill_alike s.source parts (.refl {}) xs []
  unfold finishCalls finish ask Setting.messageSites
  by_cases hs : 0 < w.place.shadowed
  · simp only [Place.around, hs, if_true]
    exact .none _
  · simp only [Place.around, hs, if_false, siteAt]
    rw [← hfill.text, ← hfill.names]
    cases hk : handle _ w.handler with
    | mk key h =>
      cases key with
      | none => exact ⟨by simp [Handler.answers, hk], by simp, by simp⟩
      | some key =>
        refine ⟨by simp [Handler.answers, hk], ?_, ?_⟩
        · simp
        · simp [SlotNames.names]

mutual

theorem valueCalls_renders (w : Walk σ) : ∀ v : Value,
    Renders s handle w.handler (s.valueSites w.place.around v) (w.valueCalls s handle v)
  | .notes _ | .abort _ => .none _
  | .message kind span parts slots => by
    have hslots := values_offers s handle w slots
    have hmessage := finishCalls_renders s handle (w.values s handle slots).2 kind span parts
      (w.values s handle slots).1
    rw [hslots.around, hslots.handler] at hmessage
    simp only [valueCalls, Setting.valueSites]
    exact (valuesCalls_renders w slots).append hmessage
  | .rebuild _ body => by
    simp only [valueCalls, Setting.valueSites]
    exact stepsCalls_renders w.openFrame body
  | .scope scope body => by
    simp only [valueCalls, Setting.valueSites]
    exact valueCalls_renders (w.enter scope) body

theorem valuesCalls_renders (w : Walk σ) : ∀ vs : List Value,
    Renders s handle w.handler (s.valuesSites w.place.around vs) (w.valuesCalls s handle vs)
  | [] => .none _
  | v :: vs => by
    have hv := value_offers s handle w v
    have hvs := valuesCalls_renders (w.value s handle v).2 vs
    rw [hv.around, hv.handler] at hvs
    simp only [valuesCalls, Setting.valuesSites]
    exact (valueCalls_renders w v).append hvs

theorem stepCalls_renders (w : Walk σ) : ∀ x : Step,
    Renders s handle w.handler (s.stepSites w.place.around x) (w.stepCalls s handle x)
  | .notes _ => .none _
  | .replace _ v => by
    simp only [stepCalls, Setting.stepSites]
    exact valueCalls_renders w v
  | .braced kind span _ _ parts slots => by
    have hslots := values_offers s handle w slots
    have hmessage := finishCalls_renders s handle (w.values s handle slots).2 kind span parts
      (w.values s handle slots).1
    rw [hslots.around, hslots.handler] at hmessage
    simp only [stepCalls, Setting.stepSites]
    exact (valuesCalls_renders w slots).append hmessage
  | .property _ _ _ v => by
    simp only [stepCalls, Setting.stepSites]
    split
    · exact valueCalls_renders w v
    · exact valueCalls_renders (w.enter { isRuntime := true }) v
  | .scope scope body => by
    simp only [stepCalls, Setting.stepSites]
    exact stepsCalls_renders (w.enter scope) body
  | .binding _ _ body | .staticField _ _ body => by
    simp only [stepCalls, Setting.stepSites]
    exact stepsCalls_renders w body

theorem stepsCalls_renders (w : Walk σ) : ∀ xs : List Step,
    Renders s handle w.handler (s.stepsSites w.place.around xs) (w.stepsCalls s handle xs)
  | [] => .none _
  | x :: xs => by
    have hx := step_offers s handle w x
    have hxs := stepsCalls_renders (w.step s handle x) xs
    rw [hx.around, hx.handler] at hxs
    simp only [stepsCalls, Setting.stepsSites]
    exact (stepCalls_renders w x).append hxs

end

end Walk

/-- The calls of a whole walk. -/
def Setting.calls (s : Setting) (handle : Handler σ) (start : σ) : List LookupCall :=
  Walk.stepsCalls s handle (Walk.openFrame { handler := start }) s.outline

theorem Setting.calls_renders (s : Setting) (handle : Handler σ) (start : σ) :
    Walk.Renders s handle start s.outlineSites (s.calls handle start) :=
  Walk.stepsCalls_renders s handle (Walk.openFrame { handler := start }) s.outline

/-- The calls that extraction renders once the sites of a file have their keys. -/
def extractCalls {γ : Type} (code : String) (file : FileInfo) (options : Options)
    (generate : KeyGenerator γ) (table : Table) (state : γ) : List LookupCall :=
  match Source.read file.hasMarkup code with
  | .error _ => []
  | .ok source =>
    let s := Setting.of source file options
    match resolve s.sites file generate table state with
    | (.error _, _) => []
    | (.ok (r, _), _) => s.calls Applier.handler { keys := r.keys }

/-- Under the key of every call there is the message of its site. -/
theorem Setting.call_held (s : Setting) {r : Resolution} {t stored : Table}
    (hvalid : r.Valid s.sites t stored) (hsound : t.Sound) {call : LookupCall}
    (hcall : call ∈ s.calls Applier.handler { keys := r.keys }) :
    stored.Holds call.site call.key := by
  have htracks : Applier.Tracks { keys := r.keys } {} := rfl
  obtain ⟨-, -, hanswers⟩ := Applier.answers_tracks htracks s.outlineSites
  have hanswer := List.mem_map_of_mem (f := fun c : LookupCall => (c.site, c.key)) hcall
  rw [(s.calls_renders Applier.handler { keys := r.keys }).answered] at hanswer
  obtain ⟨hsite, hkey⟩ := hanswers _ hanswer
  rw [← s.sites_eq] at hsite
  obtain ⟨site, hm, hid, hheld⟩ := hvalid.keyed hsound _ (Text.mem_of_lookup hkey)
  have hnodup : (s.sites.map (·.id)).Nodup := by
    rw [s.sites_eq]
    exact Collector.nodup_after _ List.nodup_nil
  have hsame : site = call.site := List.inj_on_of_nodup_map hnodup hm hsite hid
  rwa [← hsame]

/-- The table that a file leaves behind has, under the key of every call it renders, the text of the
site and the names that the call gives values for. No lookup is put in place but by such a call. -/
theorem lookups_match_entries (entries : List (String × Entry))
    (hkeys : (entries.map (·.1)).Nodup) {t : Table} (ht : Table.GrownFrom (.ofEntries entries) t)
    {γ : Type} (code : String) (file : FileInfo) (options : Options) (generate : KeyGenerator γ)
    (state : γ) {outcome : FileOutcome}
    (h : (extract code file options generate t state).result = .ok outcome) :
    (extractCalls code file options generate t state).length = outcome.stats.extracted ∧
      ∀ call ∈ extractCalls code file options generate t state,
        call.text = renderLookup options.lookupFunction call.key call.slots ∧
        ∃ entry, (extract code file options generate t state).table.get? call.key = some entry ∧
          entry.text = call.site.text ∧
          entry.interpolations.Perm (call.slots.map (·.name)) := by
  have hindexed := ht.indexed (Table.indexed_ofEntries entries)
  have hsound := ht.sound (Table.indexed_ofEntries entries) (Table.sound_ofEntries hkeys)
  obtain ⟨source, r, stored, state', reread, hread, hres, htable, rfl⟩ := extract_ok h
  have hrenders := Setting.calls_renders (.of source file options) Applier.handler { keys := r.keys }
  have hcalls : extractCalls code file options generate t state =
      (Setting.of source file options).calls Applier.handler { keys := r.keys } := by
    simp only [extractCalls, hread, hres]
  rw [hcalls, htable]
  refine ⟨?_, ?_⟩
  · have happlied := Setting.walk_applied (.of source file options) Applier.handler { keys := r.keys }
    rw [← hrenders.answered, List.length_map] at happlied
    exact happlied.symm
  · intro call hcall
    have hvalid := resolve_valid hindexed hres
    obtain ⟨entry, hget, hsig⟩ := Setting.call_held _ hvalid hsound hcall
    refine ⟨hrenders.written call hcall, entry, hget, ?_, ?_⟩
    · exact congrArg Signature.text hsig
    · rw [hrenders.complete call hcall]
      have hsorted : Text.sortTexts entry.interpolations = Text.sortTexts call.site.vars :=
        congrArg Signature.vars hsig
      have hperm : (Text.sortTexts entry.interpolations).Perm call.site.vars := by
        rw [hsorted]
        exact Text.sortBy_perm _ _
      exact (Text.sortBy_perm _ _).symm.trans hperm

/-- A key that an earlier file took is given a number, and its call passes the slot that the entry
under the number names. -/
theorem lookups_match_entries_suffixed :
    let first := extract "f(\"完成\")" ⟨"src/a.ts", .component⟩ {} (sameKey "a.ok") (.ofEntries []) ()
    let code := "f(\x60共$\x7bn\x7d条\x60)"
    let file : FileInfo := ⟨"src/b.ts", .component⟩
    ∃ outcome, (extract code file {} (sameKey "a.ok") first.table ()).result = .ok outcome ∧
      outcome.stats.extracted = 1 ∧
      ∃ call ∈ extractCalls code file {} (sameKey "a.ok") first.table (),
        call.text = "t(\"a.ok_2\", \x7b n \x7d)" ∧
        ∃ entry, (extract code file {} (sameKey "a.ok") first.table ()).table.get? call.key =
          some entry ∧ entry.text = call.site.text ∧ entry.interpolations.Perm ["n"] := by
  intro first code file
  have hgrown : Table.GrownFrom (.ofEntries []) first.table := .extracted _ _ _ _ _ .start
  obtain ⟨hok, hcalls⟩ :
      (extract code file {} (sameKey "a.ok") first.table ()).result.toOption.isSome ∧
      (extractCalls code file {} (sameKey "a.ok") first.table ()).map
        (fun c => (c.text, c.slots.map (·.name))) =
          [("t(\"a.ok_2\", \x7b n \x7d)", ["n"])] := by
    decide +kernel
  cases h : (extract code file {} (sameKey "a.ok") first.table ()).result with
  | error fault =>
    rw [h] at hok
    cases hok
  | ok outcome =>
    obtain ⟨hcount, hheld⟩ := lookups_match_entries [] List.nodup_nil hgrown _ _ _ _ _ h
    obtain ⟨call, hsingle, hcall⟩ := List.map_eq_singleton_iff.mp hcalls
    obtain ⟨htext, hnames⟩ := Prod.mk.inj hcall
    have hmem : call ∈ extractCalls code file {} (sameKey "a.ok") first.table () := by
      rw [hsingle]
      exact List.mem_singleton_self call
    refine ⟨outcome, rfl, ?_, call, hmem, htext, ?_⟩
    · rw [← hcount, hsingle]
      rfl
    · rw [← hnames]
      exact (hheld call hmem).2

end Phrasebook
