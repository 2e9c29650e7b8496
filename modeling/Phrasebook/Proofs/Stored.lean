import Phrasebook.Proofs.Agreement
import Phrasebook.Proofs.Dedup
import Phrasebook.Proofs.Messages
import Phrasebook.Proofs.SlotNaming

/-!
Messages as they are stored. Whatever stood in the source, a literal, an attribute, a template, a
chain of `+` or markup, what is left of it when it is stored still has target text, and each of its
names stands in it as a slot.
-/
namespace Phrasebook

open Script Outline

/-! ### Runs of markup -/

namespace Text

theorem hasTarget_trimStart (text : String) : hasTarget (trimStart text) = hasTarget text := by
  simp [hasTarget, trimStart, any_dropWhile_isWhite]

theorem hasTarget_trimEnd (text : String) : hasTarget (trimEnd text) = hasTarget text := by
  simp [hasTarget, trimEnd, dropEndWhile, any_dropWhile_isWhite]

end Text

namespace Markup

def RunPart.hasTarget : RunPart → Bool
  | .text static => Text.hasTarget static
  | .expr _ => false

def Piece.hasTarget : Piece → Bool
  | .static joined => Text.hasTarget joined
  | .dynamic => false

theorem any_pushRunText (parts : List RunPart) (text : String) :
    (pushRunText parts text).any RunPart.hasTarget =
      (parts.any RunPart.hasTarget || Text.hasTarget text) := by
  unfold pushRunText
  split
  · rename_i last hlast
    obtain ⟨before, rfl⟩ := List.getLast?_eq_some_iff.mp hlast
    simp [RunPart.hasTarget, Text.hasTarget_append, Bool.or_assoc]
  · simp [RunPart.hasTarget]

/-- Joining the members of a run loses no target text. -/
theorem any_runParts (members : List Node) (index : Nat) (parts : List RunPart) :
    (runParts index parts members).any RunPart.hasTarget =
      (parts.any RunPart.hasTarget || members.any fun m => (pieceOf m).hasTarget) := by
  induction members generalizing index parts with
  | nil => simp [runParts]
  | cons child rest ih =>
    rw [runParts, List.any_cons]
    cases hpiece : pieceOf child with
    | static text =>
      simp only [ih, any_pushRunText, Bool.or_assoc]
      rfl
    | dynamic => simp [ih, RunPart.hasTarget, Piece.hasTarget]

theorem any_trimFirst (parts : List RunPart) :
    (trimFirst parts).any RunPart.hasTarget = parts.any RunPart.hasTarget := by
  unfold trimFirst
  split
  · simp [RunPart.hasTarget, Text.hasTarget_trimStart]
  · rfl

theorem any_trimLast (parts : List RunPart) :
    (trimLast parts).any RunPart.hasTarget = parts.any RunPart.hasTarget := by
  unfold trimLast
  split
  · rename_i last hlast
    obtain ⟨before, rfl⟩ := List.getLast?_eq_some_iff.mp hlast
    simp [RunPart.hasTarget, Text.hasTarget_trimEnd]
  · rfl

theorem any_filter_isEmptyText (parts : List RunPart) :
    (parts.filter (!isEmptyText ·)).any RunPart.hasTarget = parts.any RunPart.hasTarget := by
  have hempty : ∀ part : RunPart, (!isEmptyText part && part.hasTarget) = part.hasTarget := by
    intro part
    by_cases h : part = .text ""
    · subst h
      rfl
    · simp [isEmptyText, h]
  rw [List.any_filter]
  simp only [hempty]

/-- A run has target text, since one of its members has. -/
theorem planRun_hasTarget {source : Source} {start : Nat} {members : List Node} {r : Run}
    (h : planRun source start members = some r) : r.parts.any RunPart.hasTarget = true := by
  have hmergeable := isMergeable_of_planRun h
  have hmembers : (members.any fun m => (pieceOf m).hasTarget) = true := by
    simp only [isMergeable, Bool.and_eq_true, List.any_map] at hmergeable
    exact hmergeable.1.1
  unfold planRun at h
  split at h
  · rw [if_pos hmergeable] at h
    cases h
    rw [any_filter_isEmptyText, any_trimLast, any_trimFirst, any_runParts, hmembers, Bool.or_true]
  · cases h

theorem runsFor_hasTarget {source : Source} {isData : Bool} {owner : Span} {r : Run}
    (h : r ∈ (Plan.build source isData).runsFor owner) : r.parts.any RunPart.hasTarget = true := by
  unfold Plan.build Plan.runsFor at h
  split at h
  · cases h
  · cases hlookup : (planNode source source.tree).lookup owner with
    | none => simp [hlookup] at h
    | some runs =>
      obtain ⟨m, -, -, -, rfl⟩ := mem_planNode (Text.mem_of_lookup hlookup)
      rw [hlookup, Option.getD_some] at h
      obtain ⟨start, members, -, hrun⟩ := planFrom_members _ h
      exact planRun_hasTarget hrun

theorem Run.hasTarget_message {r : Run} (h : r.parts.any RunPart.hasTarget = true)
    (children : List Node) : Message.hasTarget (r.message children) = true := by
  obtain ⟨part, hpart, htarget⟩ := List.any_eq_true.mp h
  cases part with
  | expr i => cases htarget
  | text text =>
    have hmem : Part.text text ∈ r.message children :=
      List.mem_filterMap.mpr ⟨_, hpart, rfl⟩
    exact List.any_eq_true.mpr ⟨_, hmem, htarget⟩

end Markup

/-! ### Wordings of an outline -/

theorem Setting.messageOf_hasTarget {kind : Kind} {span : Span} {nodes : List Node}
    {parts : List Part} (h : messageOf kind span nodes = some parts) :
    Message.hasTarget parts = true := by
  unfold messageOf at h
  split at h
  · exact (Option.filter_eq_some_iff.mp h).2
  · exact (Option.filter_eq_some_iff.mp h).2
  · cases h

/-- Every wording of a module has target text. -/
theorem Setting.outline_hasTarget (source : Source) (file : FileInfo) (options : Options) :
    ∀ m ∈ stepsWordings (Setting.of source file options).outline,
      Message.hasTarget m.parts = true := by
  have hforms : (Setting.of source file options).Forms fun m => Message.hasTarget m.parts = true :=
    { text := fun text htarget => by simpa [Message.hasTarget] using htarget
      message := fun _ _ => messageOf_hasTarget
      run := fun _ _ hr cs =>
        Markup.Run.hasTarget_message (Markup.runsFor_hasTarget hr) (cs.map (·.1)) }
  intro m hm
  have hparts := List.mem_map_of_mem (f := Wording.parts) hm
  rw [← stepsFillings_map_parts] at hparts
  obtain ⟨filling, hfilling, heq⟩ := List.mem_map.mp hparts
  rw [← heq]
  exact every_outline hforms filling hfilling

/-! ### Entries -/

/-- Target text of a message is in its text, whatever the slots are called. -/
theorem hasTarget_spelled {source : Source} {naming : String → String} {parts : List Part}
    (h : Message.hasTarget parts = true) :
    (Fragment.spelledAll (parts.map (Part.named source naming))).any Text.isTarget = true := by
  obtain ⟨part, hpart, htarget⟩ := List.any_eq_true.mp h
  cases part with
  | slot e => cases htarget
  | text text =>
    obtain ⟨c, hc, hct⟩ := List.any_eq_true.mp htarget
    have hfragment : Fragment.text text ∈ parts.map (Part.named source naming) :=
      List.mem_map_of_mem hpart
    exact List.any_eq_true.mpr ⟨c, List.mem_flatMap.mpr ⟨_, hfragment, hc⟩, hct⟩

/-- A slot is spelled out in the text. -/
theorem tag_infix_spelled {name : String} {fs : List Fragment} (h : .slot name ∈ fs) :
    Fragment.tag name <:+: Fragment.spelledAll fs := by
  obtain ⟨before, after, rfl⟩ := List.append_of_mem h
  refine ⟨Fragment.spelledAll before, Fragment.spelledAll after, ?_⟩
  simp [Fragment.spelledAll, Fragment.spelled]

theorem Collector.after_subset (c : Collector) (sites : List Site) :
    c.after sites ⊆ c.sites ++ sites := by
  induction sites generalizing c with
  | nil => simp [after, Handler.answers]
  | cons site rest ih =>
    rw [after_cons]
    refine List.Subset.trans (ih _) ?_
    obtain ⟨-, h⟩ | ⟨-, h⟩ := handler_sites site c
    · rw [h]
      simp
    · rw [h]
      simp

theorem Demand.pending_subset (t : Table) (sites : List Site) :
    (Demand.of t sites).pending ⊆ sites := by
  induction sites using List.reverseRecOn with
  | nil => exact List.Subset.refl _
  | append_singleton sites site ih =>
    have hold : (Demand.of t sites).pending ⊆ sites ++ [site] :=
      List.Subset.trans ih (List.subset_append_left _ _)
    rw [Demand.of_concat]
    unfold Demand.add
    split
    · exact hold
    · split
      · exact hold
      · exact List.append_subset.mpr ⟨hold, List.subset_append_right _ _⟩

/-- An entry that was not there before is what one of the sites says. -/
theorem Storing.addAll_entries (file : FileInfo) (pairs : List (Site × String)) {st : Storing}
    {key : String} {entry : Entry}
    (h : (st.addAll file pairs).table.get? key = some entry) :
    st.table.get? key = some entry ∨
      ∃ p ∈ pairs, entry = ⟨p.1.text, file.path, p.1.vars⟩ := by
  induction pairs generalizing st with
  | nil => exact .inl h
  | cons p rest ih =>
    have hrest : ((st.add file p.1 p.2).addAll file rest).table.get? key = some entry := h
    rcases ih hrest with hget | ⟨q, hq, heq⟩
    · have hput : ∀ other,
          (st.table.put other ⟨p.1.text, file.path, p.1.vars⟩).get? key = some entry →
          st.table.get? key = some entry ∨
            ∃ q ∈ p :: rest, entry = ⟨q.1.text, file.path, q.1.vars⟩ := by
        intro other hget
        by_cases hkey : key = other
        · subst hkey
          rw [Table.get?_put_self, Option.some.injEq] at hget
          exact .inr ⟨p, List.mem_cons_self .., hget.symm⟩
        · rw [Table.get?_put_of_ne hkey] at hget
          exact .inl hget
      obtain ⟨-, heq⟩ | ⟨existing, -, -, heq⟩ | ⟨existing, -, -, heq⟩ :=
        st.table.insert_cases p.2 ⟨p.1.text, file.path, p.1.vars⟩
      · simp only [Storing.add, heq] at hget
        exact hput _ hget
      · simp only [Storing.add, heq] at hget
        exact .inl hget
      · simp only [Storing.add, heq] at hget
        exact hput _ hget
    · exact .inr ⟨q, List.mem_cons_of_mem _ hq, heq⟩

variable {γ : Type} {code : String} {file : FileInfo} {options : Options}
  {generate : KeyGenerator γ} {state state' : γ} {t stored : Table} {key : String} {entry : Entry}

theorem resolve_entries {sites : List Site} {r : Resolution}
    (hres : resolve sites file generate t state = (.ok (r, stored), state'))
    (hnew : stored.get? key = some entry) (hold : t.get? key = none) :
    ∃ site ∈ sites, entry = ⟨site.text, file.path, site.vars⟩ := by
  obtain ⟨-, -, rfl, -⟩ | ⟨keys, st, -, -, -, rfl, rfl, -⟩ := resolve_ok hres
  · rw [hold] at hnew
    cases hnew
  · rcases Storing.addAll_entries file _ hnew with hget | ⟨p, hp, heq⟩
    · rw [hold] at hget
      cases hget
    · exact ⟨p.1, Demand.pending_subset t sites (List.of_mem_zip hp).1, heq⟩

/-- What a wording says is well formed. -/
theorem Setting.said_well_formed {source : Source} {m : Wording} {site : Site}
    (hm : m ∈ (Setting.of source file options).wordingsOf site) :
    Text.hasTarget site.text = true ∧ site.vars.Nodup ∧
      (site.vars = [] ↔ ∀ e, .slot e ∉ m.parts) ∧
      ∃ naming : String → String,
        site.vars = (Message.slotSources source m.parts).eraseDups.map naming ∧
        site.text.toList = Fragment.spelledAll (m.parts.map (Part.named source naming)) := by
  obtain ⟨houtline, hsaid⟩ := List.mem_filter.mp hm
  have hsaid : (Setting.of source file options).said m = site.said := beq_iff_eq.mp hsaid
  simp only [said, Site.said, Prod.mk.injEq] at hsaid
  obtain ⟨-, htext, hvars⟩ := hsaid
  obtain ⟨hnodup, naming, hnames, hspelled⟩ := Bound.fill_named source m.parts
  have hsource : (Setting.of source file options).source = source := rfl
  rw [hsource] at htext hvars
  rw [hvars] at hnodup hnames
  rw [htext] at hspelled
  have htarget := outline_hasTarget source file options m houtline
  refine ⟨?_, hnodup, ?_, naming, hnames, hspelled⟩
  · rw [Text.hasTarget, hspelled]
    exact hasTarget_spelled htarget
  · rw [hnames, List.map_eq_nil_iff, List.eq_nil_iff_forall_not_mem]
    simp only [List.mem_eraseDups, Message.slotSources, List.mem_filterMap, not_exists, not_and]
    constructor
    · intro hnone e he
      exact hnone _ _ he rfl
    · intro hnone x p hp
      cases p with
      | text text => simp
      | slot e => exact absurd hp (hnone e)

/-- Every entry that a file adds has target text, names that differ, each of them spelled out as a
slot, and it says what a text of the file says: the names stand in the order in which the source
texts of its slots first appear, and there are none exactly if there is no slot. -/
theorem stored_messages_well_formed {outcome : FileOutcome}
    (hok : (extract code file options generate t state).result = .ok outcome)
    (hnew : (extract code file options generate t state).table.get? key = some entry)
    (hold : t.get? key = none) :
    Text.hasTarget entry.text = true ∧ entry.interpolations.Nodup ∧
      (∀ name ∈ entry.interpolations, Fragment.tag name <:+: entry.text.toList) ∧
      ∃ source, Source.read file.hasMarkup code = .ok source ∧
        ∃ site ∈ (Setting.of source file options).sites,
          entry = ⟨site.text, file.path, site.vars⟩ ∧
          (Setting.of source file options).wordingsOf site ≠ [] ∧
          ∀ m ∈ (Setting.of source file options).wordingsOf site,
            (entry.interpolations = [] ↔ ∀ e, .slot e ∉ m.parts) ∧
            ∃ naming : String → String,
              entry.interpolations = (Message.slotSources source m.parts).eraseDups.map naming ∧
              entry.text.toList =
                Fragment.spelledAll (m.parts.map (Part.named source naming)) := by
  obtain ⟨source, r, stored, state', reread, hread, hres, htable, -⟩ := extract_ok hok
  rw [htable] at hnew
  obtain ⟨site, hsite, rfl⟩ := resolve_entries hres hnew hold
  have houtline : site ∈ (Setting.of source file options).outlineSites := by
    have hcollected := hsite
    rw [Setting.sites_eq] at hcollected
    simpa using Collector.after_subset {} _ hcollected
  have hworded := Setting.wordingsOf_ne_nil _ houtline
  obtain ⟨m, hm⟩ := List.exists_mem_of_ne_nil _ hworded
  obtain ⟨htarget, hnodup, -, naming, hnames, hspelled⟩ := Setting.said_well_formed hm
  refine ⟨htarget, hnodup, ?_, source, hread, site, hsite, rfl, hworded, ?_⟩
  · intro name hname
    simp only [hnames, List.mem_map, List.mem_eraseDups] at hname
    obtain ⟨x, hx, rfl⟩ := hname
    obtain ⟨p, hp, hslot⟩ := List.mem_filterMap.mp hx
    cases p with
    | text text => cases hslot
    | slot e =>
      cases hslot
      simp only [hspelled]
      exact tag_infix_spelled (List.mem_map_of_mem (f := Part.named source naming) hp)
  · intro m hm
    obtain ⟨-, -, hempty, hnaming⟩ := Setting.said_well_formed hm
    exact ⟨hempty, hnaming⟩

/-- The first and the last slot share a name, and the one between them would have the same. -/
theorem stored_messages_well_formed_shared :
    let x := extract "f(\x60共$\x7bn\x7d条$\x7bm.n\x7d$\x7bn\x7d\x60)" ⟨"src/a.ts", .component⟩ {}
      (sameKey "k") {} ()
    let entry : Entry := ⟨"共\x7bn\x7d条\x7bn2\x7d\x7bn\x7d", "src/a.ts", ["n", "n2"]⟩
    (∃ outcome, x.result = .ok outcome) ∧ x.table.get? "k" = some entry ∧
      ({} : Table).get? "k" = none ∧ Text.hasTarget entry.text = true ∧
      entry.interpolations.Nodup ∧
      ∀ name ∈ entry.interpolations, Fragment.tag name <:+: entry.text.toList := by
  intro x entry
  have hok : x.result.isOk = true := by decide +kernel
  have hget : x.table.get? "k" = some entry := by decide +kernel
  have hold : ({} : Table).get? "k" = none := rfl
  cases hresult : x.result with
  | error fault =>
    rw [hresult] at hok
    cases hok
  | ok outcome =>
    obtain ⟨htarget, hnodup, htags, -⟩ := stored_messages_well_formed hresult hget hold
    exact ⟨⟨outcome, rfl⟩, hget, hold, htarget, hnodup, htags⟩

end Phrasebook
