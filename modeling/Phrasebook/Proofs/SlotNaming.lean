import Mathlib.Data.List.Nodup
import Phrasebook.Proofs.Phrases

/-!
How the slots of a message are named. Slots with the same source text share a name and others never
do, and the names are listed in the order in which the source texts first appear.
-/
namespace Phrasebook

open Script

namespace SlotNames

/-! ### Free names -/

/-- A number after the base name tells the names apart, also from the base name itself. -/
theorem numbered_nodup (base : String) (count : Nat) :
    (base :: (List.range count).map fun i => base ++ toString (i + 2)).Nodup := by
  refine List.nodup_cons.mpr ⟨?_, List.nodup_range.map ?_⟩
  · intro h
    obtain ⟨i, -, heq⟩ := List.mem_map.mp h
    have hdigits : (toString (i + 2)).toList = [] := by
      simpa using congrArg String.toList heq
    simp [Nat.toString_eq_repr, Nat.toList_repr] at hdigits
  · intro i j h
    have hdigits : toString (i + 2) = toString (j + 2) := by simpa using h
    have := Text.toString_injective hdigits
    omega

/-- With the base name itself there are more names to try than taken ones. -/
theorem freeName_not_mem (taken : List String) (base : String) : freeName taken base ∉ taken := by
  unfold freeName
  split
  · rename_i hbase
    let candidates := (List.range taken.length).map fun i => base ++ toString (i + 2)
    have hex : ∃ name ∈ candidates, name ∉ taken := by
      by_contra hall
      push Not at hall
      have hsub : base :: candidates ⊆ taken :=
        List.cons_subset.mpr ⟨by simpa using hbase, hall⟩
      have hle := ((numbered_nodup base taken.length).subperm hsub).length_le
      simp only [List.length_cons, List.length_map, List.length_range] at hle
      omega
    obtain ⟨name, hname, hfree⟩ := hex
    cases hfind : candidates.find? (!taken.contains ·) with
    | none =>
      have := List.find?_eq_none.mp hfind name hname
      simp [hfree] at this
    | some found =>
      have hfound := List.find?_some hfind
      simpa [candidates, hfind] using hfound
  · rename_i hbase
    simpa using hbase

/-! ### Naming one slot -/

variable {n : SlotNames} {sources : List String}

/-- A source that has a name keeps it, and any other gets one that is free. -/
theorem bind_cases (n : SlotNames) (base source value : String) (shorthand : Bool) :
    (∃ name, (source, name) ∈ n.labels ∧ n.bind base source value shorthand = (name, n)) ∨
    (source ∉ n.labels.map (·.1) ∧ ∃ name, name ∉ n.names ∧
      (n.bind base source value shorthand).1 = name ∧
      (n.bind base source value shorthand).2.labels = n.labels ++ [(source, name)]) := by
  unfold bind
  cases hfind : n.bound.find? (·.1 == source) with
  | some p =>
    have hsource : p.1 = source := by simpa using List.find?_some hfind
    refine .inl ⟨p.2.name, ?_, rfl⟩
    rw [← hsource]
    exact List.mem_map_of_mem (List.mem_of_find?_eq_some hfind)
  | none =>
    refine .inr ⟨?_, _, freeName_not_mem n.names base, rfl, by simp [labels]⟩
    intro hmem
    obtain ⟨b, hb⟩ : ∃ b, (source, b) ∈ n.bound := by simpa [labels] using hmem
    have hother := List.find?_eq_none.mp hfind _ hb
    simp at hother

theorem mem_labels_bind (n : SlotNames) (base source value : String) (shorthand : Bool) :
    (source, (n.bind base source value shorthand).1) ∈
      (n.bind base source value shorthand).2.labels := by
  obtain ⟨name, hmem, heq⟩ | ⟨-, name, -, hname, hlabels⟩ :=
    n.bind_cases base source value shorthand
  · rwa [heq]
  · simp [hlabels, hname]

theorem labels_subset_bind (n : SlotNames) (base source value : String) (shorthand : Bool) :
    n.labels ⊆ (n.bind base source value shorthand).2.labels := by
  obtain ⟨name, -, heq⟩ | ⟨-, name, -, -, hlabels⟩ := n.bind_cases base source value shorthand
  · rw [heq]
    exact List.Subset.refl _
  · rw [hlabels]
    exact List.subset_append_left _ _

/-- The sources are named in the order in which each appears first, all by different names. -/
structure Names (n : SlotNames) (sources : List String) : Prop where
  order : n.labels.map (·.1) = sources.eraseDups
  once : (n.labels.map (·.1)).Nodup
  distinct : n.names.Nodup

theorem names_empty : Names {} [] := ⟨rfl, List.nodup_nil, List.nodup_nil⟩

theorem Names.bind (h : n.Names sources) (base source value : String) (shorthand : Bool) :
    (n.bind base source value shorthand).2.Names (sources ++ [source]) := by
  have hseen : source ∈ n.labels.map (·.1) ↔ source ∈ sources := by
    rw [h.order, List.mem_eraseDups]
  obtain ⟨name, hmem, heq⟩ | ⟨hnew, name, hfree, -, hlabels⟩ :=
    n.bind_cases base source value shorthand
  · have hold : source ∈ sources := hseen.mp (List.mem_map_of_mem hmem)
    rw [heq]
    refine ⟨?_, h.once, h.distinct⟩
    rw [h.order, List.eraseDups_append]
    simp [List.removeAll, hold]
  · have hout : source ∉ sources := fun hs => hnew (hseen.mpr hs)
    refine ⟨?_, ?_, ?_⟩
    · rw [hlabels, List.map_append, h.order, List.eraseDups_append]
      simp [List.removeAll, hout, List.eraseDups_cons]
    · rw [hlabels, List.map_append]
      exact List.nodup_append.mpr ⟨h.once, List.nodup_singleton _, by
        rintro a ha b hb rfl
        exact hnew (by rwa [List.mem_singleton.mp hb] at ha)⟩
    · rw [names_eq, hlabels, List.map_append, ← names_eq]
      exact List.nodup_append.mpr ⟨h.distinct, List.nodup_singleton _, by
        rintro a ha b hb rfl
        exact hfree (by rwa [List.mem_singleton.mp hb] at ha)⟩

/-- Each source goes by one name, so the names are a function of it. -/
theorem Names.exists_naming (h : n.Names sources) :
    ∃ naming : String → String, (∀ p ∈ n.labels, naming p.1 = p.2) ∧
      n.names = sources.eraseDups.map naming := by
  have hnaming : ∀ p ∈ n.labels, (n.labels.lookup p.1).getD "" = p.2 := by
    intro p hp
    obtain ⟨before, after, hsplit⟩ := List.append_of_mem hp
    have hfirst : ∀ q ∈ before, (p.1 != q.1) = true := by
      intro q hq
      have honce := h.once
      rw [hsplit, List.map_append, List.map_cons] at honce
      have hne := (List.nodup_append.mp honce).2.2 q.1 (List.mem_map_of_mem hq) p.1
        (List.mem_cons_self ..)
      simpa using Ne.symm hne
    have hlookup : n.labels.lookup p.1 = some p.2 :=
      List.lookup_eq_some_iff.mpr ⟨before, after, hsplit, hfirst⟩
    rw [hlookup, Option.getD_some]
  refine ⟨fun source => (n.labels.lookup source).getD "", hnaming, ?_⟩
  rw [names_eq, ← h.order, List.map_map]
  exact (List.map_congr_left hnaming).symm

end SlotNames

/-! ### Naming the slots of a message -/

/-- The source texts of the slots in order. -/
def Message.slotSources (source : Source) (parts : List Part) : List String :=
  parts.filterMap fun
    | .text _ => none
    | .slot e => some (source.snippet e.span)

/-- A part of a message with a given name for each source text. -/
def Part.named (source : Source) (naming : String → String) : Part → Fragment
  | .text static => .text static
  | .slot e => .slot (naming (source.snippet e.span))

namespace Bound

variable (source : Source)

theorem fill_names (parts : List Part) {b : Bound} {sources : List String}
    (h : b.names.Names sources) :
    (fill source b parts []).names.Names (sources ++ Message.slotSources source parts) := by
  induction parts generalizing b sources with
  | nil => simpa [Message.slotSources, fill] using h
  | cons p parts ih =>
    cases p with
    | text text => exact ih (b := b.pushText text) h
    | slot e =>
      have hnext : (b.pushSlot source e none).names.Names (sources ++ [source.snippet e.span]) :=
        h.bind ..
      simpa [Message.slotSources, fill] using ih hnext

theorem labels_subset_fill (parts : List Part) (b : Bound) :
    b.names.labels ⊆ (fill source b parts []).names.labels := by
  induction parts generalizing b with
  | nil => exact List.Subset.refl _
  | cons p parts ih =>
    cases p with
    | text text => exact ih (b.pushText text)
    | slot e =>
      exact List.Subset.trans (SlotNames.labels_subset_bind ..) (ih (b.pushSlot source e none))

theorem fragments_eq_named (parts : List Part) (b : Bound) {naming : String → String}
    (h : ∀ p ∈ (fill source b parts []).names.labels, naming p.1 = p.2) :
    fragments source b parts = parts.map (Part.named source naming) := by
  induction parts generalizing b with
  | nil => rfl
  | cons p parts ih =>
    cases p with
    | text text =>
      rw [fragments, List.map_cons, Part.named, ih (b.pushText text) h]
    | slot e =>
      have hlabel : (source.snippet e.span, b.nameOf source e) ∈
          (fill source (b.pushSlot source e none) parts []).names.labels :=
        labels_subset_fill source parts (b.pushSlot source e none) (SlotNames.mem_labels_bind ..)
      rw [fragments, List.map_cons, Part.named, ih (b.pushSlot source e none) h, h _ hlabel]

/-- A message is its parts with a name for each source text of a slot. The names are listed in the
order in which these first appear, and no two of them are the same. -/
theorem fill_named (parts : List Part) :
    (fill source {} parts []).names.names.Nodup ∧
    ∃ naming : String → String,
      (fill source {} parts []).names.names =
        (Message.slotSources source parts).eraseDups.map naming ∧
      (fill source {} parts []).text.toList =
        Fragment.spelledAll (parts.map (Part.named source naming)) := by
  have hnames := fill_names source parts (b := {}) SlotNames.names_empty
  obtain ⟨naming, hnaming, hlist⟩ := hnames.exists_naming
  refine ⟨hnames.distinct, naming, hlist, ?_⟩
  rw [fill_text, ← fragments_eq_named source parts {} hnaming]
  rfl

end Bound

end Phrasebook
