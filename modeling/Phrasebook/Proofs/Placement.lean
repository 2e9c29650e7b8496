import Mathlib.Data.List.Pairwise
import Phrasebook.Extract
import Phrasebook.Proofs.Agreement
import Phrasebook.Proofs.Fitting

/-!
Every edit is put in its place. In a source that is laid out, no site is met twice, whatever is
spliced on the way is spliced whole, and the edits of the module leave room for the import of the
lookup function.
-/
namespace Phrasebook

open Script Outline

/-! ### Sites met once -/

/-- Sites of which no two are the same are never refused. Each one that has a key gets it. -/
theorem Applier.answers_once {sites : List Site} (hids : (sites.map (·.id)).Nodup) {a : Applier}
    (hnew : ∀ site ∈ sites, site.id ∉ a.consumed) :
    (Applier.handler.answers sites a).2.doubleConsumed = a.doubleConsumed ∧
      (Applier.handler.answers sites a).1.length =
        (sites.filter fun site => (a.keys.get? site.id).isSome).length := by
  induction sites generalizing a with
  | nil => exact ⟨rfl, rfl⟩
  | cons site rest ih =>
    obtain ⟨hfirst, hrest⟩ := List.nodup_cons.mp hids
    have hseen : a.consumed.contains site.id = false :=
      Bool.eq_false_iff.mpr fun h => hnew site (List.mem_cons_self ..) (List.contains_iff_mem.mp h)
    have hlater : ∀ x ∈ rest, x.id ∉ a.consumed ++ [site.id] := by
      intro x hx hmem
      rcases List.mem_append.mp hmem with hmem | hmem
      · exact hnew x (List.mem_cons_of_mem _ hx) hmem
      · exact hfirst (List.mem_map.mpr ⟨x, hx, List.mem_singleton.mp hmem⟩)
    simp only [Handler.answers, handler, hseen, Bool.false_eq_true, if_false]
    cases hkey : a.keys.get? site.id with
    | none =>
      obtain ⟨hdouble, hcount⟩ := ih hrest (a := { a with
        consumed := a.consumed ++ [site.id]
        unmatched := a.unmatched + 1
        warnings := a.warnings ++ [describe site ++ " has no assigned key; left untouched"] }) hlater
      exact ⟨hdouble, by simpa [hkey] using hcount⟩
    | some key =>
      obtain ⟨hdouble, hcount⟩ :=
        ih hrest (a := { a with consumed := a.consumed ++ [site.id] }) hlater
      exact ⟨hdouble, by simpa [hkey, Nat.add_comm] using hcount⟩

/-! ### Edits of a whole range -/

namespace Edit

variable {range : Span} {edits : List Edit}

theorem FitIn.of_laidIn (h : Span.LaidIn [range] (edits.map span)) : FitIn range edits := by
  refine ⟨?_, h.apart⟩
  intro e he
  obtain ⟨hne, p, hp, hin⟩ := h.inside e.span (List.mem_map_of_mem he)
  rw [List.mem_singleton.mp hp] at hin
  exact ⟨Nat.le_of_lt hne, hin⟩

theorem FitIn.sublist {fewer : List Edit} (h : FitIn range edits) (hsub : fewer.Sublist edits) :
    FitIn range fewer :=
  ⟨fun e he => h.inside e (hsub.subset he), h.apart.sublist (hsub.map span)⟩

/-- There is room for an insertion between the edits. -/
theorem FitIn.insert (h : FitIn range edits) {pos : Nat} (hlo : range.lo ≤ pos)
    (hhi : pos ≤ range.hi)
    (hbetween : ∀ e ∈ edits, pos ≤ e.lo ∨ e.hi ≤ pos) (text : String) :
    FitIn range (edits ++ [insertAt pos text]) := by
  constructor
  · intro e he
    rcases List.mem_append.mp he with he | he
    · exact h.inside e he
    · rw [List.mem_singleton.mp he]
      exact ⟨Nat.le_refl _, hlo, hhi⟩
  · rw [List.map_append, List.pairwise_append]
    refine ⟨h.apart, by simp, ?_⟩
    intro a ha b hb
    obtain ⟨e, he, rfl⟩ := List.mem_map.mp ha
    rw [List.map_singleton, List.mem_singleton] at hb
    rw [hb]
    exact (hbetween e he).symm

end Edit

/-- The edits fit into the range, and all of them are in the text that it becomes. -/
def Walk.Splicing.Whole (code : List Char) (x : Walk.Splicing) : Prop :=
  Edit.FitIn x.span x.edits ∧ splice code x.span.lo x.span.hi x.edits =
    String.ofList (placeAll code x.span.hi x.span.lo (Edit.sort x.edits))

theorem Walk.Splicing.Laid.whole {x : Walk.Splicing} (h : x.Laid) (code : List Char) :
    x.Whole code :=
  ⟨.of_laidIn h, splice_eq_placeAll code (.of_laidIn h)⟩

/-! ### Items of a module -/

namespace Script.Node

def isImport (n : Node) : Bool :=
  match n.kind with
  | .importDecl .. => true
  | _ => false

/-- The ranges that the edits of an item stay in. An import is edited in its parts only. -/
def itemPlaces (n : Node) : List Span := if n.isImport then placesOfAll n.children else n.places

/-- The offsets at an item where the lookup function may be brought in: its ends, and the end of the
keyword of an import. -/
def marks (n : Node) : List Nat :=
  [n.span.lo, n.span.hi] ++ if n.isImport then [n.span.lo + "import".length] else []

end Script.Node

/-- How a source lies in its text. No offset where the lookup function may be brought in is inside
anything that is edited. -/
structure Script.Source.LaidOut (source : Source) : Prop where
  root : source.tree.kind = .module
  spaced : ∀ n ∈ source.tree.subnodes, n.Spaced
  /-- No two elements have the same range. -/
  distinct : ((source.tree.subnodes.filter Markup.isMarkup).map Node.span).Nodup
  within : ∀ p ∈ source.items.flatMap Node.itemPlaces, p.hi ≤ Text.byteLength source.code
  marks : ∀ pos ∈ source.items.flatMap Node.marks, pos ≤ Text.byteLength source.code ∧
    ∀ p ∈ source.items.flatMap Node.itemPlaces, pos ≤ p.lo ∨ p.hi ≤ pos

/-- A source whose nodes are nested one in the other, with nothing in the keyword of an import. -/
structure Script.Source.Nested (source : Source) : Prop where
  root : source.tree.kind = .module
  nodes : ∀ n ∈ source.tree.subnodes, n.Nested
  distinct : ((source.tree.subnodes.filter Markup.isMarkup).map Node.span).Nodup
  within : source.tree.span.hi ≤ Text.byteLength source.code
  imports : ∀ n ∈ source.items, n.isImport = true → n.span.lo + "import".length ≤ n.span.hi ∧
    ∀ c ∈ n.children, n.span.lo + "import".length ≤ c.span.lo

instance (source : Source) : Decidable source.Nested :=
  decidable_of_iff (source.tree.kind = .module ∧ (∀ n ∈ source.tree.subnodes, n.Nested) ∧
      ((source.tree.subnodes.filter Markup.isMarkup).map Node.span).Nodup ∧
      source.tree.span.hi ≤ Text.byteLength source.code ∧
      ∀ n ∈ source.items, n.isImport = true → n.span.lo + "import".length ≤ n.span.hi ∧
        ∀ c ∈ n.children, n.span.lo + "import".length ≤ c.span.lo)
    ⟨fun h => ⟨h.1, h.2.1, h.2.2.1, h.2.2.2.1, h.2.2.2.2⟩,
      fun h => ⟨h.root, h.nodes, h.distinct, h.within, h.imports⟩⟩

namespace Script.Source.Nested

variable {source : Source} {m n : Node} {p : Span} {pos : Nat}

theorem below (h : source.Nested) (hn : n ∈ source.items) : ∀ m ∈ n.subnodes, m.Nested :=
  fun m hm => h.nodes m (Node.subnodes_subset_of_mem_children hn hm)

theorem child_snug (h : source.Nested) (hn : n ∈ source.items) : ∀ c ∈ n.children, c.Snug :=
  fun _ hc => Node.snug_of_nested fun m hm =>
    h.below hn m (Node.subnodes_subset_of_mem_children hc hm)

theorem item_inside (h : source.Nested) (hn : n ∈ source.items) :
    n.span.lo < n.span.hi ∧ n.span.hi ≤ Text.byteLength source.code := by
  have hroot := (h.nodes _ (Node.mem_subnodes_self _)).laid
  obtain ⟨hne, q, hq, -, hhi⟩ := hroot.inside n.span (List.mem_map_of_mem hn)
  rw [List.mem_singleton.mp hq] at hhi
  exact ⟨hne, Nat.le_trans hhi h.within⟩

theorem inside_item (h : source.Nested) (hn : n ∈ source.items) (hp : p ∈ n.itemPlaces) :
    p.Inside n.span := by
  have hsnug := Node.snug_of_nested (h.below hn)
  unfold Node.itemPlaces at hp
  split at hp
  · exact hsnug p hp
  · rw [hsnug.places_eq] at hp
    rw [List.mem_singleton.mp hp]
    exact .refl _

theorem mark_inside (h : source.Nested) (hm : m ∈ source.items) (hpos : pos ∈ m.marks) :
    m.span.lo ≤ pos ∧ pos ≤ m.span.hi := by
  obtain ⟨hne, -⟩ := h.item_inside hm
  unfold Node.marks at hpos
  split at hpos
  · rename_i himport
    obtain ⟨hkeyword, -⟩ := h.imports m hm himport
    simp only [List.mem_append, List.mem_cons, List.not_mem_nil, or_false] at hpos
    rcases hpos with (rfl | rfl) | rfl <;> omega
  · simp only [List.append_nil, List.mem_cons, List.not_mem_nil, or_false] at hpos
    rcases hpos with rfl | rfl <;> omega

/-- The marks of an item lie between the places of its own edits. -/
theorem mark_outside (h : source.Nested) (hn : n ∈ source.items) (hpos : pos ∈ n.marks)
    (hp : p ∈ n.itemPlaces) : pos ≤ p.lo ∨ p.hi ≤ pos := by
  obtain ⟨hlo, hhi⟩ := h.inside_item hn hp
  unfold Node.marks at hpos
  split at hpos
  · rename_i himport
    simp only [List.mem_append, List.mem_cons, List.not_mem_nil, or_false] at hpos
    rcases hpos with (rfl | rfl) | rfl
    · exact .inl hlo
    · exact .inr hhi
    · -- Behind the keyword: the parts of the import start later.
      rw [Node.itemPlaces, if_pos himport, Node.placesOfAll_eq_map (h.child_snug hn)] at hp
      obtain ⟨c, hc, rfl⟩ := List.mem_map.mp hp
      exact .inl ((h.imports n hn himport).2 c hc)
  · simp only [List.append_nil, List.mem_cons, List.not_mem_nil, or_false] at hpos
    rcases hpos with rfl | rfl
    · exact .inl hlo
    · exact .inr hhi

theorem laidOut (h : source.Nested) : source.LaidOut where
  root := h.root
  spaced := fun _ hn => Node.spaced_of_nested fun m hm =>
    h.nodes m (Node.subnodes_subset_of_mem_subnodes hn hm)
  distinct := h.distinct
  within := by
    intro p hp
    obtain ⟨n, hn, hp⟩ := List.mem_flatMap.mp hp
    exact Nat.le_trans (h.inside_item hn hp).2 (h.item_inside hn).2
  marks := by
    intro pos hpos
    obtain ⟨m, hm, hpos⟩ := List.mem_flatMap.mp hpos
    have hin := h.mark_inside hm hpos
    refine ⟨Nat.le_trans hin.2 (h.item_inside hm).2, ?_⟩
    intro p hp
    obtain ⟨n, hn, hp⟩ := List.mem_flatMap.mp hp
    by_cases hsame : m = n
    · exact h.mark_outside hn (hsame ▸ hpos) hp
    · have hroot := (h.nodes _ (Node.mem_subnodes_self _)).laid
      have : Std.Symm fun a b : Node => a.span.Apart b.span := ⟨fun _ _ => .symm⟩
      have hapart := (List.pairwise_map.mp hroot.apart).forall hm hn hsame
      obtain ⟨hlo, hhi⟩ := h.inside_item hn hp
      rcases hapart with hbefore | hafter
      · exact .inl (by omega)
      · exact .inr (by omega)

end Script.Source.Nested

/-- The lookup function is brought in by one insertion at most, next to an item. -/
theorem importEdits_cases (items : List Node) (o : Options) :
    importEdits items o = [] ∨ ∃ pos text, importEdits items o = [.insertAt pos text] ∧
      (pos = 0 ∧ items = [] ∨ pos ∈ items.flatMap Node.marks) := by
  have hmark : ∀ {n : Node} {pos : Nat}, n ∈ items → pos ∈ n.marks →
      pos ∈ items.flatMap Node.marks := fun hn hpos => List.mem_flatMap.mpr ⟨_, hn, hpos⟩
  have himport : ∀ i ∈ items.filterMap (importFrom? o.importSource),
      ∃ n ∈ items, n.isImport = true ∧ n.span = i.span := by
    intro i hi
    obtain ⟨n, hn, hfrom⟩ := List.mem_filterMap.mp hi
    refine ⟨n, hn, ?_⟩
    unfold importFrom? at hfrom
    unfold Node.isImport
    split at hfrom
    · rename_i heq
      split at hfrom
      · cases hfrom
        simp [heq]
      · cases hfrom
    · cases hfrom
  unfold importEdits
  simp only
  split
  · exact .inl rfl
  · right
    split
    · rename_i i bound hdefault
      obtain ⟨_, hi, hname⟩ := List.exists_of_findSome?_eq_some hdefault
      obtain ⟨_, -, hpair⟩ := Option.map_eq_some_iff.mp hname
      cases hpair
      obtain ⟨n, hn, -, hspan⟩ := himport i hi
      exact ⟨_, _, rfl, .inr (hmark hn (by simp [Node.marks, hspan]))⟩
    · rename_i i _ hhead
      obtain ⟨n, hn, hkind, hspan⟩ := himport i (List.mem_of_head? hhead)
      exact ⟨_, _, rfl, .inr (hmark hn (by simp [Node.marks, hkind, hspan]))⟩
    · unfold newImport
      split
      · rename_i directive hlast
        have hmem : directive ∈ items := by
          obtain ⟨init, hinit⟩ := List.getLast?_eq_some_iff.mp hlast
          exact (List.takeWhile_sublist _).subset (by rw [hinit]; simp)
        exact ⟨_, _, rfl, .inr (hmark hmem (by simp [Node.marks]))⟩
      · rename_i first hfirst
        exact ⟨_, _, rfl, .inr (hmark (List.mem_of_head? hfirst) (by simp [Node.marks]))⟩
      · rename_i hnone
        exact ⟨_, _, rfl, .inl ⟨rfl, List.head?_eq_none_iff.mp hnone⟩⟩

namespace Setting

variable {s : Setting} {source : Source}

/-- An import keeps its edits to its parts. -/
theorem import_fits {n : Node} (h : s.LaidAt n.kind n.span (s.viewsOfAll n.children))
    (himport : n.isImport = true) :
    StepsFitIn (Node.placesOfAll n.children) (Child.visit (n, s.viewsOf n)) := by
  cases n with
  | mk kind span children =>
    obtain ⟨typeOnly, from?, names, rfl⟩ : ∃ typeOnly from? names,
        kind = .importDecl typeOnly from? names := by
      unfold Node.isImport at himport
      split at himport
      · rename_i hkind
        exact ⟨_, _, _, hkind⟩
      · cases himport
    have hparts : StepsFitIn ((s.viewsOfAll children).flatMap (·.node.places))
        (visitAll (s.viewsOfAll children)) :=
      .flatMap (fun c hc => h.visit (by simp [Node.kind]) hc) h.apart
    rwa [← LaidAt.placesOfAll_eq, map_viewsOfAll] at hparts

/-- A module is outlined item by item. -/
theorem outline_eq (h : s.source.tree.kind = .module) :
    s.outline = s.source.items.flatMap fun n => [item s (n, s.viewsOf n)] := by
  unfold outline Source.items
  cases htree : s.source.tree with
  | mk kind span items =>
    rw [htree] at h
    obtain rfl : kind = .module := h
    rw [← List.map_eq_flatMap, Node.children, viewsOf, viewsOfAll_eq]
    exact List.map_map

/-- The parts of every item are laid out. -/
theorem item_laidAt (h : source.LaidOut) (file : FileInfo) (options : Options) {n : Node}
    (hn : n ∈ source.items) :
    (of source file options).LaidAt n.kind n.span
      ((of source file options).viewsOfAll n.children) := by
  have hroot := h.spaced _ (Node.mem_subnodes_self _)
  have hsub := Node.subnodes_subset_of_mem_children hn
  refine laidAt_of_spaced (fun m hm => h.spaced m (hsub hm)) ?_ ?_
  · intro p hp
    exact (hroot.apart.inside p (Node.places_subset hn hp)).1
  · intro m hm r hr hmarkup
    exact (Markup.runsFor_planned h.distinct (hsub hm) hmarkup hr).2

theorem item_fits (h : source.LaidOut) (file : FileInfo) (options : Options) {n : Node}
    (hn : n ∈ source.items) :
    StepsFitIn n.itemPlaces (Child.visit (n, (of source file options).viewsOf n)) := by
  have hat := item_laidAt h file options hn
  unfold Node.itemPlaces
  split
  · rename_i himport
    exact import_fits hat himport
  · refine (viewsOf_placed hat).visit fun hexpr => ?_
    have hroot := h.spaced _ (Node.mem_subnodes_self _)
    exact hroot.snug_of_isExpr hn hexpr (by simp [h.root])

/-- The places of the items lie apart. -/
theorem itemPlaces_apart (h : source.LaidOut) :
    (source.items.flatMap Node.itemPlaces).Pairwise Span.Apart := by
  have hroot := (h.spaced _ (Node.mem_subnodes_self _)).apart
  rw [Node.placesOfAll_eq] at hroot
  have hitems : Span.LaidIn (source.items.flatMap Node.places)
      (source.items.flatMap Node.itemPlaces) := by
    refine .flatMap (fun n hn => ?_) hroot.apart
    have hspaced := h.spaced n (Node.subnodes_subset_of_mem_children hn (Node.mem_subnodes_self n))
    unfold Node.itemPlaces
    split
    · exact hspaced.apart.widen fun p hp => n.exists_place hp
    · rw [List.flatMap_def] at hroot
      exact (hroot.sublist (List.sublist_flatten_of_mem (List.mem_map_of_mem hn))).self
  exact hitems.apart

/-- The outline of a module stays in the places of its items. -/
theorem outline_fits (h : source.LaidOut) (file : FileInfo) (options : Options) :
    StepsFitIn (source.items.flatMap Node.itemPlaces) (of source file options).outline := by
  rw [outline_eq h.root]
  exact .flatMap (fun n hn => (item_fits h file options hn).inScope _) (itemPlaces_apart h)

/-- No two sites of a module have the same id. -/
theorem nodup_outlineSites (h : source.LaidOut) (file : FileInfo) (options : Options) :
    ((of source file options).outlineSites.map (·.id)).Nodup := by
  have hsaid := (of source file options).outlineSites_said.map Prod.fst
  rw [List.map_map, List.map_map] at hsaid
  exact (outline_fits h file options).ids.nodup.sublist hsaid

/-! ### The walk -/

/-- Everything that is spliced on the way through a module. -/
def splicings {σ : Type} (s : Setting) (handle : Handler σ) (start : σ) : List Walk.Splicing :=
  Walk.stepsSplicings s handle (Walk.openFrame { handler := start }) s.outline

/-- Whatever the handler does, all splicings are laid out and so are the edits of the module. -/
theorem walk_laid {σ : Type} {places : List Span} (h : StepsFitIn places s.outline)
    (handle : Handler σ) (start : σ) :
    (∀ x ∈ s.splicings handle start, x.Laid) ∧
      Span.LaidIn places ((s.walk handle start).edits.map Edit.span) := by
  obtain ⟨⟨edits, hplace, hlaid⟩, hsplicings⟩ :=
    Walk.steps_adds s handle (Walk.openFrame { handler := start }) s.outline
  have htidy := And.intro h.tidy h.extents.self
  refine ⟨hsplicings htidy, ?_⟩
  rw [s.walk_edits handle start hplace]
  exact h.extents.trans (hlaid htidy)

end Setting

/-! ### The whole file -/

/-- The edits of a module and of its import fit into its text. -/
theorem Script.Source.LaidOut.fitIn {source : Source} (h : source.LaidOut) {edits : List Edit}
    (hedits : Span.LaidIn (source.items.flatMap Node.itemPlaces) (edits.map Edit.span))
    (o : Options) :
    Edit.FitIn ⟨0, Text.byteLength source.code⟩ (edits ++ importEdits source.items o) := by
  have hfit : Edit.FitIn ⟨0, Text.byteLength source.code⟩ edits := by
    refine .of_laidIn (hedits.widen ?_)
    intro p hp
    exact ⟨_, List.mem_singleton_self _, Nat.zero_le _, h.within p hp⟩
  rcases importEdits_cases source.items o with hnone | ⟨pos, text, hone, hpos⟩
  · rwa [hnone, List.append_nil]
  · rw [hone]
    rcases hpos with ⟨rfl, -⟩ | hmark
    · exact hfit.insert (Nat.le_refl _) (Nat.zero_le _) (fun e _ => .inl (Nat.zero_le _)) text
    · obtain ⟨hwithin, houtside⟩ := h.marks pos hmark
      refine hfit.insert (Nat.zero_le _) hwithin ?_ text
      -- An edit lies in a place, and the mark lies in none.
      intro e he
      obtain ⟨-, p, hp, hlo, hhi⟩ := hedits.inside e.span (List.mem_map_of_mem he)
      rcases houtside p hp with hbefore | hafter
      · exact .inl (Nat.le_trans hbefore hlo)
      · exact .inr (Nat.le_trans hhi hafter)

/-- In a source that is laid out no edit is lost, whatever keys there are. No site is met twice, so
each one with a key is replaced. What is spliced on the way is spliced whole, and so is the file,
with the import of the lookup function. -/
theorem every_edit_placed {source : Source} (hlaid : source.LaidOut) (file : FileInfo)
    (options : Options) (keys : SiteKeys) :
    let s := Setting.of source file options
    let w := s.apply keys
    let offered := s.offered Applier.handler { keys }
    let imports := importEdits source.items options
    let size := Text.byteLength source.code
    (offered.map (·.id)).Nodup ∧ w.handler.integrity.doubleConsumed = 0 ∧
      w.report.applied = (offered.filter fun site => (keys.get? site.id).isSome).length ∧
      (∀ x ∈ s.splicings Applier.handler { keys }, x.Whole source.code) ∧
      Edit.FitIn ⟨0, size⟩ (w.edits ++ imports) ∧
      s.output w = String.ofList (placeAll source.code size 0
        (Edit.sort (w.edits ++ if 0 < w.report.applied then imports else []))) := by
  intro s w offered imports size
  have hoffered : offered = s.outlineSites := s.offered_eq Applier.handler { keys }
  have hids : (s.outlineSites.map (·.id)).Nodup := Setting.nodup_outlineSites hlaid file options
  have hfits : StepsFitIn (source.items.flatMap Node.itemPlaces) s.outline :=
    Setting.outline_fits hlaid file options
  obtain ⟨hdouble, hcount⟩ :=
    Applier.answers_once hids (a := { keys }) fun _ _ => List.not_mem_nil
  obtain ⟨hsplicings, hedits⟩ := Setting.walk_laid hfits Applier.handler { keys }
  have hboth : Edit.FitIn ⟨0, size⟩ (w.edits ++ imports) := hlaid.fitIn hedits options
  have hsome : (if 0 < w.report.applied then imports else []).Sublist imports := by
    split
    · exact List.Sublist.refl _
    · exact List.nil_sublist _
  rw [hoffered]
  refine ⟨hids, ?_, ?_, fun x hx => (hsplicings x hx).whole source.code, hboth, ?_⟩
  · exact (congrArg Applier.doubleConsumed (s.walk_handler Applier.handler { keys })).trans hdouble
  · exact (s.walk_applied Applier.handler { keys }).trans hcount
  · exact splice_eq_placeAll source.code (hboth.sublist (hsome.append_left w.edits))

/-- A template that gets no key around a text that does, in a property that becomes a getter, next
to a run of markup in another one. -/
theorem every_edit_placed_getters :
    let code := "import \"a\"\n" ++ "o=\x7ba:\x60甲$\x7b\"乙\"\x7d\x60,b:<p>共\x7bn\x7d条</p>\x7d"
    let keys : SiteKeys := [(⟨⟨22, 27⟩, .literal⟩, "k"), (⟨⟨35, 44⟩, .markupText⟩, "m")]
    let out := "import t from \"@/i18n\";\nimport \"a\"\n" ++
      "o=\x7bget a() \x7b return \x60甲$\x7bt(\"k\")\x7d\x60; \x7d," ++
      "get b() \x7b return <p>\x7bt(\"m\", \x7b n \x7d)\x7d</p>; \x7d\x7d"
    ∃ source, Source.read true code = .ok source ∧ source.Nested ∧
      let s := Setting.of source ⟨"src/a.tsx", .component⟩ {}
      let w := s.apply keys
      let splicings := s.splicings Applier.handler { keys }
      w.handler.integrity.doubleConsumed = 0 ∧ w.report.applied = 2 ∧
        splicings.map (fun x => x.edits.length) = [1, 0, 1, 2, 1] ∧
        (∀ x ∈ splicings, x.Whole source.code) ∧ s.output w = out := by
  intro code keys out
  subst code out
  generalize hcode : "import \"a\"\n" ++ _ = code
  generalize hout : _ ++ "get b() \x7b return <p>\x7bt(\"m\", \x7b n \x7d)\x7d</p>; \x7d\x7d" = out
  have hchecked : (Source.read true code).toOption.any (fun source =>
      let s := Setting.of source ⟨"src/a.tsx", .component⟩ {}
      let w := s.apply keys
      decide (source.Nested ∧ w.report.applied = 2 ∧
        (s.splicings Applier.handler { keys }).map (fun x => x.edits.length) = [1, 0, 1, 2, 1] ∧
        s.output w = out)) = true := by
    rw [← hcode, ← hout]
    decide +kernel
  obtain ⟨source, hread, hnested, happlied, hsplicings, hsame⟩ := Source.exists_read hchecked
  obtain ⟨-, hdouble, -, hwhole, -⟩ :=
    every_edit_placed hnested.laidOut ⟨"src/a.tsx", .component⟩ {} keys
  exact ⟨source, hread, hnested, hdouble, happlied, hsplicings, hwhole, hsame⟩

end Phrasebook
