import Mathlib.Data.List.Pairwise
import Mathlib.Logic.Relation
import Phrasebook.Proofs.Hygiene
import Phrasebook.Proofs.Layout

/-!
Texts that are kept on purpose. Going down a tree, the walk enters some children of a node and keeps
the others as they are. As every node has a place of its own, no site can lie in what is kept.
-/
namespace Phrasebook

open Script

variable {id : SiteId}

namespace Script

/-- Kinds of nodes that are a text as a whole. -/
def Kind.isText : Kind → Bool
  | .string _ | .attrText _ | .template _ | .binary .add | .text _ => true
  | _ => false

namespace Node

/-- The range lies in a place of the node. -/
def Holds (n : Node) (range : Span) : Prop := ∃ p ∈ n.places, range.Inside p

/-- No place of the one node overlaps one of the other. -/
def Apart (a b : Node) : Prop := ∀ p ∈ a.places, ∀ q ∈ b.places, p.Apart q

instance : Std.Symm Apart := ⟨fun _ _ h p hp q hq => (h q hq p hp).symm⟩

/-- Nodes that a site can belong to: texts, and elements with runs of children. -/
def mayBear (n : Node) : Bool := n.kind.isText || (Markup.isMarkup n && !n.isRaw)

/-- The tree of a module in which every node has a place of its own. -/
structure Charted (tree : Node) : Prop where
  root : tree.kind = .module
  plain : ∀ n ∈ tree.subnodes, n.isPlain = true
  spaced : ∀ n ∈ tree.subnodes, n.Spaced
  /-- No two elements have the same range. -/
  distinct : ((tree.subnodes.filter Markup.isMarkup).map span).Nodup
  /-- A text is larger than any of its parts. -/
  texts : ∀ n ∈ tree.subnodes, n.kind.isText = true →
    ∀ p ∈ placesOfAll n.children, p.Inside n.span ∧ p ≠ n.span

instance (tree : Node) : Decidable tree.Charted :=
  decidable_of_iff
    (tree.kind = .module ∧ (∀ n ∈ tree.subnodes, n.isPlain = true) ∧
      (∀ n ∈ tree.subnodes, n.Spaced) ∧
      ((tree.subnodes.filter Markup.isMarkup).map span).Nodup ∧
      ∀ n ∈ tree.subnodes, n.kind.isText = true →
        ∀ p ∈ placesOfAll n.children, p.Inside n.span ∧ p ≠ n.span)
    ⟨fun h => ⟨h.1, h.2.1, h.2.2.1, h.2.2.2.1, h.2.2.2.2⟩,
      fun h => ⟨h.root, h.plain, h.spaced, h.distinct, h.texts⟩⟩

/-! ### Places -/

variable {n m c d : Node} {range : Span}

theorem Snug.holds_iff (h : n.Snug) : n.Holds range ↔ range.Inside n.span := by
  simp [Holds, h.places_eq]

theorem Snug.holds_self (h : n.Snug) : n.Holds n.span := h.holds_iff.mpr (.refl _)

theorem Holds.of_inside {inner : Span} (h : n.Holds range) (hin : inner.Inside range) :
    n.Holds inner := by
  obtain ⟨p, hp, hrange⟩ := h
  exact ⟨p, hp, hin.trans hrange⟩

theorem Holds.of_child (hc : c ∈ n.children) (h : c.Holds range) : n.Holds range := by
  obtain ⟨p, hp, hin⟩ := h
  obtain ⟨q, hq, hin'⟩ := n.exists_place (places_subset hc hp)
  exact ⟨q, hq, hin.trans hin'⟩

theorem Holds.of_subnode (hm : m ∈ n.subnodes) (h : m.Holds range) : n.Holds range := by
  induction n using inductOn with
  | mk kind span children ih =>
    rcases List.mem_cons.mp hm with rfl | hm
    · exact h
    · obtain ⟨c, hc, hm⟩ := mem_subnodesOfAll.mp hm
      exact .of_child hc (ih c hc hm)

/-- Nothing lies in two nodes at once that are apart. -/
theorem Holds.not_of_apart (hc : c.Holds range) (hapart : c.Apart d) (hne : range.lo < range.hi) :
    ¬d.Holds range := by
  rintro ⟨q, hq, hin'⟩
  obtain ⟨p, hp, hin⟩ := hc
  rcases (hapart p hp q hq).inside hin hin' with h | h
  · omega
  · omega

theorem Spaced.pairwise_apart (h : n.Spaced) : n.children.Pairwise Apart := by
  have hapart := h.apart.apart
  rw [placesOfAll_eq, List.pairwise_flatMap] at hapart
  exact hapart.2

/-- Two parts of a node share no place. -/
theorem Spaced.eq_of_holds (h : n.Spaced) (hne : range.lo < range.hi) (hc : c ∈ n.children)
    (hd : d ∈ n.children) (hcr : c.Holds range) (hdr : d.Holds range) : c = d := by
  by_contra hcd
  exact hcr.not_of_apart (h.pairwise_apart.forall hc hd hcd) hne hdr

theorem Spaced.nonempty (h : n.Spaced) (hc : c ∈ n.children) {p : Span} (hp : p ∈ c.places) :
    p.lo < p.hi :=
  (h.apart.inside p (places_subset hc hp)).1

end Node

end Script

theorem Options.kept_of_mayBear (o : Options) {n : Node} (h : n.mayBear = true) :
    o.kept n = [] ∧ n.kind ≠ .tagged := by
  refine ⟨?_, ?_⟩
  · unfold Options.kept Options.parted
    split
    case h_6 opening kids =>
      have hraw : isRawOpening opening = false := by
        simpa [Node.mayBear, Node.isRaw, Node.kind, Kind.isText, Markup.isMarkup] using h
      simp [hraw]
    case h_7 => rfl
    all_goals cases h
  · intro hkind
    simp [Node.mayBear, Markup.isMarkup, hkind, Kind.isText] at h

/-- What is entered and what is kept share no place. -/
theorem Options.not_holds_kept (o : Options) {n c d : Node} {range : Span} (h : n.Spaced)
    (hne : range.lo < range.hi) (hc : c ∈ o.entered n) (hd : d ∈ o.kept n) (hcr : c.Holds range) :
    ¬d.Holds range := by
  have hapart := h.pairwise_apart.perm (o.perm_children n).symm symm
  exact hcr.not_of_apart ((List.pairwise_append.mp hapart).2.2 c hc d hd) hne

/-- A run starts with one child and ends with a later one. -/
theorem Markup.Run.Takes.ends {r : Run} {n : Node} {span : Span}
    (hr : r.Takes (rendered n).length) (hordered : n.kind.isOrdered = true) (hspaced : n.Spaced)
    (hspan : r.span (rendered n) = some span) : ∃ first ∈ n.children, ∃ last ∈ n.children,
      first.span.hi ≤ last.span.lo ∧ span = ⟨first.span.lo, last.span.hi⟩ := by
  have hmany := hr.many
  have hwithin := hr.within
  have hsub := rendered_sublist n
  have hstart : r.start < (rendered n).length := by omega
  have hstop : r.stop - 1 < (rendered n).length := by omega
  refine ⟨_, hsub.subset (List.getElem_mem hstart), _, hsub.subset (List.getElem_mem hstop), ?_, ?_⟩
  · have hpairs := (hspaced.ordered hordered).sublist hsub
    exact List.pairwise_iff_getElem.mp hpairs _ _ hstart hstop (by omega)
  · rw [span_eq (by omega) (List.getElem?_eq_getElem hstart) (List.getElem?_eq_getElem hstop)]
      at hspan
    exact (Option.some.inj hspan).symm

/-! ### Where a site lies -/

theorem Script.Node.Carries.isText {n : Node} (h : n.Carries id) :
    n.kind.isText = true ∧ id.span = n.span := by
  cases h <;> exact ⟨rfl, rfl⟩

/-- A text as a whole lies in none of its parts. -/
theorem Script.Node.Carries.not_holds {n : Node} (h : n.Carries id)
    (htext : n.kind.isText = true → ∀ p ∈ Node.placesOfAll n.children,
      p.Inside n.span ∧ p ≠ n.span) : ∀ c ∈ n.children, ¬c.Holds id.span := by
  rintro c hc ⟨p, hp, hin⟩
  obtain ⟨hkind, hspan⟩ := h.isText
  obtain ⟨hinside, hlarger⟩ := htext hkind p (Node.places_subset hc hp)
  exact hlarger (hinside.antisymm (hspan ▸ hin))

/-- The places of what an element or fragment renders. -/
theorem Script.Node.Spaced.parts_of_isMarkup {n : Node} (h : n.Spaced)
    (hmarkup : Markup.isMarkup n = true) :
    n.kind.isOrdered = true ∧ n.Snug ∧ ∀ c ∈ n.children, c.Snug ∧ c.span.lo < c.span.hi := by
  obtain ⟨hordered, hfills, hvalues⟩ : n.kind.isOrdered = true ∧ n.kind.fillsSpan = true ∧
      n.kind.holdsValues = true := by
    rcases Bool.or_eq_true_iff.mp hmarkup with hkind | hkind <;>
      exact beq_iff_eq.mp hkind ▸ ⟨rfl, rfl, rfl⟩
  refine ⟨hordered, h.filled hfills, ?_⟩
  intro c hc
  have hsnug := h.snug_of_holdsValues hc hvalues
  exact ⟨hsnug, h.nonempty hc (by simp [hsnug.places_eq])⟩

/-- A run of two or more children lies in none of them. -/
theorem Markup.Run.Takes.not_holds {n : Node} {r : Run} {span : Span} (hspaced : n.Spaced)
    (hmarkup : isMarkup n = true) (hr : r.Takes (rendered n).length)
    (hspan : r.span (rendered n) = some span) : ∀ c ∈ n.children, ¬c.Holds span := by
  obtain ⟨hordered, -, hparts⟩ := hspaced.parts_of_isMarkup hmarkup
  obtain ⟨first, hfirst, last, hlast, hbefore, rfl⟩ := hr.ends hordered hspaced hspan
  obtain ⟨hfsnug, hfne⟩ := hparts first hfirst
  obtain ⟨hlsnug, hlne⟩ := hparts last hlast
  -- A child around the run would be the first one, and the last one too.
  intro c hc hholds
  have hcfirst : c.Holds first.span := hholds.of_inside ⟨Nat.le_refl _, by simp only; omega⟩
  have hclast : c.Holds last.span := hholds.of_inside ⟨by simp only; omega, Nat.le_refl _⟩
  have heqfirst := hspaced.eq_of_holds hfne hc hfirst hcfirst hfsnug.holds_self
  have heqlast := hspaced.eq_of_holds hlne hc hlast hclast hlsnug.holds_self
  rw [← heqfirst, ← heqlast] at hbefore
  have hcne := (hparts c hc).2
  omega

/-- The site lies in `n`. Whatever it lies in below, it belongs to that node itself, or it lies in a
child that is entered. -/
structure Options.Locates (o : Options) (id : SiteId) (n : Node) : Prop where
  nonempty : id.span.lo < id.span.hi
  holds : n.Holds id.span
  below : ∀ m ∈ n.subnodes, m.Holds id.span →
    m.mayBear = true ∨ ∃ c ∈ o.entered m, c.Holds id.span

namespace Options.Locates

variable {o : Options} {n c : Node}

/-- A site that lies in no part of its node. -/
theorem of_parts (hne : id.span.lo < id.span.hi) (hbears : n.mayBear = true)
    (hholds : n.Holds id.span) (hparts : ∀ c ∈ n.children, ¬c.Holds id.span) : o.Locates id n := by
  refine ⟨hne, hholds, ?_⟩
  intro m hm hmholds
  cases n with
  | mk kind span children =>
    rcases List.mem_cons.mp hm with rfl | hm
    · exact .inl hbears
    · obtain ⟨c, hc, hm⟩ := Node.mem_subnodesOfAll.mp hm
      exact absurd (hmholds.of_subnode hm) (hparts c hc)

theorem up (hspaced : n.Spaced) (hc : c ∈ o.entered n) (h : o.Locates id c) : o.Locates id n := by
  have hchild := o.entered_subset n hc
  refine ⟨h.nonempty, h.holds.of_child hchild, ?_⟩
  intro m hm hmholds
  cases n with
  | mk kind span children =>
    rcases List.mem_cons.mp hm with rfl | hm
    · exact .inr ⟨c, hc, h.holds⟩
    · obtain ⟨d, hd, hm⟩ := Node.mem_subnodesOfAll.mp hm
      have hsame := hspaced.eq_of_holds h.nonempty hchild hd h.holds (hmholds.of_subnode hm)
      exact h.below m (hsame ▸ hm) hmholds

theorem of_carries (hcarries : n.Carries id)
    (hplaces : n.mayBear = true → ∀ p ∈ n.places, p.lo < p.hi)
    (htext : n.kind.isText = true → ∀ p ∈ Node.placesOfAll n.children,
      p.Inside n.span ∧ p ≠ n.span) : o.Locates id n := by
  obtain ⟨hkind, hspan⟩ := hcarries.isText
  have hbears : n.mayBear = true := by simp [Node.mayBear, hkind]
  have hsnug : n.Snug := fun p hp => (htext hkind p hp).1
  have hplace : n.span ∈ n.places := by simp [hsnug.places_eq]
  exact of_parts (hspan ▸ hplaces hbears _ hplace) hbears (hspan ▸ hsnug.holds_self)
    (hcarries.not_holds htext)

theorem of_run {r : Markup.Run} {span : Span} (hmarkup : Markup.isMarkup n = true)
    (hraw : n.isRaw = false) (hspaced : n.Spaced) (hr : r.Takes (Markup.rendered n).length)
    (hspan : r.span (Markup.rendered n) = some span) : o.Locates ⟨span, .markupText⟩ n := by
  have hapart := hr.not_holds hspaced hmarkup hspan
  obtain ⟨hordered, hsnug, hparts⟩ := hspaced.parts_of_isMarkup hmarkup
  obtain ⟨first, hfirst, last, hlast, hbefore, rfl⟩ := hr.ends hordered hspaced hspan
  obtain ⟨hfsnug, hfne⟩ := hparts first hfirst
  obtain ⟨hlsnug, hlne⟩ := hparts last hlast
  refine of_parts (show first.span.lo < last.span.hi by omega)
    (by simp [Node.mayBear, hmarkup, hraw]) ?_ hapart
  have hlo := (hsnug.inside hfirst hfsnug).1
  have hhi := (hsnug.inside hlast hlsnug).2
  exact hsnug.holds_iff.mpr ⟨hlo, hhi⟩

end Options.Locates

/-- One level up in a tree whose nodes have places. -/
theorem Script.Node.Charted.locates_up {tree n c : Node} {o : Options} (htree : tree.Charted)
    (hn : n.subnodes ⊆ tree.subnodes) (hc : c ∈ o.entered n)
    (h : c.subnodes ⊆ tree.subnodes → (c.mayBear = true → ∀ p ∈ c.places, p.lo < p.hi) →
      o.Locates id c) : o.Locates id n := by
  have hspaced := htree.spaced n (hn (Node.mem_subnodes_self n))
  have hchild := o.entered_subset n hc
  have hsub := List.Subset.trans (Node.subnodes_subset_of_mem_children hchild) hn
  exact .up hspaced hc (h hsub fun _ _ hp => hspaced.nonempty hchild hp)

theorem Setting.Descends.locates {source : Source} {file : FileInfo} {options : Options}
    (htree : source.tree.Charted) {role : Role} {n : Node}
    (hn : n.subnodes ⊆ source.tree.subnodes)
    (hplaces : n.mayBear = true → ∀ p ∈ n.places, p.lo < p.hi)
    (h : (Setting.of source file options).Descends id role n) : options.Locates id n := by
  induction h with
  | @text _ n hcarries _ =>
    exact .of_carries hcarries hplaces (htree.texts n (hn (Node.mem_subnodes_self n)))
  | @run _ n r span hmarkup hraw hruns hspan hid _ =>
    have hself := hn (Node.mem_subnodes_self n)
    have hplanned := (Markup.runsFor_planned htree.distinct hself hmarkup hruns).2
    rw [hid]
    exact .of_run hmarkup hraw (htree.spaced n hself) (Markup.planChildren_takes hplanned) hspan
  | key hkind hc _ _ ih =>
    exact htree.locates_up hn (options.mem_entered (by rw [hkind]; rfl) hc) ih
  | down hc _ _ _ _ ih => exact htree.locates_up hn hc ih

/-- The node a site belongs to is reached through entered children only. -/
theorem Setting.Descends.reaches {s : Setting} {role : Role} {n : Node} (h : s.Descends id role n) :
    ∃ m, Relation.ReflTransGen (fun n c => c ∈ s.options.entered n) n m ∧ m.Bears id := by
  induction h with
  | @text _ n hcarries _ => exact ⟨n, .refl, .inl hcarries⟩
  | @run _ n r span _ _ _ hspan hid _ =>
    obtain ⟨first, hfirst, last, hlast, rfl⟩ := Markup.Run.span_some hspan
    exact ⟨n, .refl, .inr ⟨first, hfirst, last, hlast, hid⟩⟩
  | @key _ _ n c hkind hc _ _ ih =>
    obtain ⟨m, hpath, hbears⟩ := ih
    exact ⟨m, .head (s.options.mem_entered (by rw [hkind]; rfl) hc) hpath, hbears⟩
  | @down _ _ n c hc _ _ _ _ ih =>
    obtain ⟨m, hpath, hbears⟩ := ih
    exact ⟨m, .head hc hpath, hbears⟩

/-- Whatever handler is asked, each site belongs to a node that is reached through entered children
only. Where every node has a place of its own, the site lies in nothing that is kept, and a site in a
node that keeps something, or in a tagged template, lies in one of its entered children, so that no
text of the template itself is a site. -/
theorem kept_texts_hold_no_site {source : Source} (hroot : source.tree.kind = .module)
    (hplain : ∀ n ∈ source.tree.subnodes, n.isPlain = true) (file : FileInfo) (options : Options)
    {σ : Type} (handle : Handler σ) (start : σ) :
    ∀ site ∈ (Setting.of source file options).offered handle start,
      (∃ m, Relation.ReflTransGen (fun n c => c ∈ options.entered n) source.tree m ∧
        m.Bears site.id) ∧
      (source.tree.Charted → ∀ n ∈ source.tree.subnodes,
        (∀ c ∈ options.kept n, ¬c.Holds site.id.span) ∧
        (options.kept n ≠ [] ∨ n.kind = .tagged → n.Holds site.id.span →
          ∃ c ∈ options.entered n, c.Holds site.id.span)) := by
  intro site hsite
  rw [Setting.offered_eq] at hsite
  have hdescends := Setting.descends_of_mem_outlineSites hplain hroot hsite
  refine ⟨hdescends.reaches, ?_⟩
  intro htree n hn
  have hlocates := hdescends.locates htree (List.Subset.refl _) fun hbears => by
    simp [Node.mayBear, Markup.isMarkup, hroot, Kind.isText] at hbears
  refine ⟨?_, ?_⟩
  · intro d hd hholds
    have hchild := (options.perm_children n).subset (List.mem_append_right _ hd)
    rcases hlocates.below n hn (hholds.of_child hchild) with hbears | ⟨c, hc, hcholds⟩
    · rw [(options.kept_of_mayBear hbears).1] at hd
      cases hd
    · exact options.not_holds_kept (htree.spaced n hn) hlocates.nonempty hc hd hcholds hholds
  · intro hkeeps hholds
    rcases hlocates.below n hn hholds with hbears | hentered
    · obtain ⟨hkept, htagged⟩ := options.kept_of_mayBear hbears
      exact absurd hkeeps (not_or.mpr ⟨not_not.mpr hkept, htagged⟩)
    · exact hentered

/-- Every kind of kept text beside two that are extracted. -/
theorem kept_texts_hold_no_site_mixed :
    let code :=
      "import(\"甲\"); require(\"甲\"); i.t(\"甲\"); log.x(\"甲\"); new log(\"甲\"); " ++
      "enum E \x7b A = \"甲\" \x7d; tag\x60甲$\x7b\"乙\"\x7d\x60; <style>甲\x7b1\x7d</style>; " ++
      "switch (a == (\"甲\")) \x7b case \x60甲\x60: f(\"丙\") \x7d"
    let options : Options := { skipFunctions := ["log"] }
    ∃ source, Source.read true code = .ok source ∧ source.tree.Charted ∧
      (source.tree.subnodes.filter fun n => !(options.kept n).isEmpty).length = 9 ∧
      let s := Setting.of source ⟨"src/a.tsx", .component⟩ options
      s.sites.map (·.text) = ["乙", "丙"] ∧
      ∀ site ∈ s.offered Collector.handler {}, ∀ n ∈ source.tree.subnodes,
        ∀ c ∈ options.kept n, ¬c.Holds site.id.span := by
  intro code options
  subst code
  generalize hcode : (_ : String) ++ (_ : String) = code
  have hchecked : (Source.read true code).toOption.any (fun source =>
      decide (source.tree.Charted ∧
        (source.tree.subnodes.filter fun n => !(options.kept n).isEmpty).length = 9 ∧
        (Setting.of source ⟨"src/a.tsx", .component⟩ options).sites.map (·.text) =
          ["乙", "丙"])) = true := by
    rw [← hcode]
    decide +kernel
  obtain ⟨source, hread, hcharted, hkept, htexts⟩ := Source.exists_read hchecked
  refine ⟨source, hread, hcharted, hkept, htexts, ?_⟩
  intro site hsite n hn
  exact ((kept_texts_hold_no_site hcharted.root hcharted.plain _ options _ _ site hsite).2 hcharted
    n hn).1

end Phrasebook
