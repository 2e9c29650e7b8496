import Phrasebook.Proofs.Kept

/-!
Computed keys that are bare texts. Those of member accesses and of the properties of an evaluated
object literal are kept; other computed keys (of methods, accessors, class members and patterns, or
in an object that is only visited) are entered like any other expression.
-/
namespace Phrasebook

open Script

variable {id : SiteId}

namespace Script.Node

/-- A string, or a template without slots whose pieces are texts, in parentheses or not. -/
def isLiteral : Node → Bool
  | .mk (.string _) _ [] => true
  | .mk (.template pieces) _ [] => pieces.all fun p => p.cooked.isSome
  | .mk .paren _ [e] => e.isLiteral
  | _ => false

def propertyKey? : Node → Option Node
  | .mk .property _ [.mk .computedKey _ [key], _] => some key
  | _ => none

/-- The computed keys of a member access or object literal. -/
def computedKeys : Node → List Node
  | .mk (.member .computed) _ [_, key] => [key]
  | .mk .object _ members => members.filterMap propertyKey?
  | _ => []

theorem mem_subnodes_of_propertyKey? {n key : Node} (h : n.propertyKey? = some key) :
    key ∈ n.subnodes := by
  unfold propertyKey? at h
  split at h
  · next _ keySpan _ _ =>
    cases h
    have hkey : key ∈ (Node.mk .computedKey keySpan [key]).subnodes :=
      subnodes_subset_of_mem (List.mem_singleton_self key) (mem_subnodes_self key)
    exact subnodes_subset_of_mem (List.mem_cons_self ..) hkey
  · cases h

theorem computedKeys_subset (n : Node) : n.computedKeys ⊆ n.subnodes := by
  intro key hkey
  unfold computedKeys at hkey
  split at hkey
  · rw [List.mem_singleton.mp hkey]
    exact subnodes_subset_of_mem (List.mem_cons_of_mem _ (List.mem_singleton_self _))
      (mem_subnodes_self _)
  · obtain ⟨p, hp, hpkey⟩ := List.mem_filterMap.mp hkey
    exact subnodes_subset_of_mem hp (mem_subnodes_of_propertyKey? hpkey)
  · cases hkey

/-- The two parts of a node are not the same one. -/
theorem Spaced.pair_ne {kind : Kind} {span range : Span} {a b : Node}
    (h : (Node.mk kind span [a, b]).Spaced) (hne : range.lo < range.hi) (hb : b.Holds range) :
    a ≠ b := by
  rintro rfl
  exact hb.not_of_apart (List.pairwise_pair.mp h.pairwise_apart) hne hb

end Script.Node

/-- A literal that leads to a site has a text. -/
theorem Setting.Descends.isBareText {s : Setting} {role : Role} {n : Node}
    (h : s.Descends id role n) (hliteral : n.isLiteral = true) : n.isBareText = true := by
  induction h with
  | @text _ n hcarries hmissed =>
    unfold Node.isLiteral at hliteral
    split at hliteral
    · next value span =>
      cases value with
      | none => exact absurd rfl hmissed
      | some text => rfl
    · exact hliteral
    · cases hcarries
    · cases hliteral
  | @run _ n _ _ hmarkup =>
    unfold Node.isLiteral at hliteral
    split at hliteral <;> first | cases hmarkup | cases hliteral
  | @key _ _ n _ hkind =>
    unfold Node.isLiteral at hliteral
    split at hliteral <;> first | cases hkind | cases hliteral
  | @down _ _ n c hc _ _ _ _ ih =>
    unfold Node.isLiteral at hliteral
    split at hliteral
    · cases hc
    · cases hc
    · cases List.mem_singleton.mp hc
      exact ih hliteral
    · cases hliteral

section Way
variable {source : Source} {file : FileInfo} {options : Options} {role : Role} {n c : Node}

/-- The way down to a site leads through every child that holds it. -/
theorem Setting.Descends.into_child (htree : source.tree.Charted)
    (hn : n.subnodes ⊆ source.tree.subnodes)
    (h : (Setting.of source file options).Descends id role n) (hc : c ∈ n.children)
    (hholds : c.Holds id.span) :
    ∃ next, n.Leads role c next ∧ (Setting.of source file options).Descends id next c := by
  have hself := hn (Node.mem_subnodes_self n)
  have hspaced := htree.spaced n hself
  have hsame : ∀ d ∈ n.children, ∀ next, (Setting.of source file options).Descends id next d →
      d = c := by
    intro d hd next hdescends
    have hlocates := hdescends.locates htree
      (List.Subset.trans (Node.subnodes_subset_of_mem_children hd) hn)
      fun _ _ hp => hspaced.nonempty hd hp
    exact hspaced.eq_of_holds hlocates.nonempty hd hc hlocates.holds hholds
  -- Where the way ends, the site lies in no child.
  cases h with
  | text hcarries _ => exact absurd hholds (hcarries.not_holds (htree.texts n hself) c hc)
  | @run _ _ r span hmarkup _ hruns hspan hid _ =>
    have hplanned := (Markup.runsFor_planned htree.distinct hself hmarkup hruns).2
    have hapart := (Markup.planChildren_takes hplanned).not_holds hspaced hmarkup hspan
    rw [hid] at hholds
    exact absurd hholds (hapart c hc)
  | @key _ next _ d _ hd hleads hdescends =>
    cases hsame d hd next hdescends
    exact ⟨next, hleads, hdescends⟩
  | @down _ next _ d hd hleads _ _ hdescends =>
    cases hsame d (options.entered_subset n hd) next hdescends
    exact ⟨next, hleads, hdescends⟩

/-- Every node that holds a site is on the way down to it. -/
theorem Setting.Descends.of_holds (htree : source.tree.Charted)
    (hn : n.subnodes ⊆ source.tree.subnodes)
    (h : (Setting.of source file options).Descends id role n) {m : Node} (hm : m ∈ n.subnodes)
    (hholds : m.Holds id.span) : ∃ role, (Setting.of source file options).Descends id role m := by
  induction n using Node.inductOn generalizing role with
  | mk kind span children ih =>
    rcases List.mem_cons.mp hm with rfl | hm
    · exact ⟨role, h⟩
    · obtain ⟨c, hc, hm⟩ := Node.mem_subnodesOfAll.mp hm
      obtain ⟨next, -, hdescends⟩ := h.into_child htree hn hc (hholds.of_subnode hm)
      exact ih c hc (List.Subset.trans (Node.subnodes_subset_of_mem hc) hn) hdescends hm

/-- The key of a member access, if it is a literal, holds no site. -/
theorem Setting.Descends.not_holds_memberKey {span : Span} {object key : Node}
    (htree : source.tree.Charted)
    (hn : (Node.mk (.member .computed) span [object, key]).subnodes ⊆ source.tree.subnodes)
    (hne : id.span.lo < id.span.hi) (hliteral : key.isLiteral = true)
    (h : (Setting.of source file options).Descends id role
      (.mk (.member .computed) span [object, key])) : ¬key.Holds id.span := by
  intro hholds
  obtain ⟨next, hleads, hdescends⟩ :=
    h.into_child htree hn (List.mem_cons_of_mem _ (List.mem_singleton_self key)) hholds
  have hbare := hdescends.isBareText hliteral
  have hsame : key = object := by simpa [Node.walked, hbare] using hleads.walked
  exact (htree.spaced _ (hn (Node.mem_subnodes_self _))).pair_ne hne hholds hsame.symm

/-- So it is with the key of a property in an object literal that is evaluated. -/
theorem Setting.Descends.not_holds_propertyKey {span keySpan : Span} {key value : Node}
    (htree : source.tree.Charted)
    (hn : (Node.mk .property span [.mk .computedKey keySpan [key], value]).subnodes ⊆
      source.tree.subnodes)
    (hne : id.span.lo < id.span.hi) (hliteral : key.isLiteral = true)
    (h : (Setting.of source file options).Descends id .member
      (.mk .property span [.mk .computedKey keySpan [key], value])) : ¬key.Holds id.span := by
  intro hholds
  have hkey : key ∈ (Node.mk .computedKey keySpan [key]).children := List.mem_singleton_self key
  have hholder : (Node.mk .computedKey keySpan [key]).Holds id.span := hholds.of_child hkey
  obtain ⟨next, hleads, hdescends⟩ := h.into_child htree hn (List.mem_cons_self ..) hholder
  have hsub : (Node.mk .computedKey keySpan [key]).subnodes ⊆ source.tree.subnodes :=
    List.Subset.trans (Node.subnodes_subset_of_mem (List.mem_cons_self ..)) hn
  obtain ⟨_, -, hinner⟩ := hdescends.into_child htree hsub hkey hholds
  have hbare := hinner.isBareText hliteral
  have hsame : Node.mk .computedKey keySpan [key] = value := by
    simpa [Node.walked, Node.isTextKey, hbare] using hleads.walked
  exact (htree.spaced _ (hn (Node.mem_subnodes_self _))).pair_ne hne (hsame ▸ hholder) hsame

/-- A member access, or an object literal that is evaluated, keeps its literal keys. -/
theorem Setting.Descends.not_holds_computedKeys (htree : source.tree.Charted)
    (hn : n.subnodes ⊆ source.tree.subnodes) (hne : id.span.lo < id.span.hi)
    (h : (Setting.of source file options).Descends id role n)
    (hrole : n.kind = .object → role = .value) {key : Node} (hkey : key ∈ n.computedKeys)
    (hliteral : key.isLiteral = true) : ¬key.Holds id.span := by
  unfold Node.computedKeys at hkey
  split at hkey
  · rw [List.mem_singleton.mp hkey] at hliteral ⊢
    exact h.not_holds_memberKey htree hn hne hliteral
  · next span members =>
    obtain ⟨p, hp, hpkey⟩ := List.mem_filterMap.mp hkey
    unfold Node.propertyKey? at hpkey
    split at hpkey
    · next pspan kspan key' value =>
      cases hpkey
      intro hholds
      have hsub := List.Subset.trans (Node.subnodes_subset_of_mem hp) hn
      have hpholds :
          (Node.mk .property pspan [.mk .computedKey kspan [key], value]).Holds id.span :=
        hholds.of_subnode (Node.mem_subnodes_of_propertyKey? rfl)
      obtain ⟨next, hleads, hdescends⟩ := h.into_child htree hn hp hpholds
      rw [hleads.turns.members rfl (hrole rfl)] at hdescends
      exact hdescends.not_holds_propertyKey htree hsub hne hliteral hholds
    · cases hpkey
  · cases hkey

end Way

/-- Whatever handler is asked, no site lies in a literal that is the computed key of a member access
or of a property of an object literal that is not merely held where it stands. -/
theorem computed_keys_hold_no_site {source : Source} (htree : source.tree.Charted) (file : FileInfo)
    (options : Options) {σ : Type} (handle : Handler σ) (start : σ) :
    ∀ site ∈ (Setting.of source file options).offered handle start,
      ∀ above ∈ source.tree.subnodes, ∀ n ∈ above.children,
        (n.kind = .object → above.kind.isHolder = false) →
          ∀ key ∈ n.computedKeys, key.isLiteral = true → ¬key.Holds site.id.span := by
  intro site hsite above habove n hn hheld key hkey hliteral hholds
  rw [Setting.offered_eq] at hsite
  have hroot := Setting.descends_of_mem_outlineSites htree.plain htree.root hsite
  have hlocates := hroot.locates htree (List.Subset.refl _) fun hbears => by
    simp [Node.mayBear, Markup.isMarkup, htree.root, Kind.isText] at hbears
  have hnholds : n.Holds site.id.span := hholds.of_subnode (n.computedKeys_subset hkey)
  have hsub := Node.subnodes_subset_of_mem_subnodes habove
  obtain ⟨role, hdown⟩ := hroot.of_holds htree (List.Subset.refl _) habove (.of_child hn hnholds)
  obtain ⟨next, hleads, hdown⟩ := hdown.into_child htree hsub hn hnholds
  have hnext : n.kind = .object → next = .value := fun hobject =>
    hleads.turns.object hobject (hheld hobject)
  have hnsub := List.Subset.trans (Node.subnodes_subset_of_mem_children hn) hsub
  exact hdown.not_holds_computedKeys htree hnsub hlocates.nonempty hnext hkey hliteral hholds

/-- Three literals are kept as keys; of two texts that are extracted one is the key of a method. -/
theorem computed_keys_hold_no_site_method :
    let code :=
      "f(o[\"甲\"], \x7b [(\"乙\")]: \"丁\", [\x60丙\x60]: 1, " ++
      "[\"戊\"]() \x7b\x7d \x7d)"
    ∃ source, Source.read true code = .ok source ∧ source.tree.Charted ∧
      (∀ above ∈ source.tree.subnodes, ∀ n ∈ above.children, n.kind = .object →
        above.kind.isHolder = false) ∧
      ((source.tree.subnodes.flatMap Node.computedKeys).filter Node.isLiteral).length = 3 ∧
      let s := Setting.of source ⟨"src/a.tsx", .component⟩ {}
      s.sites.map (·.text) = ["丁", "戊"] ∧
      ∀ site ∈ s.offered Collector.handler {}, ∀ above ∈ source.tree.subnodes,
        ∀ n ∈ above.children, ∀ key ∈ n.computedKeys, key.isLiteral = true →
          ¬key.Holds site.id.span := by
  intro code
  subst code
  generalize hcode : (_ : String) ++ (_ : String) = code
  have hchecked : (Source.read true code).toOption.any (fun source =>
      decide (source.tree.Charted ∧
        (∀ above ∈ source.tree.subnodes, ∀ n ∈ above.children, n.kind = .object →
          above.kind.isHolder = false) ∧
        ((source.tree.subnodes.flatMap Node.computedKeys).filter Node.isLiteral).length = 3 ∧
        (Setting.of source ⟨"src/a.tsx", .component⟩ {}).sites.map (·.text) =
          ["丁", "戊"])) = true := by
    rw [← hcode]
    decide +kernel
  obtain ⟨source, hread, hcharted, hheld, hkeys, htexts⟩ := Source.exists_read hchecked
  refine ⟨source, hread, hcharted, hheld, hkeys, htexts, ?_⟩
  intro site hsite above habove n hn
  exact computed_keys_hold_no_site hcharted _ {} _ _ site hsite above habove n hn
    (hheld above habove n hn)

end Phrasebook
