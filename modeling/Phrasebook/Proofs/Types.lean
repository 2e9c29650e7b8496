import Phrasebook.Proofs.Keys
import Phrasebook.Proofs.Remains

/-!
Sites in types. Only some types are skipped as a whole; the others are visited like any part of the
module, so that expressions that stand in them, such as the quoted names of their members, are
extracted. Nothing else in a type is.
-/
namespace Phrasebook

open Script

variable {id : SiteId}

theorem Script.Kind.not_isExpr_of_isType {k : Kind} (h : k.isType = true) :
    k.isExpr = false ∧ k.isText = false := by
  cases k <;> first | cases h; done | exact ⟨rfl, rfl⟩

namespace Script.Node

mutual

/-- The outermost expressions and texts under a node. -/
def expressions : Node → List Node
  | .mk _ _ children => expressionsOfAll children

def expressionsOfAll : List Node → List Node
  | [] => []
  | n :: ns =>
    (if n.kind.isExpr || n.kind.isText then [n] else n.expressions) ++ expressionsOfAll ns

end

theorem mem_expressionsOfAll {ns : List Node} {e : Node} : e ∈ expressionsOfAll ns ↔
    ∃ n ∈ ns, e ∈ if n.kind.isExpr || n.kind.isText then [n] else n.expressions := by
  induction ns with
  | nil => simp [expressionsOfAll]
  | cons n ns ih => simp [expressionsOfAll, ih]

theorem mem_expressions {n e : Node} : e ∈ n.expressions ↔
    ∃ c ∈ n.children, e ∈ if c.kind.isExpr || c.kind.isText then [c] else c.expressions := by
  cases n
  exact mem_expressionsOfAll

instance (n : Node) (range : Span) : Decidable (n.Holds range) := by
  unfold Holds
  infer_instance

theorem exists_above_expression {n e : Node} (h : e ∈ n.expressions) :
    ∃ above ∈ n.subnodes, e ∈ above.children := by
  induction n using Node.inductOn with
  | mk kind span children ih =>
    obtain ⟨c, hc, he⟩ := mem_expressions.mp h
    split at he
    · rw [List.mem_singleton.mp he]
      exact ⟨_, mem_subnodes_self _, hc⟩
    · obtain ⟨above, habove, hchild⟩ := ih c hc he
      exact ⟨above, subnodes_subset_of_mem hc habove, hchild⟩

end Script.Node

section Way
variable {source : Source} {file : FileInfo} {options : Options} {role : Role} {n : Node}

/-- Below a node that is neither an expression nor a text, the way down to a site leads through an
expression or text. -/
theorem Setting.Descends.into_expression {s : Setting} (h : s.Descends id role n)
    (hkind : n.kind.isExpr = false ∧ n.kind.isText = false) :
    ∃ e ∈ n.expressions, ∃ next, s.Descends id next e := by
  induction n using Node.inductOn generalizing role with
  | mk kind span children ih =>
    have hinto : ∀ c ∈ children, ∀ next, s.Descends id next c →
        ∃ e ∈ (Node.mk kind span children).expressions, ∃ next, s.Descends id next e := by
      intro c hc next hd
      by_cases hstands : (c.kind.isExpr || c.kind.isText) = true
      · exact ⟨c, Node.mem_expressions.mpr ⟨c, hc, by simp [hstands]⟩, next, hd⟩
      · rw [Bool.not_eq_true, Bool.or_eq_false_iff] at hstands
        obtain ⟨e, he, hdown⟩ := ih c hc hd hstands
        exact ⟨e, Node.mem_expressions.mpr ⟨c, hc, by simpa [hstands] using he⟩, hdown⟩
    cases h with
    | text hcarries _ =>
      have htext := hcarries.isText.1
      rw [hkind.2] at htext
      cases htext
    | run hmarkup =>
      have hexpr := hkind.1
      rw [Markup.isMarkup, Bool.or_eq_true, beq_iff_eq, beq_iff_eq] at hmarkup
      rcases hmarkup with hmarkup | hmarkup <;> simp [hmarkup, Kind.isExpr] at hexpr
    | key _ hc _ hd => exact hinto _ hc _ hd
    | down hc _ _ _ hd => exact hinto _ (s.options.entered_subset _ hc) _ hd

/-- Where there is a site, there is target text. -/
theorem Setting.Descends.foundTexts_ne_nil (htree : source.tree.Charted)
    (hn : n.subnodes ⊆ source.tree.subnodes)
    (h : (Setting.of source file options).Descends id role n) : foundTexts n ≠ [] := by
  have hchild : ∀ n : Node, ∀ c ∈ n.children, foundTexts c ≠ [] → foundTexts n ≠ [] := by
    intro n c hc hfound hnone
    have hsub := foundTexts_subset_of_mem_subnodes
      (Node.subnodes_subset_of_mem_children hc (Node.mem_subnodes_self c))
    rw [hnone, List.subset_nil] at hsub
    exact hfound hsub
  have hresidual : ∀ n : Node, (Setting.of source file options).missed n ≠ [] →
      foundTexts n ≠ [] := by
    intro n hmissed hnone
    have hsub : (Setting.of source file options).missed n ⊆ foundTexts n := residual_subset n
    rw [hnone, List.subset_nil] at hsub
    exact hmissed hsub
  induction h with
  | text _ hmissed => exact hresidual _ hmissed
  | @run _ n r span hmarkup _ hruns _ _ hsub =>
    obtain ⟨hdata, hplanned⟩ := Markup.runsFor_planned htree.distinct
      (hn (Node.mem_subnodes_self n)) hmarkup hruns
    obtain ⟨c, hc, hmissed⟩ := Markup.residual_ne_nil_of_planned (o := options) hplanned
    rw [← hdata] at hmissed
    exact hchild n c ((Markup.rendered_sublist n).subset hc) (hresidual c hmissed)
  | @key _ _ n c _ hc _ _ ih =>
    exact hchild n c hc (ih (List.Subset.trans (Node.subnodes_subset_of_mem_children hc) hn))
  | @down _ _ n c hc _ _ _ _ ih =>
    have hc := options.entered_subset n hc
    exact hchild n c hc (ih (List.Subset.trans (Node.subnodes_subset_of_mem_children hc) hn))

end Way

/-- Whatever handler is asked, a site in a type lies in an expression with target text that stands in
the type. Type arguments of calls, constructions and tagged templates hold no site, nor do the types
of an arrow function around its parameters. -/
theorem types_hold_sites_in_expressions {source : Source} (htree : source.tree.Charted)
    (file : FileInfo) (options : Options) {σ : Type} (handle : Handler σ) (start : σ) :
    ∀ site ∈ (Setting.of source file options).offered handle start,
      ∀ above ∈ source.tree.subnodes, ∀ t ∈ above.children, t.kind.isType = true →
        t.Holds site.id.span →
          above.kind.skipsType t.kind = false ∧
          ∃ e ∈ t.expressions, e.Holds site.id.span ∧ foundTexts e ≠ [] := by
  intro site hsite above habove t ht htype hholds
  rw [Setting.offered_eq] at hsite
  have hroot := Setting.descends_of_mem_outlineSites htree.plain htree.root hsite
  have hsub := Node.subnodes_subset_of_mem_subnodes habove
  have htsub := List.Subset.trans (Node.subnodes_subset_of_mem_children ht) hsub
  obtain ⟨role, hdown⟩ := hroot.of_holds htree (List.Subset.refl _) habove (.of_child ht hholds)
  obtain ⟨next, hleads, hdown⟩ := hdown.into_child htree hsub ht hholds
  obtain ⟨e, he, _, hdescends⟩ := hdown.into_expression (Kind.not_isExpr_of_isType htype)
  obtain ⟨holder, hholder, hchild⟩ := Node.exists_above_expression he
  have hspaced := htree.spaced holder (htsub hholder)
  have hesub := List.Subset.trans (Node.subnodes_subset_of_mem_children hchild)
    (List.Subset.trans (Node.subnodes_subset_of_mem_subnodes hholder) htsub)
  have hlocates := hdescends.locates htree hesub fun _ _ hp => hspaced.nonempty hchild hp
  exact ⟨hleads.enters, e, he, hlocates.holds, hdescends.foundTexts_ne_nil htree hesub⟩

/-- The quoted name of an interface member is extracted; those in a type argument and in the result
type of an arrow function are not. -/
theorem types_hold_sites_in_expressions_interface :
    let code :=
      "interface A \x7b \"甲\": B \x7d f<\x7b \"乙\": B \x7d>(1); " ++
      "const g = (x: B): \x7b \"丙\": B \x7d => x;"
    ∃ source, Source.read true code = .ok source ∧ source.tree.Charted ∧
      let s := Setting.of source ⟨"src/a.tsx", .component⟩ {}
      s.sites.map (·.text) = ["甲"] ∧
      (∃ site ∈ s.sites, ∃ above ∈ source.tree.subnodes, ∃ t ∈ above.children,
        t.kind = .typeDecl ∧ t.Holds site.id.span) ∧
      ∀ site ∈ s.offered Collector.handler {}, ∀ above ∈ source.tree.subnodes,
        ∀ t ∈ above.children, t.kind.isType = true → above.kind.skipsType t.kind = true →
          ¬t.Holds site.id.span := by
  intro code
  subst code
  generalize hcode : (_ : String) ++ (_ : String) = code
  have hchecked : (Source.read true code).toOption.any (fun source =>
      let s := Setting.of source ⟨"src/a.tsx", .component⟩ {}
      decide (source.tree.Charted ∧ s.sites.map (·.text) = ["甲"] ∧
        ∃ site ∈ s.sites, ∃ above ∈ source.tree.subnodes, ∃ t ∈ above.children,
          t.kind = .typeDecl ∧ t.Holds site.id.span)) = true := by
    rw [← hcode]
    decide +kernel
  obtain ⟨source, hread, hcharted, htexts, hheld⟩ := Source.exists_read hchecked
  refine ⟨source, hread, hcharted, htexts, hheld, ?_⟩
  intro site hsite above habove t ht htype hskips hholds
  have hresult := types_hold_sites_in_expressions hcharted _ {} _ _ site hsite above habove t ht
    htype hholds
  simp [hskips] at hresult

end Phrasebook
