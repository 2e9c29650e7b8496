import Mathlib.Data.List.Nodup
import Phrasebook.Proofs.Pairs
import Phrasebook.Proofs.Residual
import Phrasebook.Proofs.Shape

/-!
Runs of markup children as they are planned and then outlined. Every run is found again by the
element it was planned for, and each child of that element lies in a run or is visited on its own.
-/
namespace Phrasebook

open Script Outline

namespace Markup

/-- The run takes up at least one of `count` children and no others. -/
def Run.Within (r : Run) (count : Nat) : Prop := r.start < r.stop ∧ r.stop ≤ count

theorem planRun_within {source : Source} {start : Nat} {members : List Node} {r : Run}
    (h : planRun source start members = some r) : r.Within (start + members.length) := by
  cases members with
  | nil => simp [planRun] at h
  | cons first rest =>
    simp only [planRun, List.head?_cons, List.getLast?_cons] at h
    split at h
    · cases h
      simp [Run.Within]
    · cases h

theorem Run.Within.mono {r : Run} {m n : Nat} (h : r.Within m) (hle : m ≤ n) : r.Within n :=
  ⟨h.1, Nat.le_trans h.2 hle⟩

theorem planFrom_within {source : Source} {r : Run} (children : List Node) {index : Nat}
    {gathered : List Node} (hgathered : gathered.length ≤ index)
    (h : r ∈ planFrom source index gathered children) : r.Within (index + children.length) := by
  induction children generalizing index gathered with
  | nil =>
    have hrun := planRun_within (Option.mem_toList.mp h)
    rwa [Nat.sub_add_cancel hgathered] at hrun
  | cons child rest ih =>
    have hcount : index + 1 + rest.length = index + (child :: rest).length := by
      simp only [List.length_cons]
      omega
    rw [← hcount]
    simp only [planFrom] at h
    split at h
    · exact ih (by simpa using hgathered) h
    · rcases List.mem_append.mp h with h | h
      · have hrun := planRun_within (Option.mem_toList.mp h)
        rw [Nat.sub_add_cancel hgathered] at hrun
        exact hrun.mono (by omega)
      · exact ih (Nat.zero_le _) h

theorem planChildren_within {source : Source} {children : List Node} {r : Run}
    (h : r ∈ planChildren source children) : r.Within children.length := by
  have := planFrom_within children (Nat.le_refl 0) h
  rwa [Nat.zero_add] at this

/-- A run is made of children next to each other. -/
theorem planFrom_members {source : Source} {r : Run} (children : List Node) {index : Nat}
    {gathered : List Node} (h : r ∈ planFrom source index gathered children) :
    ∃ start members, members ⊆ gathered ++ children ∧ planRun source start members = some r := by
  induction children generalizing index gathered with
  | nil => exact ⟨_, gathered, by simp, Option.mem_toList.mp h⟩
  | cons child rest ih =>
    simp only [planFrom] at h
    split at h
    · obtain ⟨start, members, hsub, hrun⟩ := ih h
      exact ⟨start, members, by simpa using hsub, hrun⟩
    · rcases List.mem_append.mp h with h | h
      · exact ⟨_, gathered, List.subset_append_left _ _, Option.mem_toList.mp h⟩
      · obtain ⟨start, members, hsub, hrun⟩ := ih h
        have hrest : rest ⊆ gathered ++ child :: rest :=
          List.subset_append_of_subset_right _ (List.subset_cons_self _ _)
        exact ⟨start, members, List.Subset.trans hsub hrest, hrun⟩

theorem isMergeable_of_planRun {source : Source} {start : Nat} {members : List Node} {r : Run}
    (h : planRun source start members = some r) : isMergeable members = true := by
  unfold planRun at h
  split at h
  · split at h
    · assumption
    · cases h
  · cases h

theorem rendered_eq_nil {n : Node} (h : isMarkup n = false) : rendered n = [] := by
  unfold rendered
  split
  · cases h
  · cases h
  · rfl

theorem rendered_sublist (n : Node) : (rendered n).Sublist n.children := by
  unfold rendered
  split
  · exact List.sublist_cons_self _ _
  · exact List.Sublist.refl _
  · exact List.nil_sublist _

theorem mem_planNodes {source : Source} {entry : Span × List Run} {ns : List Node} :
    entry ∈ planNodes source ns ↔ ∃ n ∈ ns, entry ∈ planNode source n := by
  induction ns with
  | nil => simp [planNodes]
  | cons n ns ih => simp [planNodes, ih]

/-- A run is planned for an element of the tree, from the children of that element. -/
theorem mem_planNode {source : Source} {owner : Span} {runs : List Run} {n : Node}
    (h : (owner, runs) ∈ planNode source n) :
    ∃ m ∈ n.subnodes, isMarkup m = true ∧ m.span = owner ∧
      runs = planChildren source (rendered m) := by
  induction n using Node.inductOn with
  | mk kind span children ih =>
    simp only [planNode, List.mem_append] at h
    rcases h with h | h
    · simp only [ownPlan] at h
      split at h
      · cases h
      · rename_i hruns
        cases List.mem_singleton.mp h
        refine ⟨_, Node.mem_subnodes_self _, ?_, rfl, rfl⟩
        by_contra hmarkup
        rw [rendered_eq_nil (Bool.eq_false_iff.mpr hmarkup)] at hruns
        exact hruns rfl
    · obtain ⟨c, hc, hentry⟩ := mem_planNodes.mp h
      obtain ⟨m, hm, hrest⟩ := ih c hc hentry
      exact ⟨m, Node.subnodes_subset_of_mem hc hm, hrest⟩

/-- In a tree of elements with different spans, each one finds its own runs. -/
theorem runsFor_planned {source : Source} {isData : Bool} {m : Node} {r : Run}
    (hdistinct : ((source.tree.subnodes.filter isMarkup).map Node.span).Nodup)
    (hm : m ∈ source.tree.subnodes) (hmarkup : isMarkup m = true)
    (h : r ∈ (Plan.build source isData).runsFor m.span) :
    isData = false ∧ r ∈ planChildren source (rendered m) := by
  unfold Plan.build Plan.runsFor at h
  split at h
  · cases h
  · rename_i hdata
    cases hlookup : (planNode source source.tree).lookup m.span with
    | none => simp [hlookup] at h
    | some runs =>
      obtain ⟨owner, howner, hsame, hspan, rfl⟩ := mem_planNode (Text.mem_of_lookup hlookup)
      have heq : owner = m := List.inj_on_of_nodup_map hdistinct
        (List.mem_filter.mpr ⟨howner, hsame⟩) (List.mem_filter.mpr ⟨hm, hmarkup⟩) hspan
      rw [hlookup, heq] at h
      exact ⟨Bool.eq_false_iff.mpr hdata, h⟩

theorem runsFor_within {source : Source} {isData : Bool} {m : Node} {r : Run}
    (hdistinct : ((source.tree.subnodes.filter isMarkup).map Node.span).Nodup)
    (hm : m ∈ source.tree.subnodes) (hmarkup : isMarkup m = true)
    (h : r ∈ (Plan.build source isData).runsFor m.span) : r.Within (rendered m).length :=
  planChildren_within (runsFor_planned hdistinct hm hmarkup h).2

theorem Run.span_eq {r : Run} {children : List Node} {first last : Node}
    (hne : r.start < r.stop) (hfirst : children[r.start]? = some first)
    (hlast : children[r.stop - 1]? = some last) :
    r.span children = some ⟨first.span.lo, last.span.hi⟩ := by
  have hstop : 0 < r.stop := Nat.zero_lt_of_lt hne
  simp [Run.span, hfirst, hlast, hstop, guard]

end Markup

theorem Script.Node.inOrder_of_le {ns : List Node} (h : ns.Pairwise InOrder) {i j : Nat}
    {a b : Node} (hle : i ≤ j) (ha : ns[i]? = some a) (hb : ns[j]? = some b) : InOrder a b := by
  obtain ⟨hi, rfl⟩ := List.getElem?_eq_some_iff.mp ha
  obtain ⟨hj, rfl⟩ := List.getElem?_eq_some_iff.mp hb
  rcases Nat.eq_or_lt_of_le hle with rfl | hlt
  · exact ⟨Nat.le_refl _, Nat.le_refl _⟩
  · exact List.pairwise_iff_getElem.mp h i j hi hj hlt

namespace Setting

/-- A run lies over each of its members. -/
theorem run_reach {pos : Nat} {r : Markup.Run} {all : List Child} {c : Child} {i : Nat}
    (hr : r.Within all.length) (hordered : (all.map (·.1)).Pairwise Node.InOrder)
    (hc : all[i]? = some c) (hstart : r.start ≤ i) (hstop : i < r.stop)
    (hspan : c.node.span.Holds pos) : StepsReach pos (run r all) := by
  obtain ⟨hne, hlen⟩ := hr
  have hmember : (all.map (·.1))[i]? = some c.node := by simp [hc, Child.node]
  have hfirst : (all.map (·.1))[r.start]? = some _ :=
    List.getElem?_eq_getElem (by rw [List.length_map]; omega)
  have hlast : (all.map (·.1))[r.stop - 1]? = some _ :=
    List.getElem?_eq_getElem (by rw [List.length_map]; omega)
  have hlo := (Node.inOrder_of_le hordered hstart hfirst hmember).1
  have hhi := (Node.inOrder_of_le hordered (Nat.le_sub_one_of_lt hstop) hmember hlast).2
  simp only [run, Markup.Run.span_eq hne hfirst hlast]
  exact .single (.braced ⟨Nat.le_trans hlo hspan.1, Nat.lt_of_lt_of_le hspan.2 hhi⟩)

/-- The children from a position on are the one that stands there and those after it. -/
theorem next_of_drop {α : Type} {xs rest : List α} {x : α} {index : Nat}
    (h : xs.drop index = x :: rest) : xs[index]? = some x ∧ xs.drop (index + 1) = rest := by
  rw [← List.head?_drop, ← List.drop_drop, h]
  exact ⟨rfl, rfl⟩

/-- A child that is no part of a run is visited on its own, and the others lie in their run. -/
theorem childrenFrom_reach {pos : Nat} {runs : List Markup.Run} {all : List Child} {c : Child}
    {i : Nat} (hruns : ∀ r ∈ runs, r.Within all.length)
    (hordered : (all.map (·.1)).Pairwise Node.InOrder) (hc : all[i]? = some c)
    (hspan : c.node.span.Holds pos) (hinner : StepsReach pos (c.views.inner ()))
    (rest : List Child) {index resume : Nat} (hdrop : all.drop index = rest) (hindex : index ≤ i)
    (hresume : resume ≤ i) : StepsReach pos (childrenFrom runs all index resume rest) := by
  have hget : (all.drop index)[i - index]? = some c := by
    rw [List.getElem?_drop, Nat.add_sub_cancel' hindex, hc]
  induction rest generalizing index resume with
  | nil => simp [hdrop] at hget
  | cons d rest ih =>
    have hnext := (next_of_drop hdrop).2
    have hlater : ∀ resume, index < i → resume ≤ i →
        StepsReach pos (childrenFrom runs all (index + 1) resume rest) := by
      intro resume hlt hle
      refine ih hnext hlt hle ?_
      rw [List.getElem?_drop, Nat.add_sub_cancel' hlt, hc]
    simp only [childrenFrom]
    split
    · exact hlater resume (by omega) hresume
    · split
      · rename_i r hfind
        have hr := hruns r (List.mem_of_find?_eq_some hfind)
        have hstart : r.start = index := by simpa using List.find?_some hfind
        by_cases hin : i < r.stop
        · exact .left (run_reach hr hordered hc (by omega) hin hspan)
        · have := hr.1
          exact .right (hlater _ (by omega) (by omega))
      · rcases Nat.eq_or_lt_of_le hindex with rfl | hlt
        · rw [hdrop, Nat.sub_self] at hget
          cases hget
          exact .left hinner
        · exact .right (hlater resume hlt hresume)

end Setting

end Phrasebook
