import Phrasebook.Proofs.Rendering

/-!
Which children of an element are fused. The plan holds exactly the longest stretches of text and
expressions with target text among the text, each with all of its expressions, and every child is
then handled once, in its run or on its own.
-/
namespace Phrasebook

open Script Outline

/-! ### Visible characters -/

namespace Markup

/-- The characters of a text that are not lost as white space. -/
def visible (text : List Char) : List Char := text.filter (!isSpace ·)

@[simp]
theorem visible_append (a b : List Char) : visible (a ++ b) = visible a ++ visible b :=
  List.filter_append ..

theorem visible_eq_nil {text : List Char} (h : ∀ c ∈ text, isSpace c = true) :
    visible text = [] := by
  simpa [visible, List.filter_eq_nil_iff] using h

theorem visible_untab (line : List Char) : visible (line.map untab) = visible line := by
  induction line with
  | nil => rfl
  | cons c line ih =>
    rw [visible, visible] at ih ⊢
    cases hspace : isSpace c with
    | true => simp [hspace, isSpace_untab hspace, ih]
    | false => simp [hspace, untab_of_not_isSpace hspace, ih]

theorem visible_dropWhile (text : List Char) : visible (text.dropWhile isSpace) = visible text := by
  have hsplit := congrArg visible (List.takeWhile_append_dropWhile (p := isSpace) (l := text))
  rw [visible_append, visible_eq_nil fun c hc => List.mem_takeWhile_imp hc] at hsplit
  simpa using hsplit

theorem visible_rdropWhile (text : List Char) :
    visible (text.rdropWhile isSpace) = visible text := by
  have hreverse (cs : List Char) : visible cs.reverse = (visible cs).reverse :=
    List.filter_reverse ..
  rw [List.rdropWhile, hreverse, visible_dropWhile, hreverse, List.reverse_reverse]

theorem visible_cleanLine (first last : Bool) (line : List Char) :
    visible (cleanLine first last line) = visible line := by
  rw [cleanLine_eq]
  cases first <;> cases last <;> simp [visible_untab, visible_dropWhile, visible_rdropWhile]

theorem visible_cleanLines (first : Bool) (lines : List (List Char)) :
    visible (cleanLines first lines).flatten = visible lines.flatten := by
  induction lines generalizing first with
  | nil => rfl
  | cons line lines ih => simp [cleanLines, visible_cleanLine, ih]

theorem visible_splitLines (raw : List Char) : visible (splitLines raw).flatten = visible raw := by
  induction raw with
  | nil => rfl
  | cons c raw ih =>
    by_cases hbreak : c = '\n'
    · subst hbreak
      simpa [splitLines, visible, isSpace] using ih
    · obtain ⟨line, lines, hlines⟩ := List.exists_cons_of_ne_nil (splitLines_ne_nil raw)
      rw [hlines, List.flatten_cons] at ih
      rw [← List.singleton_append, splitLines_append (by simpa using Ne.symm hbreak) hlines,
        List.flatten_cons, List.append_assoc, visible_append [c], visible_append [c], ih]

theorem visible_intercalate (lines : List (List Char)) :
    visible ([' '].intercalate lines) = visible lines.flatten := by
  induction lines with
  | nil => rfl
  | cons line rest ih =>
    cases rest with
    | nil => simp
    | cons next rest =>
      have hseparator : visible [' '] = [] := rfl
      rw [List.intercalate_cons_cons, visible_append, visible_append, hseparator, ih,
        List.append_nil, ← visible_append, List.flatten_cons (l := line)]

/-- Cleaning keeps every visible character, in order. -/
theorem visible_cleanChars (raw : List Char) : visible (cleanChars raw) = visible raw := by
  rw [cleanChars, visible_intercalate, List.flatten_filter_not_isEmpty, visible_cleanLines,
    visible_splitLines]

theorem hasTarget_clean (raw : String) : Text.hasTarget (clean raw) = Text.hasTarget raw := by
  have hvisible (cs : List Char) : cs.any Text.isTarget = (visible cs).any Text.isTarget := by
    rw [visible, List.any_filter]
    refine congrArg (cs.any ·) (funext fun c => ?_)
    cases hspace : isSpace c with
    | true => simp [Text.not_isTarget_of_isWhite (isWhite_of_isSpace hspace)]
    | false => simp
  rw [Text.hasTarget, Text.hasTarget, clean, String.toList_ofList, hvisible, visible_cleanChars,
    ← hvisible]

/-! ### Members -/

/-- What a child says by itself: its own text, or that of a string in a container. -/
def literal : Node → Option String
  | .mk (.text value) _ _ => some value
  | .mk .container _ [.mk (.string (some value)) _ _] => some value
  | _ => none

/-- A container with an expression in it that is not a string. -/
def isExpression (child : Node) : Bool :=
  child.kind == .container && !child.children.isEmpty && (literal child).isNone

/-- The child at a position is text or a container with an expression in it. -/
def memberAt (children : List Node) (k : Nat) : Bool :=
  children[k]?.any fun child => (literal child).isSome || isExpression child

/-- From `start` to before `stop` stand members, and none next to them. -/
structure Block (children : List Node) (start stop : Nat) : Prop where
  nonempty : start < stop
  members : ∀ k, start ≤ k → k < stop → memberAt children k = true
  before : start = 0 ∨ memberAt children (start - 1) = false
  after : memberAt children stop = false

/-- A block with target text in what its members say, and with an expression. -/
structure Mergeable (children : List Node) (start stop : Nat) : Prop extends
    Block children start stop where
  target : ∃ k child text, start ≤ k ∧ k < stop ∧ children[k]? = some child ∧
    literal child = some text ∧ Text.hasTarget text = true
  expression : ∃ k child, start ≤ k ∧ k < stop ∧ children[k]? = some child ∧
    isExpression child = true

theorem isRunMember_eq (child : Node) :
    isRunMember child = ((literal child).isSome || isExpression child) := by
  fun_cases literal child with
  | case1 => simp [isRunMember, Node.kind]
  | case2 => simp [isRunMember, Node.kind, Node.children]
  | case3 child htext hstring =>
    obtain ⟨kind, span, children⟩ := child
    simp only [isRunMember, isExpression, literal.eq_3 _ htext hstring, Node.kind, Node.children]
    split
    · exact (htext _ _ _ rfl).elim
    · simp
    · rename_i hkind
      simpa using fun h => (hkind h).elim

/-- A member is text like what it says, or an expression. -/
theorem pieceOf_cases (child : Node) :
    (∃ text static, literal child = some text ∧ pieceOf child = .static static ∧
      Text.hasTarget static = Text.hasTarget text) ∨
    literal child = none ∧ pieceOf child = .dynamic := by
  fun_cases literal child with
  | case1 value => exact .inl ⟨value, clean value, rfl, rfl, hasTarget_clean value⟩
  | case2 span value => exact .inl ⟨value, value, rfl, rfl, rfl⟩
  | case3 child htext hstring => exact .inr ⟨rfl, pieceOf.eq_3 _ htext hstring⟩

theorem memberAt_eq (children : List Node) (k : Nat) :
    memberAt children k = children[k]?.any isRunMember := by
  rw [memberAt, funext isRunMember_eq]

theorem trim_ne_empty {text : String} (h : Text.hasTarget text = true) :
    (Text.trim text != "") = true := by
  rw [← Text.hasTarget_trim] at h
  rw [bne_iff_ne]
  intro hempty
  rw [hempty] at h
  cases h

/-- Target text is visible, so members with target text have text. -/
theorem isMergeable_iff {members : List Node} (h : ∀ child ∈ members, isRunMember child = true) :
    isMergeable members = true ↔
      (∃ child ∈ members, ∃ text, literal child = some text ∧ Text.hasTarget text = true) ∧
      ∃ child ∈ members, isExpression child = true := by
  have hdynamic : (members.map pieceOf).contains .dynamic = true ↔
      ∃ child ∈ members, isExpression child = true := by
    rw [List.contains_iff_mem, List.mem_map]
    refine exists_congr fun child => and_congr_right fun hchild => ?_
    have hmember := h child hchild
    rw [isRunMember_eq] at hmember
    rcases pieceOf_cases child with ⟨text, static, hliteral, hpiece, -⟩ | ⟨hliteral, hpiece⟩
    · simp [hpiece, hliteral, isExpression]
    · simpa [hpiece, hliteral] using hmember
  simp only [isMergeable, Bool.and_eq_true, hdynamic, List.any_map, List.any_eq_true,
    Function.comp]
  refine and_congr_left fun _ => ⟨?_, ?_⟩
  · rintro ⟨⟨child, hchild, htarget⟩, -⟩
    rcases pieceOf_cases child with ⟨text, static, hliteral, hpiece, hsame⟩ | ⟨-, hpiece⟩
    · rw [hpiece] at htarget
      exact ⟨child, hchild, text, hliteral, hsame.symm.trans htarget⟩
    · rw [hpiece] at htarget
      cases htarget
  · rintro ⟨child, hchild, text, hliteral, htarget⟩
    obtain ⟨text', static, hliteral', hpiece, hsame⟩ :=
      (pieceOf_cases child).resolve_right fun hnone => by simp [hnone.1] at hliteral
    obtain rfl : text = text' := Option.some.inj (hliteral.symm.trans hliteral')
    rw [← hsame] at htarget
    exact ⟨⟨child, hchild, by rw [hpiece]; exact htarget⟩,
      child, hchild, by rw [hpiece]; exact trim_ne_empty htarget⟩

/-! ### Blocks -/

variable {source : Source} {children : List Node}

/-- The block around members gathered from `start` to `index` is made of them. -/
theorem Block.eq_gathered {start index i j : Nat} (h : Block children i j)
    (hgathered : ∀ k, start ≤ k → k < index → memberAt children k = true)
    (hend : memberAt children index = false) (hstart : start ≤ i) (hi : i < index) :
    i = start ∧ j = index := by
  have hfirst : i = start := by
    by_contra hne
    have hprev := hgathered (i - 1) (by omega) (by omega)
    rcases h.before with hzero | hbefore
    · omega
    · simp [hprev] at hbefore
  have hlast : j = index := by
    rcases Nat.lt_trichotomy j index with hlt | heq | hgt
    · have hafter := hgathered j (by have := h.nonempty; omega) hlt
      simp [h.after] at hafter
    · exact heq
    · have hinside := h.members index hi.le hgt
      simp [hend] at hinside
  exact ⟨hfirst, hlast⟩

/-- The children from `i` to before `j`. -/
def between (children : List Node) (i j : Nat) : List Node := (children.drop i).take (j - i)

theorem length_between {i j : Nat} (hj : j ≤ children.length) :
    (between children i j).length = j - i := by
  rw [between, List.length_take, List.length_drop]
  omega

theorem between_concat {i j : Nat} {child : Node} (hle : i ≤ j) (h : children[j]? = some child) :
    between children i (j + 1) = between children i j ++ [child] := by
  have hget : (children.drop i)[j - i]? = some child := by
    rw [List.getElem?_drop, Nat.add_sub_cancel' hle, h]
  rw [between, between, Nat.succ_sub hle, List.take_add_one, hget]
  rfl

theorem lt_length_of_memberAt {k : Nat} (h : memberAt children k = true) : k < children.length := by
  by_contra hge
  rw [memberAt, List.getElem?_eq_none (Nat.not_lt.mp hge)] at h
  cases h

/-- Where no member follows, a run of gathered members takes up a block. -/
theorem Block.of_gathered {start index : Nat} {r : Run} (hindex : index ≤ children.length)
    (hgathered : ∀ k, start ≤ k → k < index → memberAt children k = true)
    (hbefore : start = 0 ∨ memberAt children (start - 1) = false)
    (hend : memberAt children index = false)
    (hrun : planRun source start (between children start index) = some r) :
    Block children start index := by
  refine ⟨?_, hgathered, hbefore, hend⟩
  have hstop := planRun_within hrun
  rw [Run.Within, (planRun_range hrun).1, (planRun_range hrun).2, length_between hindex] at hstop
  omega

/-- After the members gathered from `start` to `index`, the runs to come are planned from the
blocks that do not start before them. -/
theorem mem_planFrom (rest : List Node) {start index : Nat} {r : Run}
    (hrest : children.drop index = rest) (hle : start ≤ index) (hindex : index ≤ children.length)
    (hgathered : ∀ k, start ≤ k → k < index → memberAt children k = true)
    (hbefore : start = 0 ∨ memberAt children (start - 1) = false) :
    r ∈ planFrom source index (between children start index) rest ↔
      ∃ i j, start ≤ i ∧ Block children i j ∧ planRun source i (between children i j) = some r := by
  induction rest generalizing start index with
  | nil =>
    have hend : memberAt children index = false := by
      rw [memberAt, List.getElem?_eq_none (List.drop_eq_nil_iff.mp hrest)]
      rfl
    rw [planFrom, Option.mem_toList, length_between hindex, Nat.sub_sub_self hle]
    constructor
    · intro hrun
      exact ⟨start, index, Nat.le_refl _, .of_gathered hindex hgathered hbefore hend hrun, hrun⟩
    · rintro ⟨i, j, hi, hblock, hrun⟩
      have hlt := lt_length_of_memberAt (hblock.members i (Nat.le_refl _) hblock.nonempty)
      have hlength := List.drop_eq_nil_iff.mp hrest
      obtain ⟨rfl, rfl⟩ := hblock.eq_gathered hgathered hend hi (by omega)
      exact hrun
  | cons child rest ih =>
    obtain ⟨hchild, hnext⟩ := Setting.next_of_drop hrest
    have hlt : index < children.length := (List.getElem?_eq_some_iff.mp hchild).1
    have hmember : memberAt children index = isRunMember child := by
      rw [memberAt_eq, hchild]
      rfl
    rw [planFrom]
    split
    · rename_i hruns
      rw [← between_concat hle hchild]
      refine ih hnext (Nat.le_succ_of_le hle) hlt (fun k hk hk' => ?_) hbefore
      rcases Nat.eq_or_lt_of_le (Nat.le_of_lt_succ hk') with rfl | hk'
      · exact hmember.trans hruns
      · exact hgathered k hk hk'
    · rename_i hstops
      have hend : memberAt children index = false := by
        rw [hmember, Bool.eq_false_iff]
        exact hstops
      have hlater := ih hnext (Nat.le_refl _) hlt (fun k hk hk' => absurd hk' (Nat.not_lt.mpr hk))
        (.inr hend)
      rw [between, Nat.sub_self, List.take_zero] at hlater
      rw [List.mem_append, hlater, Option.mem_toList, length_between hindex, Nat.sub_sub_self hle]
      constructor
      · rintro (hrun | ⟨i, j, hi, hblock, hrun⟩)
        · exact ⟨start, index, Nat.le_refl _, .of_gathered hindex hgathered hbefore hend hrun, hrun⟩
        · exact ⟨i, j, by omega, hblock, hrun⟩
      · rintro ⟨i, j, hi, hblock, hrun⟩
        rcases Nat.lt_trichotomy i index with hbelow | rfl | habove
        · obtain ⟨rfl, rfl⟩ := hblock.eq_gathered hgathered hend hi hbelow
          exact .inl hrun
        · have hfirst := hblock.members i (Nat.le_refl _) hblock.nonempty
          simp [hend] at hfirst
        · exact .inr ⟨i, j, habove, hblock, hrun⟩

theorem mem_planChildren {r : Run} : r ∈ planChildren source children ↔
    ∃ i j, Block children i j ∧ planRun source i (between children i j) = some r := by
  have hall : r ∈ planFrom source 0 (between children 0 0) children ↔ _ :=
    mem_planFrom children rfl (Nat.le_refl 0) (Nat.zero_le _)
      (fun k hk hk' => absurd hk' (Nat.not_lt.mpr hk)) (.inl rfl)
  simpa [planChildren, between] using hall

/-- Members gathered before a position make a run that ends there. -/
theorem range_of_gathered {index : Nat} {gathered : List Node} {r : Run}
    (hle : gathered.length ≤ index)
    (h : r ∈ (planRun source (index - gathered.length) gathered).toList) :
    r.start = index - gathered.length ∧ r.stop = index := by
  obtain ⟨hstart, hstop⟩ := planRun_range (Option.mem_toList.mp h)
  exact ⟨hstart, by omega⟩

/-- Runs come in the order of the children, with other children between them. -/
theorem planFrom_ordered (rest : List Node) {index : Nat} {gathered : List Node}
    (hle : gathered.length ≤ index) :
    (planFrom source index gathered rest).Pairwise (fun a b => a.stop < b.start) ∧
      ∀ r ∈ planFrom source index gathered rest, index - gathered.length ≤ r.start := by
  induction rest generalizing index gathered with
  | nil =>
    refine ⟨?_, fun r hr => (range_of_gathered hle hr).1.ge⟩
    rw [planFrom]
    cases planRun source (index - gathered.length) gathered <;> simp
  | cons child rest ih =>
    rw [planFrom]
    split
    · have hgathered : (gathered ++ [child]).length ≤ index + 1 := by simpa using hle
      simpa using ih hgathered
    · have hnone : ([] : List Node).length ≤ index + 1 := Nat.zero_le _
      obtain ⟨hordered, hstarts⟩ := ih hnone
      have hlater : ∀ r ∈ planFrom source (index + 1) [] rest, index < r.start := hstarts
      refine ⟨List.pairwise_append.mpr ⟨?_, hordered, fun a ha b hb => ?_⟩, fun r hr => ?_⟩
      · cases planRun source (index - gathered.length) gathered <;> simp
      · rw [(range_of_gathered hle ha).2]
        exact hlater b hb
      · rcases List.mem_append.mp hr with hr | hr
        · exact (range_of_gathered hle hr).1.ge
        · have := hlater r hr
          omega

/-! ### Which blocks are planned -/

theorem Block.stop_le {i j : Nat} (h : Block children i j) : j ≤ children.length := by
  have hne := h.nonempty
  have hlast := lt_length_of_memberAt (h.members (j - 1) (by omega) (by omega))
  omega

theorem getElem?_between {i j k : Nat} (hk : k < j - i) :
    (between children i j)[k]? = children[i + k]? := by
  rw [between, List.getElem?_take_of_lt hk, List.getElem?_drop]

theorem mem_between {child : Node} {i j : Nat} : child ∈ between children i j ↔
    ∃ k, i ≤ k ∧ k < j ∧ children[k]? = some child := by
  rw [List.mem_iff_getElem?]
  constructor
  · rintro ⟨k, hk⟩
    have hlt : k < j - i := by
      have := (List.getElem?_eq_some_iff.mp hk).1
      rw [between, List.length_take] at this
      omega
    rw [getElem?_between hlt] at hk
    exact ⟨i + k, by omega, by omega, hk⟩
  · rintro ⟨k, hle, hlt, hk⟩
    refine ⟨k - i, ?_⟩
    rw [getElem?_between (by omega), Nat.add_sub_cancel' hle, hk]

theorem Block.isRunMember {i j : Nat} (h : Block children i j) :
    ∀ child ∈ between children i j, isRunMember child = true := by
  intro child hchild
  obtain ⟨k, hle, hlt, hk⟩ := mem_between.mp hchild
  have hmember := h.members k hle hlt
  rwa [memberAt_eq, hk] at hmember

theorem exists_planRun_iff {start : Nat} {members : List Node} :
    (∃ r, planRun source start members = some r) ↔ isMergeable members = true := by
  refine ⟨fun ⟨r, hr⟩ => isMergeable_of_planRun hr, fun h => ?_⟩
  obtain ⟨first, rest, rfl⟩ : ∃ first rest, members = first :: rest :=
    List.exists_cons_of_length_pos (Nat.zero_lt_of_lt (length_of_isMergeable h))
  simp only [planRun, List.head?_cons, List.getLast?_cons, h, if_true]
  exact ⟨_, rfl⟩

theorem exists_planned_iff {i j : Nat} :
    (∃ r ∈ planChildren source children, r.start = i ∧ r.stop = j) ↔ Mergeable children i j := by
  constructor
  · rintro ⟨r, hr, rfl, rfl⟩
    obtain ⟨i, j, hblock, hrun⟩ := mem_planChildren.mp hr
    obtain ⟨hstart, hstop⟩ := planRun_range hrun
    rw [length_between hblock.stop_le, Nat.add_sub_cancel' hblock.nonempty.le] at hstop
    rw [hstart, hstop]
    obtain ⟨⟨child, hchild, text, htext⟩, other, hother, hexpression⟩ :=
      (isMergeable_iff hblock.isRunMember).mp (isMergeable_of_planRun hrun)
    obtain ⟨k, hle, hlt, hk⟩ := mem_between.mp hchild
    obtain ⟨k', hle', hlt', hk'⟩ := mem_between.mp hother
    exact ⟨hblock, ⟨k, child, text, hle, hlt, hk, htext⟩, k', other, hle', hlt', hk', hexpression⟩
  · rintro ⟨hblock, ⟨k, child, text, hle, hlt, hk, htext⟩, k', other, hle', hlt', hk', hexpression⟩
    have hmergeable : isMergeable (between children i j) = true :=
      (isMergeable_iff hblock.isRunMember).mpr
        ⟨⟨child, mem_between.mpr ⟨k, hle, hlt, hk⟩, text, htext⟩,
          other, mem_between.mpr ⟨k', hle', hlt', hk'⟩, hexpression⟩
    obtain ⟨r, hrun⟩ := exists_planRun_iff.mpr hmergeable
    obtain ⟨hstart, hstop⟩ := planRun_range hrun
    rw [length_between hblock.stop_le, Nat.add_sub_cancel' hblock.nonempty.le] at hstop
    exact ⟨r, mem_planChildren.mpr ⟨i, j, hblock, hrun⟩, hstart, hstop⟩

/-! ### The parts of a run -/

theorem alternating_trimLast {parts : List RunPart} (h : Alternating parts) :
    Alternating (trimLast parts) := by
  unfold trimLast
  split
  · rename_i last hlast
    obtain ⟨before, rfl⟩ := List.getLast?_eq_some_iff.mp hlast
    rw [List.dropLast_concat]
    rw [alternating_concat] at h ⊢
    exact h
  · exact h

/-- Between two expressions a text may be left out. -/
theorem alternating_filter_isEmptyText {parts : List RunPart} (h : Alternating parts) :
    Alternating (parts.filter (!isEmptyText ·)) := by
  induction parts with
  | nil => exact .nil
  | cons part rest ih =>
    obtain ⟨hfirst, hrest⟩ := List.isChain_cons.mp h
    rw [List.filter_cons]
    split
    · refine List.isChain_cons.mpr ⟨fun next hnext => ?_, ih hrest⟩
      -- After a text comes an expression, which is not left out.
      cases part with
      | expr => rfl
      | text =>
        cases rest with
        | nil => cases hnext
        | cons second rest =>
          cases second with
          | text => cases hfirst _ rfl
          | expr =>
            cases hnext
            rfl
    · exact ih hrest

theorem exprIndices_filter_isEmptyText (parts : List RunPart) :
    exprIndices (parts.filter (!isEmptyText ·)) = exprIndices parts := by
  rw [exprIndices, exprIndices, List.filterMap_filter]
  refine congrArg (parts.filterMap ·) (funext fun part => ?_)
  cases part with
  | text => exact ite_self none
  | expr => rfl

/-- The expressions of a run are those among its members, in their order. -/
theorem exprIndices_runParts_eq {members : List Node} (index : Nat) (parts : List RunPart)
    (hmembers : ∀ child ∈ members, isRunMember child = true)
    (hget : ∀ k < members.length, members[k]? = children[index + k]?) :
    exprIndices (runParts index parts members) = exprIndices parts ++
      (List.range' index members.length).filter fun k => children[k]?.any isExpression := by
  induction members generalizing index parts with
  | nil => simp [runParts]
  | cons child rest ih =>
    have hchild : children[index]? = some child := (hget 0 (by simp)).symm
    have hrest : ∀ k < rest.length, rest[k]? = children[index + 1 + k]? := by
      intro k hk
      rw [Nat.add_assoc, Nat.add_comm 1 k, ← hget (k + 1) (by simpa using hk)]
      rfl
    have hmember := hmembers child (List.mem_cons_self ..)
    rw [isRunMember_eq] at hmember
    rw [List.length_cons, List.range'_succ, List.filter_cons, hchild, runParts]
    have hlater := fun parts =>
      ih (index + 1) parts (fun c hc => hmembers c (List.mem_cons_of_mem _ hc)) hrest
    rcases pieceOf_cases child with ⟨text, static, hliteral, hpiece, -⟩ | ⟨hliteral, hpiece⟩
    · have hnot : isExpression child = false := by simp [isExpression, hliteral]
      simp [hpiece, hlater, hnot, exprIndices_pushRunText]
    · have hexpression : isExpression child = true := by simpa [hliteral] using hmember
      have hconcat : exprIndices (parts ++ [.expr index]) = exprIndices parts ++ [index] := by
        simp [exprIndices]
      simp [hpiece, hlater, hexpression, hconcat]

/-- A run has each expression of its members once and in order. Texts are joined, and none of them
is empty. -/
theorem planChildren_parts {r : Run} (h : r ∈ planChildren source children) :
    exprIndices r.parts = ((List.range' r.start (r.stop - r.start)).filter fun k =>
      children[k]?.any isExpression) ∧ Alternating r.parts ∧ .text "" ∉ r.parts := by
  obtain ⟨i, j, hblock, hrun⟩ := mem_planChildren.mp h
  obtain ⟨hstart, hstop⟩ := planRun_range hrun
  have hparts : r.parts = (trimLast (trimFirst (runParts i [] (between children i j)))).filter
      (!isEmptyText ·) := by
    unfold planRun at hrun
    split at hrun
    · split at hrun
      · cases hrun
        rfl
      · cases hrun
    · cases hrun
  refine ⟨?_, ?_, ?_⟩
  · have hindices := exprIndices_runParts_eq i [] hblock.isRunMember fun k hk =>
      getElem?_between (by rwa [length_between hblock.stop_le] at hk)
    rw [hparts, exprIndices_filter_isEmptyText, exprIndices_trimLast, exprIndices_trimFirst,
      hindices, hstart, hstop, Nat.add_sub_cancel_left]
    rfl
  · rw [hparts]
    exact alternating_filter_isEmptyText
      (alternating_trimLast (alternating_trimFirst (alternating_runParts _ i .nil)))
  · rw [hparts]
    simp [isEmptyText]

/-! ### The plan of a module -/

/-- An element with runs is entered in the plan. -/
theorem mem_planNode_self {n m : Node} (hm : m ∈ n.subnodes)
    (hruns : planChildren source (rendered m) ≠ []) :
    (m.span, planChildren source (rendered m)) ∈ planNode source n := by
  induction n using Node.inductOn with
  | mk kind span children ih =>
    rw [planNode, List.mem_append]
    rcases List.mem_cons.mp hm with rfl | hm
    · have hfull : (planChildren source (rendered (.mk kind span children))).isEmpty = false := by
        simpa using hruns
      left
      simp [ownPlan, hfull]
    · obtain ⟨c, hc, hm⟩ := Node.mem_subnodesOfAll.mp hm
      exact .inr (mem_planNodes.mpr ⟨c, hc, ih c hc hm⟩)

/-- In a tree of elements with different spans, each one has the runs of its children. -/
theorem runsFor_build {m : Node}
    (hdistinct : ((source.tree.subnodes.filter isMarkup).map Node.span).Nodup)
    (hm : m ∈ source.tree.subnodes) (hmarkup : isMarkup m = true) :
    (Plan.build source false).runsFor m.span = planChildren source (rendered m) := by
  rw [Plan.build, if_neg (by simp), Plan.runsFor]
  cases hlookup : (planNode source source.tree).lookup m.span with
  | none =>
    by_contra hruns
    have hentry := mem_planNode_self hm (Ne.symm hruns)
    have hsome := Text.isSome_lookup_iff.mpr (List.mem_map_of_mem (f := (·.1)) hentry)
    simp [hlookup] at hsome
  | some runs =>
    obtain ⟨owner, howner, hsame, hspan, rfl⟩ := mem_planNode (Text.mem_of_lookup hlookup)
    have heq : owner = m := List.inj_on_of_nodup_map hdistinct
      (List.mem_filter.mpr ⟨howner, hsame⟩) (List.mem_filter.mpr ⟨hm, hmarkup⟩) hspan
    rw [heq]
    rfl

/-! ### Every child once -/

/-- Children that are handled together: those of a run, or a single one. -/
inductive Stretch where
  | run (r : Run)
  | single (index : Nat)

namespace Stretch

/-- The positions of the children. -/
def indices : Stretch → List Nat
  | run r => List.range' r.start (r.stop - r.start)
  | single index => [index]

def run? : Stretch → Option Run
  | run r => some r
  | single _ => none

/-- What is done with them: a run is one step, any other child is visited where it stands. -/
def steps (all : List Child) : Stretch → List Step
  | run r => Setting.run r all
  | single index => (all[index]?.map (·.views.inner ())).getD []

end Stretch

/-- The runs from the start of one of them on are that run and those from its end on. -/
theorem filter_starts {runs : List Run} (hordered : runs.Pairwise fun a b => a.stop < b.start)
    (hne : ∀ r ∈ runs, r.start < r.stop) {r : Run} (hr : r ∈ runs) :
    runs.filter (r.start ≤ ·.start) = r :: runs.filter (r.stop ≤ ·.start) := by
  induction runs with
  | nil => cases hr
  | cons first rest ih =>
    obtain ⟨hfirst, hrest⟩ := List.pairwise_cons.mp hordered
    rcases List.mem_cons.mp hr with rfl | hr
    · have hlt := hne r (List.mem_cons_self ..)
      have hlater : ∀ x ∈ rest, r.start ≤ x.start ∧ r.stop ≤ x.start := fun x hx =>
        ⟨by have := hfirst x hx; omega, (hfirst x hx).le⟩
      rw [List.filter_cons_of_pos (by simp), List.filter_cons_of_neg (by simpa using hlt),
        List.filter_eq_self.mpr fun x hx => by simpa using (hlater x hx).1,
        List.filter_eq_self.mpr fun x hx => by simpa using (hlater x hx).2]
    · have hlt := hne first (List.mem_cons_self ..)
      have hlt' := hne r (List.mem_cons_of_mem _ hr)
      have hgap := hfirst r hr
      rw [List.filter_cons_of_neg (by rw [decide_eq_true_eq]; omega),
        List.filter_cons_of_neg (by rw [decide_eq_true_eq]; omega)]
      exact ih hrest (fun x hx => hne x (List.mem_cons_of_mem _ hx)) hr

/-- From a position on, where the children before `resume` are done, every child is handled once
and every run is taken up. -/
theorem childrenFrom_stretches {runs : List Run} {all : List Child}
    (hordered : runs.Pairwise fun a b => a.stop < b.start)
    (hwithin : ∀ r ∈ runs, r.Within all.length) (rest : List Child) {index resume : Nat}
    (hrest : all.drop index = rest) (hresume : resume ≤ all.length) :
    ∃ stretches : List Stretch,
      stretches.flatMap Stretch.indices =
        List.range' (max index resume) (all.length - max index resume) ∧
      stretches.filterMap Stretch.run? = runs.filter (max index resume ≤ ·.start) ∧
      Setting.childrenFrom runs all index resume rest = stretches.flatMap (Stretch.steps all) := by
  induction rest generalizing index resume with
  | nil =>
    have hend : all.length ≤ index := List.drop_eq_nil_iff.mp hrest
    refine ⟨[], ?_, ?_, rfl⟩
    · rw [Nat.sub_eq_zero_of_le (Nat.le_trans hend (Nat.le_max_left ..))]
      rfl
    · refine (List.filter_eq_nil_iff.mpr fun r hr => ?_).symm
      obtain ⟨hne, hstop⟩ := hwithin r hr
      rw [decide_eq_true_eq]
      omega
  | cons child rest ih =>
    obtain ⟨hchild, hnext⟩ := Setting.next_of_drop hrest
    have hlt : index < all.length := (List.getElem?_eq_some_iff.mp hchild).1
    rw [Setting.childrenFrom]
    split
    · rename_i hskip
      obtain ⟨stretches, hstretches⟩ := ih hnext hresume
      rw [Nat.max_eq_right hskip] at hstretches
      rw [Nat.max_eq_right hskip.le]
      exact ⟨stretches, hstretches⟩
    · rename_i hfree
      rw [Nat.max_eq_left (Nat.not_lt.mp hfree)]
      split
      · rename_i r hfind
        have hr := List.mem_of_find?_eq_some hfind
        have hstart : r.start = index := by simpa using List.find?_some hfind
        obtain ⟨hne, hstop⟩ := hwithin r hr
        have hmax : max r.stop (index + 1) = r.stop := Nat.max_eq_left (by omega)
        rw [hmax]
        obtain ⟨stretches, hindices, hruns, hsteps⟩ := ih hnext hstop
        rw [Nat.max_eq_right (by omega)] at hindices hruns
        refine ⟨.run r :: stretches, ?_, ?_, ?_⟩
        · have hjoined := List.range'_append_1 (s := r.start) (m := r.stop - r.start)
            (n := all.length - r.stop)
          rw [Nat.add_sub_cancel' hne.le, Nat.add_comm (r.stop - r.start),
            Nat.sub_add_sub_cancel hstop hne.le] at hjoined
          rw [List.flatMap_cons, hindices, ← hstart]
          exact hjoined
        · have hfilter := filter_starts hordered (fun x hx => (hwithin x hx).1) hr
          rw [← hruns, hstart] at hfilter
          exact hfilter.symm
        · rw [List.flatMap_cons, hsteps]
          rfl
      · rename_i hnone
        obtain ⟨stretches, hindices, hruns, hsteps⟩ := ih hnext hresume
        rw [Nat.max_eq_left (by omega)] at hindices hruns
        refine ⟨.single index :: stretches, ?_, ?_, ?_⟩
        · rw [List.flatMap_cons, hindices, ← Nat.sub_add_cancel (Nat.sub_pos_of_lt hlt),
            List.range'_succ, Nat.sub_sub]
          rfl
        · refine hruns.trans (List.filter_congr fun r hr => ?_)
          have hother : r.start ≠ index := by simpa using List.find?_eq_none.mp hnone r hr
          exact decide_eq_decide.mpr (by omega)
        · rw [List.flatMap_cons, hsteps, Stretch.steps, hchild]
          rfl

/-- A run is one step. -/
theorem run_eq_braced {r : Run} {kids : List Child} (h : r.Within kids.length) :
    ∃ span, Setting.run r kids = [.braced .markupText span r.leading r.trailing
      (r.message (kids.map (·.1))) (Setting.runSlots r kids)] := by
  obtain ⟨hne, hstop⟩ := h
  have hfirst : (kids.map (·.1))[r.start]? = some _ :=
    List.getElem?_eq_getElem (by rw [List.length_map]; omega)
  have hlast : (kids.map (·.1))[r.stop - 1]? = some _ :=
    List.getElem?_eq_getElem (by rw [List.length_map]; omega)
  rw [Setting.run, Run.span_eq hne hfirst hlast]
  exact ⟨_, rfl⟩

/-- The runs of an element. They stand in order and apart, and they are the blocks of text and
expressions with target text and an expression. A run has every expression of its block once and in
order, between texts that are joined and not empty. The plan of a module has these runs for the
element, and with them every child is handled once, in its run or on its own. -/
theorem plan_maximal_runs (source : Source) (children : List Node) :
    let runs := planChildren source children
    runs.Pairwise (fun a b => a.stop < b.start) ∧
    (∀ start stop, (∃ r ∈ runs, r.start = start ∧ r.stop = stop) ↔
      Mergeable children start stop) ∧
    (∀ r ∈ runs, exprIndices r.parts = ((List.range' r.start (r.stop - r.start)).filter fun k =>
      children[k]?.any isExpression) ∧ Alternating r.parts ∧ .text "" ∉ r.parts) ∧
    (∀ n ∈ source.tree.subnodes, isMarkup n = true → rendered n = children →
      ((source.tree.subnodes.filter isMarkup).map Node.span).Nodup →
        (Plan.build source false).runsFor n.span = runs) ∧
    ∀ (s : Setting) (owner : Span) (kids : List Child), kids.map (·.1) = children →
      s.plan.runsFor owner = runs → ∃ stretches : List Stretch,
        stretches.flatMap Stretch.indices = List.range children.length ∧
        stretches.filterMap Stretch.run? = runs ∧
        Setting.markupChildren s owner kids = stretches.flatMap (Stretch.steps kids) ∧
        ∀ r ∈ runs, ∃ span, Setting.run r kids = [.braced .markupText span r.leading r.trailing
          (r.message children) (Setting.runSlots r kids)] := by
  intro runs
  have hordered : runs.Pairwise fun a b => a.stop < b.start :=
    (planFrom_ordered children (Nat.le_refl 0)).1
  refine ⟨hordered, fun _ _ => exists_planned_iff, fun r hr => planChildren_parts hr,
    fun n hn hmarkup hchildren hdistinct => ?_, fun s owner kids hkids hruns => ?_⟩
  · rw [runsFor_build hdistinct hn hmarkup, hchildren]
  · have hlength : kids.length = children.length := by rw [← hkids, List.length_map]
    have hwithin : ∀ r ∈ runs, r.Within kids.length := fun r hr =>
      hlength ▸ planChildren_within hr
    obtain ⟨stretches, hindices, htaken, hsteps⟩ :=
      childrenFrom_stretches hordered hwithin kids (rfl : kids.drop 0 = kids) (Nat.zero_le _)
    refine ⟨stretches, ?_, ?_, ?_, fun r hr => hkids ▸ run_eq_braced (hwithin r hr)⟩
    · rw [hindices, hlength, List.range_eq_range']
      rfl
    · rw [htaken]
      exact List.filter_eq_self.mpr fun r _ => by simp
    · rw [Setting.markupChildren, hruns, hsteps]

/-- An element ends a run, and the expression after it is left alone. -/
theorem plan_maximal_runs_element :
    let code := "<p>共\x7bcount\x7d\x7b\" 条\"\x7d<b/>\x7bmore\x7d</p>"
    ∃ source, Source.read true code = .ok source ∧
      ∃ n ∈ source.tree.subnodes, isMarkup n = true ∧ Mergeable (rendered n) 0 3 ∧
        ¬ Mergeable (rendered n) 4 5 ∧
        ∃ r ∈ (Plan.build source false).runsFor n.span, r.start = 0 ∧ r.stop = 3 ∧
          exprIndices r.parts = [1] := by
  intro code
  generalize hcode : code = text
  have hchecked : (Source.read true text).toOption.any (fun source => decide
      (((source.tree.subnodes.filter isMarkup).map Node.span).Nodup ∧
        ∃ n ∈ source.tree.subnodes, isMarkup n = true ∧
          (planChildren source (rendered n)).map (fun r => (r.start, r.stop, exprIndices r.parts)) =
            [(0, 3, [1])])) = true := by
    rw [← hcode]
    decide +kernel
  obtain ⟨source, hread, hdistinct, n, hn, hmarkup, hruns⟩ := Source.exists_read hchecked
  obtain ⟨-, hplanned, -, hbuild, -⟩ := plan_maximal_runs source (rendered n)
  obtain ⟨r, hr, hrange⟩ := List.map_eq_singleton_iff.mp hruns
  simp only [Prod.mk.injEq] at hrange
  refine ⟨source, hread, n, hn, hmarkup, ?_, ?_, r, ?_, hrange⟩
  · exact (hplanned 0 3).mp ⟨r, by simp [hr], hrange.1, hrange.2.1⟩
  · intro hmergeable
    obtain ⟨r', hr', hstart, -⟩ := (hplanned 4 5).mpr hmergeable
    rw [hr, List.mem_singleton] at hr'
    rw [hr', hrange.1] at hstart
    cases hstart
  · rw [hbuild n hn hmarkup rfl hdistinct, hr]
    exact List.mem_singleton_self r

end Markup

end Phrasebook
