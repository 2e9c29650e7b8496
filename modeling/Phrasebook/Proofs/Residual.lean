import Phrasebook.Residual

/-!
What the residual scan of a tree consists of: target texts that are under its nodes, none from the
places that keep theirs on purpose.
-/
namespace Phrasebook

open Script

namespace Script.Node

mutual

/-- What follows for a node from its children holds of every node. -/
theorem inductOn {motive : Node → Prop} (mk : ∀ kind span children,
    (∀ c ∈ children, motive c) → motive (.mk kind span children)) : ∀ n, motive n
  | .mk kind span children => mk kind span children (forall_mem_inductOn mk children)

theorem forall_mem_inductOn {motive : Node → Prop} (mk : ∀ kind span children,
    (∀ c ∈ children, motive c) → motive (.mk kind span children)) :
    ∀ ns : List Node, ∀ n ∈ ns, motive n
  | [], _, h => nomatch h
  | m :: ns, n, h =>
    (List.mem_cons.mp h).elim (fun heq => heq ▸ inductOn mk m) (forall_mem_inductOn mk ns n)

end

end Script.Node

/-! ### Target text -/

namespace Text

theorem hasTarget_append (a b : String) : hasTarget (a ++ b) = (hasTarget a || hasTarget b) := by
  simp [hasTarget]

theorem not_isTarget_of_isWhite {c : Char} (h : isWhite c = true) : isTarget c = false := by
  simp only [isWhite, Bool.or_eq_true, Bool.and_eq_true, decide_eq_true_eq, beq_iff_eq] at h
  simp only [isTarget, Bool.or_eq_false_iff, Bool.and_eq_false_iff, decide_eq_false_iff_not]
  omega

theorem not_isTarget_of_isDigit {c : Char} (h : c.isDigit = true) : isTarget c = false := by
  simp only [Char.isDigit, Bool.and_eq_true, decide_eq_true_eq] at h
  have hle : c.toNat ≤ 57 := h.2
  simp only [isTarget, Bool.or_eq_false_iff, Bool.and_eq_false_iff, decide_eq_false_iff_not]
  omega

theorem any_dropWhile_isWhite (cs : List Char) :
    (cs.dropWhile isWhite).any isTarget = cs.any isTarget := by
  induction cs with
  | nil => rfl
  | cons c cs ih =>
    by_cases hw : isWhite c = true
    · simp [hw, not_isTarget_of_isWhite hw, ih]
    · simp [hw]

/-- White space around a text is no part of its target text. -/
theorem hasTarget_trim (text : String) : hasTarget (trim text) = hasTarget text := by
  simp [hasTarget, trim, dropEndWhile, any_dropWhile_isWhite]

end Text

/-- Numbers are written without target text. -/
theorem hasTarget_positional (w : Decimal.Written) : Text.hasTarget w.positional = false := by
  have hdigits : ∀ c ∈ Nat.toDigits 10 w.digits, Text.isTarget c = false := fun c hc =>
    Text.not_isTarget_of_isDigit (Nat.isDigit_of_mem_toDigits (by decide) (by decide) hc)
  have hzeros : ∀ n, ∀ c ∈ List.replicate n '0', Text.isTarget c = false := by
    intro n c hc
    rw [List.eq_of_mem_replicate hc]
    decide
  have hpadded : ∀ n, ∀ c ∈ List.replicate n '0' ++ Nat.toDigits 10 w.digits,
      Text.isTarget c = false := by
    intro n c hc
    exact (List.mem_append.mp hc).elim (hzeros n c) (hdigits c)
  simp only [Text.hasTarget, Decimal.Written.positional, List.any_eq_false, Bool.not_eq_true]
  intro c hc
  split at hc
  · rw [String.toList_ofList, List.mem_append] at hc
    exact hc.elim (hdigits c) (hzeros _ c)
  · rw [String.toList_ofList, List.mem_append, List.mem_cons] at hc
    rcases hc with hc | rfl | hc
    · exact hpadded _ c (List.mem_of_mem_take hc)
    · decide
    · exact hpadded _ c (List.mem_of_mem_drop hc)

theorem hasTarget_number (w : Decimal.Written) : Text.hasTarget w.text = false := by
  unfold Decimal.Written.text
  split
  · decide
  · decide
  · rename_i m e _
    cases Decimal.shortest m e with
    | none => decide
    | some shortest => exact hasTarget_positional shortest

/-- A template has target text exactly if its message has. -/
theorem hasTarget_ofTemplate (pieces : List Piece) (es : List Node) :
    Message.hasTarget (Message.ofTemplate pieces es) = Text.hasTarget (staticText pieces) := by
  unfold Message.ofTemplate staticText
  induction pieces generalizing es with
  | nil => rfl
  | cons p ps ih =>
    rw [List.map_cons, String.join_cons, Text.hasTarget_append, ← ih es.tail]
    cases es <;> by_cases hp : p.text = "" <;>
      simp [Message.weave, Message.hasTarget, hp, Text.hasTarget]

/-! ### Lists of nodes -/

section

variable {o : Options} {isData : Bool} {f : Found} {ns : List Node}

theorem mem_foundInAll : f ∈ foundInAll ns ↔ ∃ n ∈ ns, f ∈ foundTexts n := by
  induction ns with
  | nil => simp [foundInAll]
  | cons n ns ih => simp [foundInAll, ih]

theorem mem_residualAll : f ∈ residualAll o isData ns ↔ ∃ n ∈ ns, f ∈ residual o isData n := by
  induction ns with
  | nil => simp [residualAll]
  | cons n ns ih => simp [residualAll, ih]

theorem mem_residualUnkept : f ∈ residualUnkept o isData ns ↔
    ∃ n ∈ ns, literalTarget n = none ∧ f ∈ residual o isData n := by
  induction ns with
  | nil => simp [residualUnkept]
  | cons n ns ih => cases h : literalTarget n <;> simp [residualUnkept, ih, h]

theorem mem_residualItems : f ∈ residualItems o isData ns ↔
    ∃ n ∈ ns, itemBinds o.lookupFunction n = false ∧ f ∈ residual o isData n := by
  induction ns with
  | nil => simp [residualItems]
  | cons n ns ih => cases h : itemBinds o.lookupFunction n <;> simp [residualItems, ih, h]

theorem mem_residualExprs : f ∈ residualExprs o isData ns ↔
    ∃ n ∈ ns, n.kind.isExpr = true ∧ f ∈ residual o isData n := by
  induction ns with
  | nil => simp [residualExprs]
  | cons n ns ih => cases h : n.kind.isExpr <;> simp [residualExprs, ih, h]

/-! ### One node -/

variable {kind : Kind} {span : Span}

/-- Whatever is found at a node is its own text or is found at one of its children. -/
theorem residual_cases (h : f ∈ residual o isData (.mk kind span ns)) :
    f ∈ foundLeaf kind span.lo ∨ ∃ n ∈ ns, f ∈ residual o isData n := by
  unfold residual at h
  split at h
  -- The cases stand in the order of the definition.
  case h_1 | h_2 =>
    obtain ⟨n, hn, -, hf⟩ := mem_residualItems.mp h
    exact Or.inr ⟨n, hn, hf⟩
  case h_3 | h_4 | h_5 | h_6 | h_7 =>
    split at h
    · cases h
    · exact Or.inr (mem_residualAll.mp h)
  case h_8 | h_9 =>
    split at h
    · cases h
    · exact Or.inr (by simpa [mem_residualAll] using h)
  case h_10 | h_12 =>
    obtain ⟨n, hn, -, hf⟩ := mem_residualUnkept.mp h
    exact Or.inr ⟨n, hn, hf⟩
  case h_11 =>
    rcases List.mem_append.mp h with hf | hf
    · exact Or.inr ⟨_, List.mem_cons_self .., hf⟩
    · obtain ⟨n, hn, -, hf⟩ := mem_residualUnkept.mp hf
      exact Or.inr ⟨n, List.mem_cons_of_mem _ hn, hf⟩
  case h_13 =>
    rcases List.mem_append.mp h with hf | hf
    · split at hf
      · cases hf
      · exact Or.inr ⟨_, List.mem_cons_self .., hf⟩
    · obtain ⟨n, hn, hf⟩ := mem_residualAll.mp hf
      exact Or.inr ⟨n, List.mem_cons_of_mem _ hn, hf⟩
  case h_14 => cases h
  case h_15 =>
    obtain ⟨n, hn, -, hf⟩ := mem_residualExprs.mp h
    exact Or.inr ⟨n, hn, hf⟩
  case h_16 =>
    rcases List.mem_append.mp h with hf | hf
    · exact Or.inr ⟨_, List.mem_cons_self .., hf⟩
    · split at hf
      · cases hf
      · obtain ⟨n, hn, hf⟩ := mem_residualAll.mp hf
        exact Or.inr ⟨n, List.mem_cons_of_mem _ hn, hf⟩
  case h_17 =>
    split at h
    · cases h
    · exact Or.inl h
  case h_18 => exact (List.mem_append.mp h).imp_right mem_residualAll.mp

/-- The scan finds nothing but the target texts of the tree. -/
theorem residual_subset (n : Node) : residual o isData n ⊆ foundTexts n := by
  induction n using Node.inductOn with
  | mk kind span children ih =>
    intro f hf
    simp only [foundTexts, List.mem_append]
    refine (residual_cases hf).imp_right ?_
    rintro ⟨c, hc, hf⟩
    exact mem_foundInAll.mpr ⟨c, hc, ih c hc hf⟩

/-! ### Chains of `+` -/

theorem hasTarget_pushText (parts : List Part) (text : String) :
    Message.hasTarget (Message.pushText parts text) =
      (Message.hasTarget parts || Text.hasTarget text) := by
  unfold Message.pushText
  split
  · rename_i last hlast
    obtain ⟨before, rfl⟩ := List.getLast?_eq_some_iff.mp hlast
    simp [Message.hasTarget, Text.hasTarget_append, Bool.or_assoc]
  · split
    · rename_i hempty
      rw [beq_iff_eq.mp hempty]
      simp [Text.hasTarget]
    · simp [Message.hasTarget]

theorem hasTarget_foldl_pushPart (more parts : List Part) :
    Message.hasTarget (more.foldl Message.pushPart parts) =
      (Message.hasTarget parts || Message.hasTarget more) := by
  induction more generalizing parts with
  | nil => simp [Message.hasTarget]
  | cons p more ih =>
    rw [List.foldl_cons, ih]
    cases p with
    | text text =>
      rw [Message.pushPart, hasTarget_pushText, Bool.or_assoc]
      rfl
    | slot e => simp [Message.pushPart, Message.hasTarget]

/-- An operand brings target text to a chain only if it is found there. -/
theorem pushOperand_found {parts parts' : List Part} {operand : Node}
    (hpush : Message.pushOperand parts operand = some parts')
    (htarget : Message.hasTarget parts' = true) :
    Message.hasTarget parts = true ∨ residual o isData operand ≠ [] := by
  unfold Message.pushOperand at hpush
  split at hpush
  · rename_i value span cs
    cases value with
    | none => cases hpush
    | some text =>
      cases hpush
      rw [hasTarget_pushText, Bool.or_eq_true] at htarget
      refine htarget.imp_right fun htext => ?_
      simp [residual, foundLeaf, foundIf, htext]
  · cases hpush
    rw [hasTarget_pushText, hasTarget_number, Bool.or_false] at htarget
    exact .inl htarget
  · rename_i pieces span es
    cases hpush
    rw [hasTarget_foldl_pushPart, Bool.or_eq_true] at htarget
    refine htarget.imp_right fun hwoven => ?_
    have hstatic : Text.hasTarget (staticText pieces) = true := by
      rw [← hasTarget_ofTemplate pieces es]
      exact hwoven
    simp [residual, foundLeaf, foundIf, hstatic]
  · cases hpush
    exact .inl (by simpa [Message.hasTarget] using htarget)

theorem foldlM_pushOperand_found (es : List Node) {parts parts' : List Part}
    (hfold : es.foldlM Message.pushOperand parts = some parts')
    (htarget : Message.hasTarget parts' = true) :
    Message.hasTarget parts = true ∨ ∃ e ∈ es, residual o isData e ≠ [] := by
  induction es generalizing parts with
  | nil =>
    cases hfold
    exact .inl htarget
  | cons e es ih =>
    rw [List.foldlM_cons] at hfold
    obtain ⟨next, hpush, hfold⟩ := Option.bind_eq_some_iff.mp hfold
    rcases ih hfold with hnext | ⟨e', he', hfound⟩
    · have hoperand : Message.hasTarget parts = true ∨ residual o isData e ≠ [] :=
        pushOperand_found hpush hnext
      exact hoperand.imp_right fun hfound => ⟨e, List.mem_cons_self .., hfound⟩
    · exact .inr ⟨e', List.mem_cons_of_mem _ he', hfound⟩

theorem residual_operand_subset {e : Node} (n : Node) (he : e ∈ Message.operands n) :
    residual o isData e ⊆ residual o isData n := by
  fun_induction Message.operands n with
  | case1 span left right ihl ihr =>
    intro f hf
    have hparts : residual o isData (.mk (.binary .add) span [left, right]) =
        residual o isData left ++ residual o isData right := by
      simp [residual, residualAll, foundLeaf]
    rw [hparts, List.mem_append]
    exact (List.mem_append.mp he).imp (fun he => ihl he hf) (fun he => ihr he hf)
  | case2 n _ =>
    rw [List.mem_singleton.mp he]
    exact List.Subset.refl _

/-- A chain with target text is not passed over. -/
theorem residual_ne_nil_of_chain {n : Node} {parts : List Part}
    (hchain : Message.ofConcat n = some parts) (htarget : Message.hasTarget parts = true) :
    residual o isData n ≠ [] := by
  obtain ⟨first, -, hrest⟩ := Option.bind_eq_some_iff.mp hchain
  obtain ⟨-, -, hfold⟩ := Option.bind_eq_some_iff.mp hrest
  have hoperands : Message.hasTarget [] = true ∨
      ∃ e ∈ Message.operands n, residual o isData e ≠ [] :=
    foldlM_pushOperand_found _ hfold htarget
  rcases hoperands with hnone | ⟨e, he, hfound⟩
  · cases hnone
  · exact fun hempty => hfound (List.subset_nil.mp (hempty ▸ residual_operand_subset n he))

end

end Phrasebook
