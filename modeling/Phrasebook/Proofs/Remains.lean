import Phrasebook.Proofs.Idempotence
import Phrasebook.Proofs.Shifting

/-!
What the report of a file says about the texts that remain in it. The report comes from a scan of
the new module, and the scan leaves out whatever stands where texts are kept on purpose. An argument
of a lookup call stands there too, even if the call is new and the argument was never looked at. So
text past the depth limit in a slot of a message is left without a word about it.
-/
namespace Phrasebook

open Script

variable {o : Options} {isData : Bool} {f : Found} {n : Node} {kind : Kind} {span : Span}
  {cs : List Node}

/-! ### Where texts are kept -/

/-- Nodes with the bare literals among them marked. -/
def markLiterals (ns : List Node) : List (Node × Bool) :=
  ns.map fun n => (n, (literalTarget n).isSome)

/-- The parts of a node, marked if they keep their texts. -/
def Options.markParts (o : Options) (kind : Kind) (cs : List Node) : List (Node × Bool) :=
  match kind, cs with
  | .module, items | .namespaceDecl _, items =>
    items.map fun n => (n, itemBinds o.lookupFunction n)
  | .function, cs | .arrow, cs | .classConstructor, cs | .getter, cs | .setter, cs =>
    cs.map (·, functionBinds o.lookupFunction kind cs)
  | .call, callee :: args => (callee :: args).map (·, o.keepsArguments callee)
  | .construct, callee :: args => (callee :: args).map (·, o.keepsConstruction callee)
  | .binary .compare, operands => markLiterals operands
  | .member .computed, [object, key] => (object, false) :: markLiterals [key]
  | .computedKey, key => markLiterals key
  | .switchCase true, test :: body => markLiterals [test] ++ body.map (·, false)
  | .enumDecl _, cs | .text _, cs => cs.map (·, true)
  | .tagged, parts => parts.map fun n => (n, !n.kind.isExpr)
  | .element, opening :: kids => (opening, false) :: kids.map (·, isRawOpening opening)
  | _, cs => cs.map (·, false)

/-- The text of a node itself, unless it is markup in a file of data. -/
def ownTexts (isData : Bool) (kind : Kind) (pos : Nat) : List Found :=
  match kind with
  | .text _ => if isData then [] else foundLeaf kind pos
  | _ => foundLeaf kind pos

theorem markParts_fst (o : Options) (kind : Kind) (cs : List Node) :
    (o.markParts kind cs).map (·.1) = cs := by
  unfold Options.markParts
  split <;> simp [markLiterals, Function.comp_def]

theorem mem_markParts_false (h : (n, false) ∈ o.markParts kind cs) : n ∈ cs := by
  have hmem := List.mem_map_of_mem (f := Prod.fst) h
  rwa [markParts_fst] at hmem

theorem exists_mark (o : Options) (kind : Kind) (hn : n ∈ cs) :
    ∃ mark, (n, mark) ∈ o.markParts kind cs := by
  rw [← markParts_fst o kind cs] at hn
  obtain ⟨⟨m, mark⟩, hm, rfl⟩ := List.mem_map.mp hn
  exact ⟨mark, hm⟩

/-- A text under a node can be found without going into anything that keeps its texts. -/
inductive Script.Node.Exposes (o : Options) (isData : Bool) (f : Found) : Node → Prop where
  | own {kind : Kind} {span : Span} {cs : List Node} : f ∈ ownTexts isData kind span.lo →
      Exposes o isData f (.mk kind span cs)
  | part {kind : Kind} {span : Span} {cs : List Node} {c : Node} :
      (c, false) ∈ o.markParts kind cs → Exposes o isData f c →
      Exposes o isData f (.mk kind span cs)

theorem exists_unmarked {P : Node → Prop} {ns : List Node} (mark : Node → Bool) :
    (∃ c, (c, false) ∈ ns.map (fun n => (n, mark n)) ∧ P c) ↔ ∃ n ∈ ns, mark n = false ∧ P n := by
  simp only [List.mem_map, Prod.mk.injEq]
  constructor
  · rintro ⟨_, ⟨n, hn, rfl, hmark⟩, h⟩
    exact ⟨n, hn, hmark, h⟩
  · rintro ⟨n, hn, hmark, h⟩
    exact ⟨n, ⟨n, hn, rfl, hmark⟩, h⟩

theorem exists_unmarked_cons {P : Node → Prop} {mark : Bool} {rest : List (Node × Bool)} :
    (∃ c, (c, false) ∈ (n, mark) :: rest ∧ P c) ↔
      (mark = false ∧ P n) ∨ ∃ c, (c, false) ∈ rest ∧ P c := by
  simp only [List.mem_cons, Prod.mk.injEq, or_and_right, exists_or, and_assoc, exists_eq_left,
    @eq_comm _ false]

/-- What the scan finds at a node: its own text, and what it finds in the parts without a mark. -/
theorem mem_residual_iff : f ∈ residual o isData (.mk kind span cs) ↔
    f ∈ ownTexts isData kind span.lo ∨
      ∃ c, (c, false) ∈ o.markParts kind cs ∧ f ∈ residual o isData c := by
  conv_lhs => unfold residual
  split
  -- The cases stand in the order of the definition.
  case h_1 | h_2 =>
    simp only [ownTexts, foundLeaf, Options.markParts, exists_unmarked, mem_residualItems,
      List.not_mem_nil, false_or]
  case h_3 | h_4 | h_5 | h_6 | h_7 | h_8 | h_9 =>
    simp only [ownTexts, foundLeaf, Options.markParts, exists_unmarked, List.not_mem_nil, false_or]
    split <;> simp_all [mem_residualAll]
  case h_10 | h_12 =>
    simp only [ownTexts, foundLeaf, Options.markParts, markLiterals, exists_unmarked,
      mem_residualUnkept, List.not_mem_nil, false_or, Option.isSome_eq_false_iff,
      Option.isNone_iff_eq_none]
  case h_11 object key =>
    simp only [ownTexts, foundLeaf, Options.markParts, markLiterals, exists_unmarked_cons,
      exists_unmarked, mem_residualUnkept, List.mem_append, List.not_mem_nil, false_or, true_and,
      Option.isSome_eq_false_iff, Option.isNone_iff_eq_none]
  case h_13 test body =>
    simp only [ownTexts, foundLeaf, Options.markParts, markLiterals, List.map_cons, List.map_nil,
      List.singleton_append, exists_unmarked_cons, exists_unmarked, mem_residualAll,
      List.mem_append, List.not_mem_nil, false_or, true_and]
    cases (literalTarget test).isSome <;> simp
  case h_14 => simp [ownTexts, foundLeaf, Options.markParts]
  case h_15 =>
    simp only [ownTexts, foundLeaf, Options.markParts, exists_unmarked, mem_residualExprs,
      List.not_mem_nil, false_or, Bool.not_eq_false']
  case h_16 opening kids =>
    simp only [ownTexts, foundLeaf, Options.markParts, exists_unmarked_cons, exists_unmarked,
      List.mem_append, List.not_mem_nil, false_or, true_and]
    cases isRawOpening opening <;> simp [mem_residualAll]
  case h_17 => simp [ownTexts, foundLeaf, Options.markParts]
  case h_18 =>
    have hparts : o.markParts kind cs = cs.map (·, false) := by
      rw [Options.markParts] <;> assumption
    have hown : ownTexts isData kind span.lo = foundLeaf kind span.lo := by
      rw [ownTexts]; assumption
    simp only [hparts, hown, exists_unmarked, mem_residualAll, List.mem_append, true_and]

/-- The scan reports what is exposed and nothing else. -/
theorem mem_residual_iff_exposes : f ∈ residual o isData n ↔ n.Exposes o isData f := by
  induction n using Node.inductOn with
  | mk kind span cs ih =>
    rw [mem_residual_iff]
    constructor
    · rintro (hown | ⟨c, hc, hf⟩)
      · exact .own hown
      · exact .part hc ((ih c (mem_markParts_false hc)).mp hf)
    · rintro (hown | ⟨hc, hf⟩)
      · exact Or.inl hown
      · exact Or.inr ⟨_, hc, (ih _ (mem_markParts_false hc)).mpr hf⟩

/-! ### What is not exposed -/

/-- A computed key that is a text and nothing else. -/
def Script.Node.isBareKey (n : Node) : Bool :=
  n.kind == .computedKey && n.children.any fun c => (literalTarget c).isSome

/-- A call of the lookup function. -/
def Options.isLookup (o : Options) (n : Node) : Bool :=
  match n.kind, n.children with
  | .call, callee :: _ => (calleeName callee).any o.isLookupCall
  | _, _ => false

/-- A text under a node stands where the walk keeps texts on purpose, other than in a lookup: as
markup in a file of data, in a part with a mark, or as the key of a property. -/
inductive Script.Node.Keeps (o : Options) (isData : Bool) (f : Found) : Node → Prop where
  | data {value : String} {span : Span} {cs : List Node} : isData = true →
      f ∈ foundInText value span.lo → Keeps o isData f (.mk (.text value) span cs)
  | marked {kind : Kind} {span : Span} {cs : List Node} {c : Node} : kind ≠ .computedKey →
      o.isLookup (.mk kind span cs) = false → (c, true) ∈ o.markParts kind cs →
      f ∈ foundTexts c → Keeps o isData f (.mk kind span cs)
  | key {span : Span} {cs : List Node} {c : Node} : c ∈ cs → c.isBareKey = true →
      f ∈ foundTexts c → Keeps o isData f (.mk .property span cs)
  | inside {kind : Kind} {span : Span} {cs : List Node} {c : Node} : c ∈ cs →
      Keeps o isData f c → Keeps o isData f (.mk kind span cs)

/-- A text under a node stands in a lookup. The walk does not look into it, so this is where the
text was meant to stay if the lookup is an old one. -/
def Script.Node.HoldsInLookup (o : Options) (f : Found) (n : Node) : Prop :=
  ∃ m ∈ n.subnodes, o.isLookup m = true ∧ f ∈ foundTexts m

/-- A text under a node is the computed key of a method, a field, a pattern and the like. The walk
does not keep it there, but the scan takes it for a key that is kept. -/
def Script.Node.HidesKey (f : Found) (n : Node) : Prop :=
  ∃ m ∈ n.subnodes, m.kind ≠ .property ∧ ∃ c ∈ m.children, c.isBareKey = true ∧ f ∈ foundTexts c

theorem exists_subnode_of_mem {P : Node → Prop} {c : Node} (hc : c ∈ cs)
    (h : ∃ m ∈ c.subnodes, P m) : ∃ m ∈ (Node.mk kind span cs).subnodes, P m := by
  obtain ⟨m, hm, hP⟩ := h
  exact ⟨m, Node.subnodes_subset_of_mem hc hm, hP⟩

theorem own_or_keeps (o : Options) (isData : Bool) (hf : f ∈ foundLeaf kind span.lo) :
    f ∈ ownTexts isData kind span.lo ∨ (Node.mk kind span cs).Keeps o isData f := by
  unfold ownTexts
  split
  · split
    · exact Or.inr (.data (by assumption) hf)
    · exact Or.inl hf
  · exact Or.inl hf

theorem isBareKey_of_marked {c : Node} (h : (c, true) ∈ o.markParts .computedKey cs) :
    (Node.mk .computedKey span cs).isBareKey = true := by
  simp only [Options.markParts, markLiterals, List.mem_map, Prod.mk.injEq] at h
  obtain ⟨m, hm, -, hliteral⟩ := h
  have hany : cs.any (fun c => (literalTarget c).isSome) = true :=
    List.any_eq_true.mpr ⟨m, hm, hliteral⟩
  simp [Node.isBareKey, Node.kind, Node.children, hany]

/-- The ways in which a text can go without being exposed. -/
inductive Script.Node.Covers (o : Options) (isData : Bool) (f : Found) (n : Node) : Prop where
  | kept : n.Keeps o isData f → Covers o isData f n
  | lookup : n.HoldsInLookup o f → Covers o isData f n
  | key : n.HidesKey f → Covers o isData f n

theorem Script.Node.Covers.of_mem {c : Node} (h : c.Covers o isData f) (hc : c ∈ cs) :
    (Node.mk kind span cs).Covers o isData f := by
  cases h with
  | kept h => exact .kept (.inside hc h)
  | lookup h => exact .lookup (exists_subnode_of_mem hc h)
  | key h => exact .key (exists_subnode_of_mem hc h)

/-- Every text is exposed or covered. A bare key is covered by the node around it. -/
theorem exposes_or_covers (o : Options) (isData : Bool) (n : Node) : ∀ f ∈ foundTexts n,
    n.Exposes o isData f ∨ n.Covers o isData f ∨ n.isBareKey = true := by
  induction n using Node.inductOn with
  | mk kind span cs ih =>
    intro f hf
    have hall := hf
    simp only [foundTexts, List.mem_append, mem_foundInAll] at hf
    rcases hf with hleaf | ⟨c, hc, hf⟩
    · rcases own_or_keeps o isData hleaf with hown | hkeeps
      · exact Or.inl (.own hown)
      · exact Or.inr (Or.inl (.kept hkeeps))
    · obtain ⟨mark, hmark⟩ := exists_mark o kind hc
      cases mark with
      | true =>
        by_cases hkind : kind = .computedKey
        · subst hkind
          exact Or.inr (Or.inr (isBareKey_of_marked hmark))
        · refine Or.inr (Or.inl ?_)
          cases hlookup : o.isLookup (.mk kind span cs) with
          | true => exact .lookup ⟨_, Node.mem_subnodes_self _, hlookup, hall⟩
          | false => exact .kept (.marked hkind hlookup hmark hf)
      | false =>
        rcases ih c hc f hf with hexposes | hcovers | hbare
        · exact Or.inl (.part hmark hexposes)
        · exact Or.inr (Or.inl (hcovers.of_mem hc))
        · refine Or.inr (Or.inl ?_)
          by_cases hkind : kind = .property
          · subst hkind
            exact .kept (.key hc hbare hf)
          · exact .key ⟨_, Node.mem_subnodes_self _, hkind, c, hc, hbare, hf⟩

/-! ### Subtrees that stay -/

namespace Script

theorem Source.kind_of_read {markup : Bool} {code : String} {source : Source}
    (h : Source.read markup code = .ok source) : source.tree.kind = .module := by
  simp only [Source.read, parseModule, bind, Except.bind] at h
  split at h
  · cases h
  · rename_i hmodule
    split at hmodule
    · cases hmodule
    · cases hmodule
      cases h
      rfl

end Script

/-- A text without the place where it stands. -/
def Found.wording (f : Found) : String × TextForm := (f.text, f.form)

theorem foundLeaf_wording (kind : Kind) (pos pos' : Nat) :
    (foundLeaf kind pos).map Found.wording = (foundLeaf kind pos').map Found.wording := by
  unfold foundLeaf
  split <;> simp only [foundIf, foundInText] <;> (try split) <;> simp [Found.wording]

mutual

/-- Alike trees hold the same texts. -/
theorem foundTexts_alike : ∀ {n m : Node}, n.alike m = true →
    (foundTexts n).map Found.wording = (foundTexts m).map Found.wording
  | .mk kind span cs, .mk kind' span' cs', h => by
    simp only [Node.alike, Bool.and_eq_true, beq_iff_eq] at h
    obtain ⟨rfl, hall⟩ := h
    simp only [foundTexts, List.map_append, foundLeaf_wording kind span.lo span'.lo,
      foundInAll_alike hall]

theorem foundInAll_alike : ∀ {ns ms : List Node}, alikeAll ns ms = true →
    (foundInAll ns).map Found.wording = (foundInAll ms).map Found.wording
  | [], [], _ => rfl
  | n :: ns, m :: ms, h => by
    simp only [alikeAll, Bool.and_eq_true] at h
    simp only [foundInAll, List.map_append, foundTexts_alike h.1, foundInAll_alike h.2]

end

theorem exists_mem_foundTexts_alike {m : Node} (h : n.alike m = true) (hf : f ∈ foundTexts n) :
    ∃ g ∈ foundTexts m, g.wording = f.wording := by
  have hmem : f.wording ∈ (foundTexts m).map Found.wording := by
    rw [← foundTexts_alike h]
    exact List.mem_map_of_mem hf
  exact List.mem_map.mp hmem

theorem foundTexts_subset_of_mem_subnodes {tree : Node} :
    n ∈ tree.subnodes → foundTexts n ⊆ foundTexts tree := by
  induction tree using Node.inductOn with
  | mk kind span cs ih =>
    intro hn
    rw [Node.subnodes, List.mem_cons, Node.mem_subnodesOfAll] at hn
    rcases hn with rfl | ⟨c, hc, hn⟩
    · exact List.Subset.refl _
    · intro f hf
      rw [foundTexts, List.mem_append]
      exact Or.inr (mem_foundInAll.mpr ⟨c, hc, ih c hc hn hf⟩)

/-! ### The report -/

/-- A text of a module as it is reported. -/
def Script.Source.sampleOf (source : Source) (path : String) (f : Found) : Sample :=
  let (line, column) := source.position f.pos
  ⟨f.text, f.form, .unextracted, ⟨path, line, column⟩⟩

theorem mem_residualScan {source : Source} {path : String} {x : Sample} :
    x ∈ residualScan source path isData o ↔
      ∃ f, source.tree.Exposes o isData f ∧ source.sampleOf path f = x := by
  have hscan : residualScan source path isData o =
      (residual o isData source.tree).map (source.sampleOf path) := rfl
  rw [hscan, List.mem_map]
  exact exists_congr fun f => and_congr_left' mem_residual_iff_exposes

/-- Every text of a module is reported or covered. -/
theorem reported_or_covered {markup : Bool} {code : String} {source : Source}
    (hread : Source.read markup code = .ok source) (path : String)
    (hf : f ∈ foundTexts source.tree) :
    source.sampleOf path f ∈ residualScan source path isData o ∨ source.tree.Covers o isData f := by
  have hroot : source.tree.isBareKey = false := by
    simp [Node.isBareKey, Source.kind_of_read hread]
  rcases exposes_or_covers o isData source.tree f hf with hexposes | hcovers | hbare
  · exact Or.inl (mem_residualScan.mpr ⟨f, hexposes, rfl⟩)
  · exact Or.inr hcovers
  · rw [hroot] at hbare
    cases hbare

/-- The text of a file after its extraction is the one that was read again. -/
theorem newText_getD {code out : String} {file : FileInfo} {source reread : Source}
    (hread : Source.read file.hasMarkup code = .ok source)
    (hreread : Source.read file.hasMarkup out = .ok reread) (options : Options) (r : Resolution)
    (w : WalkOutput Applier) :
    ((Setting.of source file options).outcome w r reread).newText.getD code = out := by
  have hout : String.ofList reread.code = out := by
    rw [Source.code_of_read hreread, String.ofList_toList]
  have hcode : (Setting.of source file options).source.code = code.toList :=
    Source.code_of_read hread
  simp only [Setting.outcome]
  split
  · rename_i hsame
    rw [beq_iff_eq.mp hsame, hcode, String.ofList_toList] at hout
    exact hout
  · exact hout

/-- A file reports the texts that its new module exposes and no others. So wherever a subtree stands
in the new module, be it one past the depth limit or not, its texts are reported, unless they are
covered *there*: kept on purpose, as the argument of a lookup, which may be new, or as a key that the
scan skips. In a file without a new text every subtree stands where it was, and a lookup around it is
an old one. -/
theorem remaining_texts_reported {γ : Type} {code : String} {file : FileInfo} {options : Options}
    {generate : KeyGenerator γ} {t : Table} {state : γ} {outcome : FileOutcome}
    (h : (extract code file options generate t state).result = .ok outcome) :
    ∃ source reread, Source.read file.hasMarkup code = .ok source ∧
      Source.read file.hasMarkup (outcome.newText.getD code) = .ok reread ∧
      (∀ x, x ∈ outcome.stats.missing ↔
        ∃ f, reread.tree.Exposes options file.isData f ∧ reread.sampleOf file.path f = x) ∧
      (∀ n, ∀ m ∈ reread.tree.subnodes, n.alike m = true → ∀ f ∈ foundTexts n,
        ∃ g ∈ foundTexts m, g.wording = f.wording ∧
          (reread.sampleOf file.path g ∈ outcome.stats.missing ∨
            reread.tree.Covers options file.isData g)) ∧
      (outcome.newText = none → ∀ n ∈ source.tree.subnodes, ∀ f ∈ foundTexts n,
        source.sampleOf file.path f ∈ outcome.stats.missing ∨
          source.tree.Covers options file.isData f) := by
  obtain ⟨source, r, stored, state', reread, hread, hres, -, hreread, rfl⟩ := extract_steps h
  have htext := newText_getD hread hreread options r
    ((Setting.of source file options).apply r.keys)
  refine ⟨source, reread, hread, ?_, fun _ => mem_residualScan, ?_, ?_⟩
  · rwa [htext]
  · intro n m hm halike f hf
    obtain ⟨g, hg, hwording⟩ := exists_mem_foundTexts_alike halike hf
    have hin : g ∈ foundTexts reread.tree := foundTexts_subset_of_mem_subnodes hm hg
    exact ⟨g, hg, hwording, reported_or_covered hreread file.path hin⟩
  · intro hnone n hn f hf
    rw [hnone, Option.getD_none] at htext
    rw [← htext, hread] at hreread
    obtain rfl : source = reread := Except.ok.inj hreread
    exact reported_or_covered hread file.path (foundTexts_subset_of_mem_subnodes hn hf)

/-- Of two texts past the depth limit, next to one that is looked up, the one that may stand there
is reported and the operand of a comparison is kept. -/
theorem remaining_texts_reported_beside_lookup :
    let code := "f(\"短\", [[\"深\", x == \"浅\"]])"
    let file : FileInfo := ⟨"src/a.ts", .component⟩
    let options : Options := { maxDepth := 1 }
    let out := "import t from \"@/i18n\";\n" ++ "f(t(\"k\"), [[\"深\", x == \"浅\"]])"
    ∃ outcome, (extract code file options (sameKey "k") (.ofEntries []) ()).result = .ok outcome ∧
      outcome.newText = some out ∧
      outcome.stats.missing = [⟨"深", .stringLiteral, .unextracted, ⟨"src/a.ts", 2, 13⟩⟩] ∧
      ∃ reread, Source.read file.hasMarkup out = .ok reread ∧
        ∃ g, g.wording = ("浅", .stringLiteral) ∧ reread.tree.Keeps options file.isData g := by
  intro code file options out
  subst code out
  generalize hcode : "f(\"短\", [[\"深\", x == \"浅\"]])" = code
  generalize hout : "import t from \"@/i18n\";\n" ++ _ = out
  have hrun : (extract code file options (sameKey "k") (.ofEntries []) ()).result.toOption.map
      (fun o => (o.newText, o.stats.missing)) =
      some (some out, [⟨"深", .stringLiteral, .unextracted, ⟨"src/a.ts", 2, 13⟩⟩]) := by
    rw [← hcode, ← hout]
    decide +kernel
  -- The array past the limit stands in both modules. In the new one no key is bare and the lookup
  -- holds no text.
  have hchecked : (Source.read file.hasMarkup code).toOption.any (fun source =>
      (Source.read file.hasMarkup out).toOption.any fun reread =>
        decide ((∀ m ∈ reread.tree.subnodes, (∀ c ∈ m.children, c.isBareKey = false) ∧
            (options.isLookup m = true → foundTexts m = [])) ∧
          ∃ n ∈ source.tree.subnodes, (∃ m ∈ reread.tree.subnodes, n.alike m = true) ∧
            ∃ f ∈ foundTexts n, f.wording = ("浅", .stringLiteral))) = true := by
    rw [← hcode, ← hout]
    decide +kernel
  obtain ⟨outcome, hok, hpair⟩ := Option.map_eq_some_iff.mp hrun
  obtain ⟨hnew, hmissing⟩ := Prod.mk.inj hpair
  have h := eq_ok_of_toOption hok
  obtain ⟨source, reread, hread, hreread, -, htexts, -⟩ := remaining_texts_reported h
  rw [hnew, Option.getD_some] at hreread
  simp only [hread, hreread, Except.toOption, Option.any_some, decide_eq_true_eq] at hchecked
  obtain ⟨hplain, n, -, ⟨m, hm, halike⟩, f, hf, hwording⟩ := hchecked
  obtain ⟨g, -, hsame, hg⟩ := htexts n m hm halike f hf
  rw [hwording] at hsame
  refine ⟨outcome, h, hnew, hmissing, reread, hreread, g, hsame, ?_⟩
  rcases hg with hreported | hkeeps | ⟨m, hm, hlookup, hin⟩ | ⟨m, hm, -, c, hc, hbare, -⟩
  · rw [hmissing, List.mem_singleton] at hreported
    have htext : g.text = "深" := congrArg Sample.text hreported
    have hother : g.text = "浅" := congrArg Prod.fst hsame
    exact absurd (htext.symm.trans hother) (by decide)
  · exact hkeeps
  · rw [(hplain m hm).2 hlookup] at hin
    cases hin
  · rw [(hplain m hm).1 c hc] at hbare
    cases hbare

/-- A text past the depth limit in the slot of a message becomes an argument of the lookup, and no
one hears of it. -/
example :
    let run := extract "f(\x60文$\x7b[\"字\"]\x7d\x60)" ⟨"src/a.ts", .component⟩ { maxDepth := 1 }
      (sameKey "k") (.ofEntries []) ()
    run.result.toOption.map (fun o => (o.newText, o.stats.missing)) =
      some (some "import t from \"@/i18n\";\nf(t(\"k\", \x7b var0: [\"字\"] \x7d))", []) := by
  decide +kernel

/-- The scan leaves out the key of a method, which the walk would replace. -/
example :
    let run (maxDepth : Nat) := extract "f([class \x7b [\"文\"]() \x7b\x7d \x7d])"
      ⟨"src/a.ts", .component⟩ { maxDepth } (sameKey "k") (.ofEntries []) ()
    (run 1).result.toOption.map (fun o => (o.stats.extracted, o.stats.missing)) = some (0, []) ∧
      (run 2).result.toOption.map (fun o => (o.stats.extracted, o.stats.missing)) =
        some (1, []) := by
  decide +kernel

end Phrasebook
