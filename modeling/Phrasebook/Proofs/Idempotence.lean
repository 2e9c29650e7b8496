import Phrasebook.Proofs.Atomicity
import Phrasebook.Proofs.Dedup
import Phrasebook.Proofs.Surfacing

/-!
Extraction from a file that has been extracted from. The second run has something to do exactly if
the new text, when it is read, has sites. It has none if the first run found nothing missing in it:
texts that are offered are also missed, but for a bare text in a computed key.
-/
namespace Phrasebook

open Script Outline

variable {σ γ : Type}

/-! ### Walks without sites -/

namespace Setting

variable (s : Setting)

theorem walk_still (handle : Handler σ) (start : σ) (h : s.outlineSites = []) :
    (s.walk handle start).edits = [] := by
  refine (s.walk_changes handle start).1.mpr ?_
  rw [s.walk_applied, h]
  rfl

/-- Whatever is offered is collected, if only once. -/
theorem id_mem_sites {site : Site} (h : site ∈ s.outlineSites) : site.id ∈ s.sites.map (·.id) := by
  rw [s.sites_eq]
  exact Collector.id_mem_after h

theorem outlineSites_eq_nil (h : s.sites = []) : s.outlineSites = [] := by
  rw [List.eq_nil_iff_forall_not_mem]
  intro site hsite
  have hid := s.id_mem_sites hsite
  rw [h] at hid
  cases hid

/-- With a key for each site that was collected, each is replaced once. -/
theorem apply_applied {keys : SiteKeys}
    (hkeys : ∀ site ∈ s.sites, (keys.get? site.id).isSome) :
    (s.apply keys).report.applied = s.sites.length := by
  have hkeyed : ∀ site ∈ s.outlineSites, (keys.get? site.id).isSome := by
    intro site hm
    obtain ⟨kept, hkept, heq⟩ := List.mem_map.mp (s.id_mem_sites hm)
    rw [← heq]
    exact hkeys kept hkept
  have htracks : Applier.Tracks { keys } {} := rfl
  have happlied := (Applier.answers_complete htracks s.outlineSites hkeyed).2
  rw [← s.sites_eq] at happlied
  rw [Setting.apply, s.walk_applied]
  simpa using happlied

end Setting

/-! ### Runs that change nothing -/

theorem Text.slice_all (text : List Char) : Text.slice text 0 (Text.byteLength text) = text := by
  have h := Text.slice_middle [] text []
  simpa [Text.byteLength] using h

theorem Script.Source.code_of_read {markup : Bool} {code : String} {source : Source}
    (h : Source.read markup code = .ok source) : source.code = code.toList := by
  unfold Source.read at h
  cases htree : parseModule markup (withoutMark code.toList) with
  | error fault => simp [htree, bind, Except.bind] at h
  | ok tree =>
    simp only [htree, bind, Except.bind, pure, Except.pure, Except.ok.injEq] at h
    rw [← h]

/-- The run succeeds without a new text, a lookup or a change of the table. -/
def Extracted.IsIdle (run : Extracted γ) (before : Table) : Prop :=
  ∃ outcome, run.result = .ok outcome ∧ outcome.newText = none ∧ outcome.stats.extracted = 0 ∧
    run.table = before

section

variable {code : String} {file : FileInfo} {options : Options} {generate : KeyGenerator γ}
  {t : Table} {state : γ} {source : Source}

theorem applied_of_no_sites (hsites : (Setting.of source file options).sites = []) :
    ((Setting.of source file options).apply []).report.applied = 0 := by
  rw [Setting.apply_applied _ (by simp [hsites]), hsites]
  rfl

/-- A module without sites comes out as it went in. -/
theorem output_of_no_sites (hread : Source.read file.hasMarkup code = .ok source)
    (hsites : (Setting.of source file options).sites = []) :
    (Setting.of source file options).output ((Setting.of source file options).apply []) = code := by
  have happlied := applied_of_no_sites hsites
  have hedits : ((Setting.of source file options).apply []).edits = [] :=
    Setting.walk_still _ _ _ (Setting.outlineSites_eq_nil _ hsites)
  have hcode : (Setting.of source file options).source.code = code.toList :=
    Source.code_of_read hread
  have hsort : Edit.sort [] = [] := rfl
  simp [Setting.output, happlied, hedits, hcode, splice, hsort, spliceFrom, Text.slice_all]

/-- Without sites a file is left as it is, whatever the generator: no key is asked for. -/
theorem extract_of_no_sites (hread : Source.read file.hasMarkup code = .ok source)
    (hsites : (Setting.of source file options).sites = []) :
    ∃ outcome log, outcome.newText = none ∧ outcome.stats.extracted = 0 ∧
      ∀ (γ : Type) (generate : KeyGenerator γ) (table : Table) (state : γ),
        extract code file options generate table state = ⟨.ok outcome, table, state, log⟩ := by
  let s := Setting.of source file options
  let w := s.apply []
  refine ⟨s.outcome w ⟨[], 0, [], []⟩ source,
    [.debug (file.path ++ ": " ++ toString s.sites.length ++ " candidate sites")] ++ [] ++
      w.handler.warnings.map .warning ++
      (w.report.warnings w.handler.integrity file.path).map .warning, ?_, ?_, ?_⟩
  · simp [Setting.outcome, s, Setting.of]
  · exact applied_of_no_sites hsites
  · intro γ generate table state
    have hresolve : resolve s.sites file generate table state =
        (.ok (⟨[], 0, [], []⟩, table), state) := by
      rw [hsites]
      rfl
    have houtput : s.output w = code := output_of_no_sites hread hsites
    simp only [extract, hread, hresolve, houtput, s, w, List.map_nil]

theorem isIdle_of_no_sites (hread : Source.read file.hasMarkup code = .ok source)
    (hsites : (Setting.of source file options).sites = []) :
    (extract code file options generate t state).IsIdle t := by
  obtain ⟨outcome, log, hnone, hextracted, hextract⟩ := extract_of_no_sites hread hsites
  rw [hextract γ generate t state]
  exact ⟨outcome, rfl, hnone, hextracted, rfl⟩

/-- Every site of a file that succeeds is replaced. -/
theorem extracted_eq {outcome : FileOutcome} (hread : Source.read file.hasMarkup code = .ok source)
    (h : (extract code file options generate t state).result = .ok outcome) :
    outcome.stats.extracted = (Setting.of source file options).sites.length := by
  obtain ⟨source', r, stored, state', reread, hread', hres, -, rfl⟩ := extract_ok h
  obtain rfl : source = source' := Except.ok.inj (hread.symm.trans hread')
  exact Setting.apply_applied _ (resolve_keyed hres)

theorem isIdle_iff (hread : Source.read file.hasMarkup code = .ok source) :
    (extract code file options generate t state).IsIdle t ↔
      (Setting.of source file options).sites = [] := by
  refine ⟨?_, isIdle_of_no_sites hread⟩
  rintro ⟨outcome, hok, -, hnone, -⟩
  rw [extracted_eq hread hok] at hnone
  exact List.eq_nil_of_length_eq_zero hnone

end

/-! ### Offered texts are missed -/

namespace Markup

/-- Static text of a run would be missed. -/
theorem residual_ne_nil_of_pieceOf {o : Options} {m : Node} {text : String}
    (h : pieceOf m = .static text) (htarget : Text.hasTarget text = true) :
    residual o false m ≠ [] := by
  unfold pieceOf at h
  split at h
  · rename_i value span children
    obtain rfl : clean value = text := Piece.static.inj h
    simp [residual, foundInText, htarget]
  · rename_i span value inner children
    obtain rfl : value = text := Piece.static.inj h
    rw [residual_of_isScanned rfl]
    simp [residualAll, residual_string_ne_nil htarget]
  · cases h

theorem residual_ne_nil_of_planned {source : Source} {o : Options} {children : List Node} {r : Run}
    (h : r ∈ planChildren source children) : ∃ c ∈ children, residual o false c ≠ [] := by
  obtain ⟨start, members, hsub, hrun⟩ := planFrom_members children h
  have hmerge := isMergeable_of_planRun hrun
  simp only [isMergeable, Bool.and_eq_true, List.any_map, List.any_eq_true] at hmerge
  obtain ⟨⟨⟨m, hm, hpiece⟩, -⟩, -⟩ := hmerge
  refine ⟨m, by simpa using hsub hm, ?_⟩
  cases hp : pieceOf m with
  | dynamic => simp [hp] at hpiece
  | static text => exact residual_ne_nil_of_pieceOf hp (by simpa [hp] using hpiece)

end Markup

/-- A tree in which no text can be offered that would not be missed. The one place for it is a
computed key that is a text and nothing else. -/
structure Script.Node.Exposed (tree : Node) : Prop where
  root : tree.kind = .module
  plain : ∀ n ∈ tree.subnodes, n.isPlain = true
  distinct : ((tree.subnodes.filter Markup.isMarkup).map Node.span).Nodup
  keys : ∀ n ∈ tree.subnodes, n.kind = .computedKey → ∀ c ∈ n.children, literalTarget c = none

instance (tree : Node) : Decidable tree.Exposed :=
  decidable_of_iff (tree.kind = .module ∧ (∀ n ∈ tree.subnodes, n.isPlain = true) ∧
      ((tree.subnodes.filter Markup.isMarkup).map Node.span).Nodup ∧
      ∀ n ∈ tree.subnodes, n.kind = .computedKey → ∀ c ∈ n.children, literalTarget c = none)
    ⟨fun h => ⟨h.1, h.2.1, h.2.2.1, h.2.2.2⟩, fun h => ⟨h.root, h.plain, h.distinct, h.keys⟩⟩

theorem missed_of_descends {source : Source} {file : FileInfo} {options : Options} {id : SiteId}
    (htree : source.tree.Exposed) {role : Role} {n : Node}
    (hn : n.subnodes ⊆ source.tree.subnodes)
    (h : (Setting.of source file options).Descends id role n) :
    (Setting.of source file options).missed n ≠ [] := by
  induction h with
  | text _ hmissed => exact hmissed
  | @run _ n r span hmarkup _ hruns _ _ hsub =>
    obtain ⟨hdata, hplanned⟩ := Markup.runsFor_planned htree.distinct
      (hn (Node.mem_subnodes_self n)) hmarkup hruns
    obtain ⟨c, hc, hmissed⟩ := Markup.residual_ne_nil_of_planned (o := options) hplanned
    intro hnone
    have hempty := hsub c hc
    rw [hnone, List.subset_nil, Setting.missed] at hempty
    rw [← hdata] at hmissed
    exact hmissed hempty
  | @key _ _ n c hkind hc _ _ ih =>
    have hmissed := ih (List.Subset.trans (Node.subnodes_subset_of_mem_children hc) hn)
    have hplain := htree.keys n (hn (Node.mem_subnodes_self n)) hkind c hc
    obtain ⟨f, hf⟩ := List.exists_mem_of_ne_nil _ hmissed
    cases n with
    | mk kind span children =>
      obtain rfl : kind = .computedKey := hkind
      refine List.ne_nil_of_mem (a := f) ?_
      rw [Setting.missed, residual]
      exact mem_residualUnkept.mpr ⟨c, hc, hplain, hf⟩
  | @down _ _ n c hc _ _ hsub _ ih =>
    have hc := options.entered_subset n hc
    have hmissed := ih (List.Subset.trans (Node.subnodes_subset_of_mem_children hc) hn)
    intro hnone
    rw [hnone, List.subset_nil] at hsub
    exact hmissed hsub

/-- Where the residual scan finds nothing, nothing is offered. -/
theorem no_sites_of_not_missed {source : Source} {file : FileInfo} {options : Options}
    (htree : source.tree.Exposed) (h : residual options file.isData source.tree = []) :
    (Setting.of source file options).sites = [] := by
  have hnone : (Setting.of source file options).outlineSites = [] := by
    rw [List.eq_nil_iff_forall_not_mem]
    intro site hsite
    have hdescends := Setting.descends_of_mem_outlineSites htree.plain htree.root hsite
    exact missed_of_descends htree (List.Subset.refl _) hdescends h
  rw [Setting.sites_eq, hnone]
  rfl

/-! ### A second run -/

/-- What the first run reports as missing is found in its new text. -/
theorem read_newText {code out : String} {file : FileInfo} {options : Options}
    {generate : KeyGenerator γ} {t : Table} {state : γ} {outcome : FileOutcome}
    (h : (extract code file options generate t state).result = .ok outcome)
    (hnew : outcome.newText = some out) :
    ∃ reread, Source.read file.hasMarkup out = .ok reread ∧
      outcome.stats.missing = residualScan reread file.path file.isData options := by
  obtain ⟨source, r, stored, state', reread, -, -, -, hreread, rfl⟩ := extract_steps h
  have hcode := Source.code_of_read hreread
  simp only [Setting.outcome] at hnew
  split at hnew
  · cases hnew
  · cases hnew
    rw [hcode, String.ofList_toList]
    exact ⟨reread, hreread, rfl⟩

/-- The new text of a file can be read, and a run on it with the table that the first run left, by
whichever generator, changes nothing exactly if it has no sites. So it is if the first run reported
nothing as missing and no computed key is a bare text. -/
theorem extract_again_idle {code out : String} {file : FileInfo} {options : Options}
    {generate : KeyGenerator γ} {t : Table} {state : γ} {outcome : FileOutcome}
    (h : (extract code file options generate t state).result = .ok outcome)
    (hnew : outcome.newText = some out) :
    ∃ reread, Source.read file.hasMarkup out = .ok reread ∧
      ∀ {δ : Type} (again : KeyGenerator δ) (start : δ),
        let stored := (extract code file options generate t state).table
        ((extract out file options again stored start).IsIdle stored ↔
          (Setting.of reread file options).sites = []) ∧
        (outcome.stats.missing = [] → reread.tree.Exposed →
          (extract out file options again stored start).IsIdle stored) := by
  obtain ⟨reread, hread, hmissing⟩ := read_newText h hnew
  refine ⟨reread, hread, ?_⟩
  intro δ again start stored
  have hidle : (extract out file options again stored start).IsIdle stored ↔
      (Setting.of reread file options).sites = [] := isIdle_iff hread
  refine ⟨hidle, ?_⟩
  intro hnone htree
  rw [hmissing, residualScan, List.map_eq_nil_iff] at hnone
  exact hidle.mpr (no_sites_of_not_missed htree hnone)

theorem eq_ok_of_toOption {ε α : Type} {x : Except ε α} {a : α} (h : x.toOption = some a) :
    x = .ok a := by
  cases x with
  | error e => cases h
  | ok b => exact congrArg _ (Option.some.inj h)

/-- A run of markup in a property: a getter, a container and an import are written around it. -/
theorem extract_again_idle_getter :
    let file : FileInfo := ⟨"src/a.tsx", .component⟩
    let first := extract "o=\x7ba:<p>共\x7bn\x7d条</p>\x7d" file {} (sameKey "k") (.ofEntries []) ()
    let out := "import t from \"@/i18n\";\n" ++
      "o=\x7bget a() \x7b return <p>\x7bt(\"k\", \x7b n \x7d)\x7d</p>; \x7d\x7d"
    ∃ outcome, first.result = .ok outcome ∧ outcome.newText = some out ∧
      outcome.stats.missing = [] ∧
      (extract out file {} (sameKey "other") first.table ()).IsIdle first.table := by
  intro file first out
  subst file first out
  generalize hrun : extract _ _ _ (sameKey "k") _ _ = first
  generalize hout : "import t from \"@/i18n\";\n" ++ _ = out
  have hfirst : first.result.toOption.map (fun o => (o.newText, o.stats.missing)) =
      some (some out, []) := by
    rw [← hrun, ← hout]
    decide +kernel
  have hexposed : (Source.read (FileInfo.mk "src/a.tsx" .component).hasMarkup out).toOption.any
      (fun source => source.tree.Exposed) = true := by
    rw [← hout]
    decide +kernel
  obtain ⟨outcome, hok, hpair⟩ := Option.map_eq_some_iff.mp hfirst
  obtain ⟨hnew, hnone⟩ := Prod.mk.inj hpair
  have h := eq_ok_of_toOption hok
  rw [← hrun] at h ⊢
  obtain ⟨reread, hread, hagain⟩ := extract_again_idle h hnew
  simp only [hread, Except.toOption, Option.any_some, decide_eq_true_eq] at hexposed
  exact ⟨outcome, h, hnew, hnone, (hagain (sameKey "other") ()).2 hnone hexposed⟩

/-- A lookup right after a keyword becomes one word with it, and its key is taken for a text. -/
example :
    let newText (code : String) := (extract code ⟨"src/a.ts", .component⟩ {} (sameKey "字")
      (.ofEntries []) ()).result.toOption.bind (·.newText)
    let out := "import t from \"@/i18n\";\n()=>\x7breturnt(\"字\")\x7d"
    newText "()=>\x7breturn\"字\"\x7d" = some out ∧
      newText out = some "import t from \"@/i18n\";\n()=>\x7breturnt(t(\"字\"))\x7d" := by
  decide +kernel

end Phrasebook
