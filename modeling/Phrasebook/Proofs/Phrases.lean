import Phrasebook.Proofs.Accounting
import Phrasebook.Proofs.Lookups
import Phrasebook.Proofs.Wordings

/-!
Messages taken apart again. A message is stored as one text, in which a slot is written as its name
in braces. Nothing marks braces that were in the static text, so the text and the names tell the
pieces of a message only if it has no static text that looks like one of its slots.
-/
namespace Phrasebook

open Script Outline

/-- A piece of a message: static text, or a slot by its name. -/
inductive Fragment where
  | text (text : String)
  | slot (name : String)
deriving DecidableEq, Repr

namespace Fragment

/-- A slot as it is written in a message. -/
def tag (name : String) : List Char := '\x7b' :: (name.toList ++ ['\x7d'])

def spelled : Fragment → List Char
  | .text static => static.toList
  | .slot name => tag name

def spelledAll (fs : List Fragment) : List Char := fs.flatMap spelled

/-- Puts a character before everything else, into the text there if there is one. -/
def pushChar (c : Char) : List Fragment → List Fragment
  | .text static :: rest => .text (String.ofList (c :: static.toList)) :: rest
  | rest => .text (String.ofList [c]) :: rest

/-- The same message with adjacent texts joined, and without empty ones. -/
def joined : List Fragment → List Fragment
  | [] => []
  | .text static :: rest => static.toList.foldr pushChar (joined rest)
  | .slot name :: rest => .slot name :: joined rest

/-- Where the slots of a message stand in its text. -/
def slotOffsets : List Fragment → List (Nat × String)
  | [] => []
  | .text static :: rest => (slotOffsets rest).map fun (i, name) => (static.toList.length + i, name)
  | .slot name :: rest =>
    (0, name) :: (slotOffsets rest).map fun (i, other) => ((tag name).length + i, other)

/-- Wherever the text shows a slot of one of these names, there is one. -/
def Clear (names : List String) (fs : List Fragment) : Prop :=
  ∀ name ∈ names, ∀ i < (spelledAll fs).length,
    tag name <+: (spelledAll fs).drop i → (i, name) ∈ slotOffsets fs

instance (names : List String) (fs : List Fragment) : Decidable (Clear names fs) :=
  inferInstanceAs (Decidable (∀ name ∈ names, ∀ i < (spelledAll fs).length,
    tag name <+: (spelledAll fs).drop i → (i, name) ∈ slotOffsets fs))

/-- Takes a text apart: whatever looks like a slot of one of the names is read as one. The first
`skip` characters belong to a slot that has been read. -/
def readFrom (names : List String) : Nat → List Char → List Fragment
  | _, [] => []
  | skip + 1, _ :: cs => readFrom names skip cs
  | 0, c :: cs =>
    match names.find? fun name => tag name <+: c :: cs with
    | some name => .slot name :: readFrom names (name.toList.length + 1) cs
    | none => pushChar c (readFrom names 0 cs)

def read (message : String) (names : List String) : List Fragment := readFrom names 0 message.toList

/-! ### Reading what was spelled -/

variable {names : List String} {fs rest : List Fragment} {name : String}

theorem Clear.of_subset {more : List String} (h : Clear more fs) (hsub : names ⊆ more) :
    Clear names fs :=
  fun name hname => h name (hsub hname)

/-- A slot found after the first fragment is a slot of the others. -/
theorem Clear.tail {f : Fragment} (h : Clear names (f :: rest)) : Clear names rest := by
  intro name hname i hi hstarts
  have hspelled : spelledAll (f :: rest) = f.spelled ++ spelledAll rest := rfl
  have hat := h name hname (f.spelled.length + i)
  rw [hspelled, List.length_append, List.drop_length_add_append] at hat
  have hmem := hat (by omega) hstarts
  cases f with
  | text static =>
    obtain ⟨⟨j, other⟩, hj, heq⟩ := List.mem_map.mp hmem
    simp only [spelled, Prod.mk.injEq, Nat.add_left_cancel_iff] at heq
    rwa [← heq.1, ← heq.2]
  | slot own =>
    rcases List.mem_cons.mp hmem with heq | hmem
    · simp only [spelled, tag, Prod.mk.injEq, List.length_cons] at heq
      omega
    · obtain ⟨⟨j, other⟩, hj, heq⟩ := List.mem_map.mp hmem
      simp only [spelled, Prod.mk.injEq, Nat.add_left_cancel_iff] at heq
      rwa [← heq.1, ← heq.2]

/-- No slot starts inside static text. -/
theorem Clear.text_outside {static : String} (h : Clear names (.text static :: rest))
    (hname : name ∈ names) {i : Nat} (hi : i < static.toList.length) :
    ¬tag name <+: (static.toList ++ spelledAll rest).drop i := by
  intro hstarts
  have hspelled : spelledAll (.text static :: rest) = static.toList ++ spelledAll rest := rfl
  have hmem := h name hname i (by rw [hspelled, List.length_append]; omega) (by rwa [hspelled])
  obtain ⟨⟨j, other⟩, -, heq⟩ := List.mem_map.mp hmem
  simp only [Prod.mk.injEq] at heq
  omega

/-- At the start of a slot no other one can be read. -/
theorem Clear.slot_own {own : String} (h : Clear names (.slot own :: rest)) (hname : name ∈ names)
    (hstarts : tag name <+: tag own ++ spelledAll rest) : name = own := by
  have hspelled : spelledAll (.slot own :: rest) = tag own ++ spelledAll rest := rfl
  have hlength : 0 < (spelledAll (.slot own :: rest)).length := by simp [hspelled, tag]
  have hmem := h name hname 0 hlength (by rwa [List.drop_zero])
  rcases List.mem_cons.mp hmem with heq | hmem
  · exact (Prod.mk.inj heq).2
  · obtain ⟨⟨j, other⟩, -, heq⟩ := List.mem_map.mp hmem
    simp only [tag, Prod.mk.injEq, List.length_cons] at heq
    omega

theorem Clear.find?_own {own : String} (h : Clear names (.slot own :: rest)) (hown : own ∈ names) :
    names.find? (fun name => tag name <+: tag own ++ spelledAll rest) = some own := by
  cases hfind : names.find? fun name => tag name <+: tag own ++ spelledAll rest with
  | none =>
    have hstarts : tag own <+: tag own ++ spelledAll rest := List.prefix_append _ _
    exact absurd (decide_eq_true hstarts) (List.find?_eq_none.mp hfind own hown)
  | some name =>
    have hstarts : tag name <+: tag own ++ spelledAll rest := by
      simpa only [decide_eq_true_eq] using List.find?_some hfind
    rw [h.slot_own (List.mem_of_find?_eq_some hfind) hstarts]

theorem readFrom_skip (xs ys : List Char) :
    readFrom names xs.length (xs ++ ys) = readFrom names 0 ys := by
  induction xs with
  | nil => rfl
  | cons x xs ih => exact ih

/-- Static text in which no slot starts is read as it is. -/
theorem readFrom_text {cs tail : List Char}
    (h : ∀ name ∈ names, ∀ i < cs.length, ¬tag name <+: (cs ++ tail).drop i) :
    readFrom names 0 (cs ++ tail) = cs.foldr pushChar (readFrom names 0 tail) := by
  induction cs with
  | nil => rfl
  | cons c cs ih =>
    have hnone : names.find? (fun name => tag name <+: c :: (cs ++ tail)) = none := by
      rw [List.find?_eq_none]
      intro name hname hstarts
      exact h name hname 0 (Nat.zero_lt_succ _) (of_decide_eq_true hstarts)
    rw [List.cons_append, readFrom, hnone, List.foldr_cons, ih]
    intro name hname i hi
    exact h name hname (i + 1) (Nat.succ_lt_succ hi)

/-- A message that is clear about its slots is read back from its text. -/
theorem readFrom_spelledAll (h : Clear names fs) (hslots : ∀ name, .slot name ∈ fs → name ∈ names) :
    readFrom names 0 (spelledAll fs) = joined fs := by
  induction fs with
  | nil => rfl
  | cons f rest ih =>
    have hrest := ih h.tail fun name hname => hslots name (List.mem_cons_of_mem _ hname)
    cases f with
    | text static =>
      change readFrom names 0 (static.toList ++ spelledAll rest) = _
      rw [readFrom_text fun name hname i hi => h.text_outside hname hi, hrest, joined]
    | slot own =>
      have hown : own ∈ names := hslots own (List.mem_cons_self ..)
      have hspelled : spelledAll (.slot own :: rest) =
          '\x7b' :: ((own.toList ++ ['\x7d']) ++ spelledAll rest) := rfl
      have hfound : names.find? (fun name =>
          tag name <+: '\x7b' :: ((own.toList ++ ['\x7d']) ++ spelledAll rest)) = some own :=
        h.find?_own hown
      have hlength : own.toList.length + 1 = (own.toList ++ ['\x7d']).length := by simp
      rw [hspelled, readFrom, hfound]
      simp only [joined]
      rw [hlength, readFrom_skip, hrest]

end Fragment

/-! ### Fragments of a wording -/

namespace SlotNames

theorem bind_mem (n : SlotNames) (base source value : String) (shorthand : Bool) :
    (n.bind base source value shorthand).1 ∈ (n.bind base source value shorthand).2.names := by
  unfold bind
  split
  · rename_i b hfind
    exact List.mem_map_of_mem (List.mem_map_of_mem (List.mem_of_find?_eq_some hfind))
  · simp [names, bindings]

theorem names_subset_bind (n : SlotNames) (base source value : String) (shorthand : Bool) :
    n.names ⊆ (n.bind base source value shorthand).2.names := by
  unfold bind
  split
  · exact List.Subset.refl _
  · simp [names, bindings]

end SlotNames

namespace Bound

/-- The name that a slot gets. -/
def nameOf (b : Bound) (source : Source) (e : Node) : String :=
  let written := source.snippet e.span
  (b.names.bind (slotName b.index e) written written (isIdent e)).1

/-- The pieces of a message in order, its slots by the names they get. -/
def fragments (source : Source) (b : Bound) : List Part → List Fragment
  | [] => []
  | .text text :: parts => .text text :: fragments source (b.pushText text) parts
  | .slot e :: parts =>
    .slot (b.nameOf source e) :: fragments source (b.pushSlot source e none) parts

theorem names_subset_fill (source : Source) (parts : List Part) (b : Bound) :
    b.names.names ⊆ (fill source b parts []).names.names := by
  induction parts generalizing b with
  | nil => exact List.Subset.refl _
  | cons p parts ih =>
    cases p with
    | text text => exact ih (b.pushText text)
    | slot e =>
      exact List.Subset.trans (SlotNames.names_subset_bind ..) (ih (b.pushSlot source e none))

theorem fill_text (source : Source) (parts : List Part) (b : Bound) :
    (fill source b parts []).text.toList =
      b.text.toList ++ Fragment.spelledAll (fragments source b parts) := by
  induction parts generalizing b with
  | nil => simp [fill, fragments, Fragment.spelledAll]
  | cons p parts ih =>
    cases p with
    | text text =>
      have hrest := ih (b.pushText text)
      have hpushed : (b.pushText text).text.toList = b.text.toList ++ text.toList := by
        simp [pushText]
      rw [hpushed, List.append_assoc] at hrest
      exact hrest
    | slot e =>
      have hrest := ih (b.pushSlot source e none)
      have hpushed : (b.pushSlot source e none).text.toList =
          b.text.toList ++ Fragment.tag (b.nameOf source e) := by
        simp [pushSlot, nameOf, Fragment.tag]
      rw [hpushed, List.append_assoc] at hrest
      exact hrest

theorem slot_mem_fill (source : Source) (parts : List Part) (b : Bound) {name : String}
    (h : .slot name ∈ fragments source b parts) : name ∈ (fill source b parts []).names.names := by
  induction parts generalizing b with
  | nil => cases h
  | cons p parts ih =>
    cases p with
    | text text =>
      rcases List.mem_cons.mp h with h | h
      · cases h
      · exact ih (b.pushText text) h
    | slot e =>
      rcases List.mem_cons.mp h with h | h
      · cases h
        refine names_subset_fill source parts (b.pushSlot source e none) ?_
        exact SlotNames.bind_mem ..
      · exact ih (b.pushSlot source e none) h

end Bound

/-! ### Phrases -/

/-- A message in its pieces, with the site that says it and the key that it got. -/
structure Phrase where
  key : String
  site : Site
  fragments : List Fragment
deriving DecidableEq, Repr

/-- No static text of the message looks like one of its slots. -/
abbrev Phrase.Clear (p : Phrase) : Prop := Fragment.Clear p.site.vars p.fragments

/-- The text of the site is that of the pieces, and the names of the slots are those of the site. -/
structure Phrase.Worded (p : Phrase) : Prop where
  text : p.site.text.toList = Fragment.spelledAll p.fragments
  slots : ∀ name, .slot name ∈ p.fragments → name ∈ p.site.vars

theorem Entry.perm_vars {entry : Entry} {site : Site} (h : entry.signature = site.signature) :
    entry.interpolations.Perm site.vars := by
  have hsorted : Text.sortTexts entry.interpolations = Text.sortTexts site.vars :=
    congrArg Signature.vars h
  have hperm : (Text.sortTexts entry.interpolations).Perm site.vars := by
    rw [hsorted]
    exact Text.sortBy_perm _ _
  exact (Text.sortBy_perm _ _).symm.trans hperm

namespace Phrase.Worded

variable {p : Phrase} {entry : Entry}

theorem entry_text (h : p.Worded) (hsig : entry.signature = p.site.signature) :
    entry.text.toList = Fragment.spelledAll p.fragments := by
  have htext : entry.text = p.site.text := congrArg Signature.text hsig
  rw [htext, h.text]

/-- The pieces of a clear message can be read off its entry. The names stand there in any order. -/
theorem read_entry (h : p.Worded) (hsig : entry.signature = p.site.signature) (hclear : p.Clear) :
    Fragment.joined p.fragments = Fragment.read entry.text entry.interpolations := by
  have hnames := Entry.perm_vars hsig
  rw [Fragment.read, h.entry_text hsig]
  refine (Fragment.readFrom_spelledAll (hclear.of_subset hnames.subset) ?_).symm
  intro name hname
  exact hnames.mem_iff.mpr (h.slots name hname)

end Phrase.Worded

namespace Setting

variable (s : Setting)

/-- The wordings that say what a site says. -/
def wordingsOf (site : Site) : List Wording :=
  (stepsWordings s.outline).filter fun m => s.said m == site.said

def phrasesOf (call : LookupCall) : List Phrase :=
  (s.wordingsOf call.site).map fun m =>
    ⟨call.key, call.site, Bound.fragments s.source {} m.parts⟩

theorem phrasesOf_worded {call : LookupCall} {p : Phrase} (h : p ∈ s.phrasesOf call) :
    p.key = call.key ∧ p.site = call.site ∧ p.Worded := by
  obtain ⟨m, hm, rfl⟩ := List.mem_map.mp h
  refine ⟨rfl, rfl, ?_⟩
  obtain ⟨-, hsaid⟩ := List.mem_filter.mp hm
  have hsaid : s.said m = call.site.said := beq_iff_eq.mp hsaid
  simp only [said, Site.said, Prod.mk.injEq] at hsaid
  obtain ⟨-, htext, hvars⟩ := hsaid
  constructor
  · rw [← htext, Bound.fill_text]
    simp
  · intro name hname
    rw [← hvars]
    exact Bound.slot_mem_fill s.source m.parts {} hname

/-- Every site of the module has a wording. -/
theorem wordingsOf_ne_nil {site : Site} (h : site ∈ s.outlineSites) : s.wordingsOf site ≠ [] := by
  have hsaid := s.outlineSites_said.subset (List.mem_map_of_mem h)
  obtain ⟨m, hm, heq⟩ := List.mem_map.mp hsaid
  exact List.ne_nil_of_mem (List.mem_filter.mpr ⟨hm, beq_iff_eq.mpr heq⟩)

end Setting

theorem Handler.mem_of_answers {σ : Type} (handle : Handler σ) {sites : List Site} {h : σ}
    {p : Site × String} (hp : p ∈ (handle.answers sites h).1) : p.1 ∈ sites := by
  induction sites generalizing h with
  | nil => cases hp
  | cons site rest ih =>
    rcases List.mem_append.mp hp with hp | hp
    · obtain ⟨key, -, rfl⟩ := Option.map_eq_some_iff.mp (Option.mem_toList.mp hp)
      exact List.mem_cons_self ..
    · exact List.mem_cons_of_mem _ (ih hp)

theorem Setting.site_of_call (s : Setting) {σ : Type} {handle : Handler σ} {start : σ}
    {call : LookupCall} (h : call ∈ s.calls handle start) : call.site ∈ s.outlineSites := by
  have hanswer := List.mem_map_of_mem (f := fun c : LookupCall => (c.site, c.key)) h
  rw [(s.calls_renders handle start).answered] at hanswer
  exact handle.mem_of_answers hanswer

/-! ### Files one after another -/

/-- A file to be extracted. -/
structure Job where
  code : String
  file : FileInfo
  options : Options

variable {γ : Type} {start t : Table} {state : γ} {generate : KeyGenerator γ}

/-- The calls that are put in place in a file, each with the messages it may stand for. A file that
fails has none. -/
def Job.spoken (j : Job) (generate : KeyGenerator γ) (t : Table) (state : γ) :
    List (LookupCall × List Phrase) :=
  match (extract j.code j.file j.options generate t state).result,
      Source.read j.file.hasMarkup j.code with
  | .ok _, .ok source =>
    (extractCalls j.code j.file j.options generate t state).map fun call =>
      (call, (Setting.of source j.file j.options).phrasesOf call)
  | _, _ => []

/-- Extracts files one after another: all that is put in place, and the table in the end. -/
def runJobs (generate : KeyGenerator γ) :
    List Job → Table → γ → List (LookupCall × List Phrase) × Table
  | [], t, _ => ([], t)
  | j :: js, t, state =>
    let x := extract j.code j.file j.options generate t state
    let (spoken, last) := runJobs generate js x.table x.state
    (j.spoken generate t state ++ spoken, last)

/-- What a call stands for: at least one message, and the table holds it under the call's key. -/
structure Table.Answers (t : Table) (x : LookupCall × List Phrase) : Prop where
  some : x.2 ≠ []
  worded : ∀ p ∈ x.2, p.key = x.1.key ∧ p.site = x.1.site ∧ p.Worded
  held : t.Holds x.1.site x.1.key

theorem Job.spoken_answered (j : Job) (hindexed : t.Indexed) (hsound : t.Sound) :
    ∀ x ∈ j.spoken generate t state,
      (extract j.code j.file j.options generate t state).table.Answers x := by
  intro x hx
  unfold spoken at hx
  split at hx
  · rename_i outcome source hresult hsource
    obtain ⟨call, hcall, rfl⟩ := List.mem_map.mp hx
    obtain ⟨_, r, stored, _, _, hread, hres, htable, -⟩ := extract_ok hresult
    obtain rfl : source = _ := Except.ok.inj (hsource.symm.trans hread)
    simp only [extractCalls, hread, hres] at hcall
    have hheld := Setting.call_held _ (resolve_valid hindexed hres) hsound hcall
    refine ⟨?_, fun p hp => Setting.phrasesOf_worded _ hp, by rwa [htable]⟩
    simpa [Setting.phrasesOf] using Setting.wordingsOf_ne_nil _ (Setting.site_of_call _ hcall)
  · cases hx

theorem extract_kept {j : Job} (h : Table.Tended start t) {key : String} {entry : Entry}
    (hget : t.get? key = some entry) :
    (extract j.code j.file j.options generate t state).table.get? key = some entry := by
  cases hresult : (extract j.code j.file j.options generate t state).result with
  | error fault => rwa [extract_error h.indexed hresult]
  | ok outcome => exact (extract_gains h.complete hresult).1.kept hget

theorem runJobs_kept (jobs : List Job) (h : Table.Tended start t) {key : String} {entry : Entry}
    (hget : t.get? key = some entry) : (runJobs generate jobs t state).2.get? key = some entry := by
  induction jobs generalizing t state with
  | nil => exact hget
  | cons j js ih => exact ih h.extracted.1 (extract_kept h hget)

/-- The table in the end still answers every call of the run. -/
theorem runJobs_answered (jobs : List Job) (h : Table.Tended start t) :
    ∀ x ∈ (runJobs generate jobs t state).1, (runJobs generate jobs t state).2.Answers x := by
  induction jobs generalizing t state with
  | nil =>
    intro x hx
    cases hx
  | cons j js ih =>
    intro x hx
    have hafter : Table.Tended start (extract j.code j.file j.options generate t state).table :=
      h.extracted.1
    rcases List.mem_append.mp hx with hx | hx
    · obtain ⟨hsome, hworded, entry, hget, hsig⟩ := j.spoken_answered h.indexed h.linked.sound x hx
      exact ⟨hsome, hworded, entry, runJobs_kept js hafter hget, hsig⟩
    · exact ih hafter x hx

/-- Messages with the same key have the same text and the same names, and the entry under the key
has these too. Where a message has no static text that looks like one of its slots, its pieces can
be read off the entry, so two such messages with the same key are the same piece by piece. -/
theorem same_key_same_pieces (entries : List (String × Entry)) (hkeys : (entries.map (·.1)).Nodup)
    {γ : Type} (generate : KeyGenerator γ) (jobs : List Job) (state : γ) :
    let run := runJobs generate jobs (.ofEntries entries) state
    let phrases := run.1.flatMap (·.2)
    (∀ x ∈ run.1, x.2 ≠ []) ∧
      (∀ p ∈ phrases, ∃ entry, run.2.get? p.key = some entry ∧
        entry.text.toList = Fragment.spelledAll p.fragments ∧
        entry.interpolations.Perm p.site.vars ∧
        (p.Clear → Fragment.joined p.fragments = Fragment.read entry.text entry.interpolations)) ∧
      ∀ p ∈ phrases, ∀ q ∈ phrases, p.key = q.key →
        Fragment.spelledAll p.fragments = Fragment.spelledAll q.fragments ∧
        p.site.vars.Perm q.site.vars ∧
        (p.Clear → q.Clear → Fragment.joined p.fragments = Fragment.joined q.fragments) := by
  intro run phrases
  have hanswered : ∀ x ∈ run.1, run.2.Answers x :=
    runJobs_answered jobs (Table.tended_ofEntries hkeys)
  have hentry : ∀ p ∈ phrases, ∃ entry, run.2.get? p.key = some entry ∧
      entry.text.toList = Fragment.spelledAll p.fragments ∧
      entry.interpolations.Perm p.site.vars ∧
      (p.Clear → Fragment.joined p.fragments = Fragment.read entry.text entry.interpolations) := by
    intro p hp
    obtain ⟨x, hx, hp⟩ := List.mem_flatMap.mp hp
    obtain ⟨-, hworded, entry, hget, hsig⟩ := hanswered x hx
    obtain ⟨hkey, hsite, hp⟩ := hworded p hp
    rw [← hkey] at hget
    rw [← hsite] at hsig
    exact ⟨entry, hget, hp.entry_text hsig, Entry.perm_vars hsig, hp.read_entry hsig⟩
  refine ⟨fun x hx => (hanswered x hx).some, hentry, ?_⟩
  intro p hp q hq hkey
  obtain ⟨entry, hget, htext, hnames, hread⟩ := hentry p hp
  obtain ⟨other, hget', htext', hnames', hread'⟩ := hentry q hq
  rw [hkey, hget'] at hget
  obtain rfl : other = entry := Option.some.inj hget
  refine ⟨htext.symm.trans htext', hnames.symm.trans hnames', ?_⟩
  intro hp hq
  rw [hread hp, hread' hq]

/-- Braces in static text do no harm if what they hold is no slot of the message. Two files share a
key, and it is not the one that was taken. -/
theorem same_key_same_pieces_braces :
    let entries : List (String × Entry) := [("k", ⟨"完成", "src/c.ts", []⟩)]
    let jobs : List Job :=
      [⟨"f(\x60\x7bx\x7d共$\x7bn\x7d\x60)", ⟨"src/a.ts", .component⟩, {}⟩,
        ⟨"g(\x60\x7bx\x7d共$\x7bn\x7d\x60)", ⟨"src/b.ts", .component⟩, {}⟩]
    let run := runJobs (sameKey "k") jobs (.ofEntries entries) ()
    (entries.map (·.1)).Nodup ∧ ∃ p q, run.1.flatMap (·.2) = [p, q] ∧
      p.key = "k_2" ∧ q.key = "k_2" ∧ p.Clear ∧ q.Clear ∧
      Fragment.joined p.fragments = [.text "\x7bx\x7d共", .slot "n"] ∧
      Fragment.joined p.fragments = Fragment.joined q.fragments := by
  intro entries jobs run
  have hkeys : (entries.map (·.1)).Nodup := by decide
  have hchecked : (run.1.flatMap (·.2)).map (fun p =>
      (p.key, decide p.Clear, Fragment.joined p.fragments)) =
        [("k_2", true, [.text "\x7bx\x7d共", .slot "n"]),
          ("k_2", true, [.text "\x7bx\x7d共", .slot "n"])] := by
    decide +kernel
  obtain ⟨p, rest, hphrases, hp, hrest⟩ := List.map_eq_cons_iff.mp hchecked
  obtain ⟨q, rfl, hq⟩ := List.map_eq_singleton_iff.mp hrest
  simp only [Prod.mk.injEq, decide_eq_true_eq] at hp hq
  refine ⟨hkeys, p, q, hphrases, hp.1, hq.1, hp.2.1, hq.2.1, hp.2.2, ?_⟩
  obtain ⟨-, -, hsame⟩ := same_key_same_pieces entries hkeys (sameKey "k") jobs ()
  have hpmem : p ∈ run.1.flatMap (·.2) := by simp [hphrases]
  have hqmem : q ∈ run.1.flatMap (·.2) := by simp [hphrases]
  exact (hsame p hpmem q hqmem (hp.1.trans hq.1.symm)).2.2 hp.2.1 hq.2.1

/-- A slot may be spelled out in static text beside the real one. Then two messages that differ in
which of the two it is get the same key. -/
theorem spelled_slots_share_key :
    let job : Job := ⟨"f(\x60共$\x7bn\x7d条\x7bn\x7d\x60, \x60共\x7bn\x7d条$\x7bn\x7d\x60)",
      ⟨"src/a.ts", .component⟩, {}⟩
    let phrases := (runJobs (sameKey "k") [job] (.ofEntries []) ()).1.flatMap (·.2)
    ¬∀ p ∈ phrases, ∀ q ∈ phrases, p.key = q.key →
      Fragment.joined p.fragments = Fragment.joined q.fragments := by
  intro job phrases hsame
  have hphrases : phrases.map (fun p => (p.key, Fragment.joined p.fragments)) =
      [("k", [.text "共", .slot "n", .text "条\x7bn\x7d"]),
        ("k", [.text "共\x7bn\x7d条", .slot "n"])] := by
    decide +kernel
  obtain ⟨p, rest, hrest, hp, htail⟩ := List.map_eq_cons_iff.mp hphrases
  obtain ⟨q, rfl, hq⟩ := List.map_eq_singleton_iff.mp htail
  simp only [Prod.mk.injEq] at hp hq
  have hjoined := hsame p (by simp [hrest]) q (by simp [hrest]) (hp.1.trans hq.1.symm)
  rw [hp.2, hq.2] at hjoined
  exact absurd hjoined (by decide)

end Phrasebook
