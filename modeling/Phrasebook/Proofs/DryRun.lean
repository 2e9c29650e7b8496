import Phrasebook.Project
import Phrasebook.Proofs.FileContents
import Phrasebook.Proofs.Idempotence

/-!
A run that writes nothing tells what the run that writes would do. Both go through the files with one
table and one generator; the texts that the second has written by then are in files that it does not
read again. All this takes of a disk is that a write changes the file that it goes to and no other.
-/
namespace Phrasebook

open FileTree (SameFile)

variable {γ δ : Type}

/-! ### Disks -/

/-- What a run relies on in a disk, as long as its state is one of those that are `kept`. A path may
name a file by way of links; `same` is to hold for any two paths that can come to name one file. -/
structure Disk.Laws (disk : Disk δ) (kept : δ → Prop) (fileAt : δ → String → Option Content)
    (same : String → String → Prop) : Prop where
  symm : ∀ {a b}, same a b → same b a
  /-- Reading changes nothing. -/
  read : ∀ {s} path, kept s → (disk.readText path s).2 = s
  readText : ∀ {s path text}, kept s → (disk.readText path s).1 = .ok text →
    fileAt s path = some (.text text)
  /-- A write changes no other file. -/
  write : ∀ {s s' path text}, kept s → disk.write path text s = (.ok (), s') →
    kept s' ∧ ∀ {q content}, ¬same q path → fileAt s q = some content → fileAt s' q = some content
  /-- A file that is written over holds the new text, and all other paths read as before, also those
  that cannot be read. -/
  overwrite : ∀ {s s' path text old}, kept s → fileAt s path = some old →
    disk.write path text s = (.ok (), s') → fileAt s' path = some (.text text) ∧
      ∀ {q}, ¬same q path → (disk.readText q s').1 = (disk.readText q s).1
  makeDirs : ∀ {s s' path}, kept s → disk.makeDirs path s = (.ok (), s') →
    kept s' ∧ ∀ {q content}, fileAt s q = some content → fileAt s' q = some content

theorem Disk.Laws.readText_eq {disk : Disk δ} {kept : δ → Prop}
    {fileAt : δ → String → Option Content} {same : String → String → Prop}
    (h : disk.Laws kept fileAt same) {s : δ} (hs : kept s) {path : String}
    {result : Except FileFault String} (hread : (disk.readText path s).1 = result) :
    disk.readText path s = (result, s) :=
  Prod.ext hread (h.read path hs)

/-- The disk with links: each path stands for the one that it leads to. -/
def Disk.linked (disk : Disk δ) (target : String → String) : Disk δ where
  readText path := disk.readText (target path)
  write path := disk.write (target path)
  makeDirs path := disk.makeDirs (target path)

theorem Disk.Laws.linked {disk : Disk δ} {kept : δ → Prop} {fileAt : δ → String → Option Content}
    {same : String → String → Prop} (h : disk.Laws kept fileAt same) (target : String → String) :
    (disk.linked target).Laws kept (fun s path => fileAt s (target path))
      (fun a b => same (target a) (target b)) where
  symm := h.symm
  read path := h.read (target path)
  readText := h.readText
  write hs hdone := ⟨(h.write hs hdone).1, (h.write hs hdone).2⟩
  overwrite hs hold hdone := ⟨(h.overwrite hs hold hdone).1, (h.overwrite hs hold hdone).2⟩
  makeDirs hs hdone := ⟨(h.makeDirs hs hdone).1, (h.makeDirs hs hdone).2⟩

namespace FileTree

/-- What the file at a path holds. -/
def fileAt (t : FileTree) (path : String) : Option Content :=
  match t.get path with
  | .ok (.file content) => some content
  | _ => none

theorem fileAt_eq_some {t : FileTree} {path : String} {content : Content} :
    t.fileAt path = some content ↔ t.get path = .ok (.file content) := by
  unfold fileAt
  split
  · rename_i found hget
    rw [hget]
    exact ⟨fun h => by rw [Option.some.inj h], fun h => by cases h; rfl⟩
  · rename_i hnone
    exact ⟨fun h => (by cases h), fun h => absurd h (hnone content)⟩

theorem change_ok {t u : FileTree} {x : Except FileFault FileTree} (h : t.change x = (.ok (), u)) :
    x = .ok u := by
  cases x with
  | error cause => cases h
  | ok new => cases h; rfl

/-- A tree is such a disk while the working directory stays. -/
theorem disk_laws (cwd : List String) : disk.Laws (·.cwd = cwd) fileAt (SameFile cwd) where
  symm h := h.symm
  read _ _ := rfl
  readText _ h := fileAt_eq_some.mpr (get_of_readText h)
  write := by
    rintro t u path text rfl hdone
    have hwrite := change_ok hdone
    refine ⟨by rw [(write_ok hwrite).2, withNode], fun hq hfile => ?_⟩
    exact fileAt_eq_some.mpr (get_of_write hwrite hq (fileAt_eq_some.mp hfile))
  overwrite := by
    rintro t u path text old rfl hold hdone
    have hwrite := change_ok hdone
    refine ⟨fileAt_eq_some.mpr (get_of_writeContent hwrite), fun hq => ?_⟩
    exact readText_of_write_over hwrite (fileAt_eq_some.mp hold) hq
  makeDirs := by
    rintro t u path rfl hdone
    have hkeeps := keepsFiles_makeDirsFrom _ (change_ok hdone)
    exact ⟨hkeeps.cwd, fun hfile => fileAt_eq_some.mpr (hkeeps.get (fileAt_eq_some.mp hfile))⟩

end FileTree

/-! ### Projects -/

def Project.fileInfo (p : Project) (path : String) : FileInfo :=
  .classify (validPatterns p.settings.dataFiles) (displayPath p.root path)

/-- The paths of the table, of the messages and of the report. -/
def Project.outputPaths (p : Project) : List String :=
  [resolvePath p.root p.settings.translationsFile]
  ++ (p.settings.messagesFile.map (resolvePath p.root)).toList
  ++ [resolvePath p.root p.settings.reportFile]

theorem Project.outputs_paths (p : Project) (table : Table) (report : Report) :
    (p.outputs table report).map (·.1) = p.outputPaths := by
  unfold outputs outputPaths
  cases p.settings.messagesFile <;> rfl

namespace Run

variable (disk : Disk δ) (p : Project) (generate : KeyGenerator γ)

/-- The new text of the file that is processed next, if it gets one. -/
def newText (r : Run γ δ) (path : String) : Option String :=
  match (disk.readText path r.stored).1 with
  | .error _ => none
  | .ok code =>
    match (extract code (p.fileInfo path) p.settings.options generate r.table r.state).result with
    | .error _ => none
    | .ok o => o.newText

/-- Every new text of the files is written without a fault. -/
def writesAll (r : Run γ δ) : List String → Bool
  | [] => true
  | path :: rest =>
    (match r.newText disk p generate path with
      | some text => (disk.write path text r.stored).1.isOk
      | none => true) &&
    writesAll (r.file disk p generate true path) rest

end Run

/-! ### One file -/

namespace Run

section

variable {disk : Disk δ} {p : Project} {generate : KeyGenerator γ} {isApply : Bool}
  {r : Run γ δ} {stored : δ} {path : String}

/-- The run when it has begun with a file. -/
def begun (r : Run γ δ) (p : Project) (path : String) : Run γ δ :=
  r.note [.debug ("processing " ++ displayPath p.root path ++ " ("
    ++ (p.fileInfo path).kind.text ++ ")")]

/-- The run when the texts of a file have been extracted. -/
def extracted (r : Run γ δ) (p : Project) (generate : KeyGenerator γ) (path : String)
    (code : String) : Run γ δ :=
  let x := extract code (p.fileInfo path) p.settings.options generate r.table r.state
  { r.begun p path with table := x.table, state := x.state }.note x.log

theorem file_unread {cause : FileFault} (h : disk.readText path r.stored = (.error cause, stored)) :
    r.file disk p generate isApply path =
      { r.begun p path with stored }.fail (displayPath p.root path)
        ("Failed to read " ++ displayPath p.root path ++ ": " ++ cause.message) := by
  have hread : ∀ lines, disk.readText path (r.note lines).stored = (.error cause, stored) :=
    fun _ => h
  simp only [file, hread]
  rfl

theorem file_read {code : String} (h : disk.readText path r.stored = (.ok code, stored)) :
    r.file disk p generate isApply path =
      match (extract code (p.fileInfo path) p.settings.options generate r.table r.state).result with
      | .error fault =>
        { r.extracted p generate path code with stored }.fail (displayPath p.root path) fault.message
      | .ok o =>
        { r.extracted p generate path code with stored }.store disk path (displayPath p.root path) o
          isApply := by
  have hread : ∀ lines, disk.readText path (r.note lines).stored = (.ok code, stored) :=
    fun _ => h
  simp only [file, hread]
  rfl

end

variable {disk : Disk δ} {kept : δ → Prop} {fileAt : δ → String → Option Content}
  {same : String → String → Prop} {p : Project} {generate : KeyGenerator γ} {r : Run γ δ} {u : δ}
  {path : String}

theorem newText_of_read (hread : (disk.readText path u).1 = (disk.readText path r.stored).1) :
    { r with stored := u }.newText disk p generate path = r.newText disk p generate path := by
  simp only [newText, hread]

/-- Without writing, a file leaves the disk as it was. -/
theorem file_dry_stored (hdisk : disk.Laws kept fileAt same) (hkept : kept r.stored)
    (path : String) : (r.file disk p generate false path).stored = r.stored := by
  cases hcode : (disk.readText path r.stored).1 with
  | error cause =>
    rw [file_unread (hdisk.readText_eq hkept hcode)]
    rfl
  | ok code =>
    rw [file_read (hdisk.readText_eq hkept hcode)]
    split
    · rfl
    · rename_i o _
      unfold store
      cases o.newText <;> rfl

/-- A file that is read alike comes to the same in both runs, but that its new text is written in
one of them. -/
theorem file_apply (hdisk : disk.Laws kept fileAt same) (hkept : kept r.stored) (hu : kept u)
    (hread : (disk.readText path u).1 = (disk.readText path r.stored).1)
    (hwrite : ∀ text, r.newText disk p generate path = some text →
      (disk.write path text u).1.isOk = true) :
    { r with stored := u }.file disk p generate true path =
      { r.file disk p generate false path with
        stored := (r.newText disk p generate path).elim u fun text =>
          (disk.write path text u).2 } := by
  cases hcode : (disk.readText path r.stored).1 with
  | error cause =>
    have hdry := hdisk.readText_eq hkept hcode
    have happly := hdisk.readText_eq hu (hread.trans hcode)
    have hnone : r.newText disk p generate path = none := by simp only [newText, hcode]
    rw [hnone, file_unread hdry]
    exact file_unread happly
  | ok code =>
    have hdry := hdisk.readText_eq hkept hcode
    have happly := hdisk.readText_eq hu (hread.trans hcode)
    have hfile : { r with stored := u }.file disk p generate true path = _ := file_read happly
    simp only [newText, hcode] at hwrite ⊢
    rw [file_read hdry, hfile]
    simp only
    cases hresult : (extract code (p.fileInfo path) p.settings.options generate r.table
        r.state).result with
    | error fault => rfl
    | ok o =>
      rw [hresult] at hwrite
      cases htext : o.newText with
      | none => simp only [store, htext]; rfl
      | some text =>
        have hok := hwrite text htext
        cases hdone : disk.write path text u with
        | mk result v =>
          rw [hdone] at hok
          cases result with
          | error cause => cases hok
          | ok _ => simp only [store, htext, hdone, Option.elim_some]; rfl

/-- A file with a new text is there and holds a text. -/
theorem fileAt_of_newText (hdisk : disk.Laws kept fileAt same) (hkept : kept r.stored)
    {text : String} (h : r.newText disk p generate path = some text) :
    ∃ code, fileAt r.stored path = some (.text code) := by
  unfold newText at h
  split at h
  · cases h
  · rename_i code hread
    exact ⟨code, hdisk.readText hkept hread⟩

/-- A disk that has been written to agrees with the one that the run began with on the files still
to be read. -/
structure Agrees (disk : Disk δ) (fileAt : δ → String → Option Content) (s u : δ)
    (paths : List String) : Prop where
  read : ∀ path ∈ paths, (disk.readText path u).1 = (disk.readText path s).1
  file : ∀ path ∈ paths, ∀ content, fileAt s path = some content → fileAt u path = some content

namespace Agrees

variable {s : δ} {paths : List String}

theorem refl (s : δ) (paths : List String) : Agrees disk fileAt s s paths :=
  ⟨fun _ _ => rfl, fun _ _ _ h => h⟩

theorem tail (h : Agrees disk fileAt s u (path :: paths)) : Agrees disk fileAt s u paths :=
  ⟨fun q hq => h.read q (by simp [hq]), fun q hq => h.file q (by simp [hq])⟩

/-- A file that is written over is none of those still to be read. -/
theorem write {v : δ} {text : String} {old : Content} (hdisk : disk.Laws kept fileAt same)
    (hu : kept u) (h : Agrees disk fileAt s u paths) (hold : fileAt u path = some old)
    (hdone : disk.write path text u = (.ok (), v)) (hother : ∀ q ∈ paths, ¬same q path) :
    Agrees disk fileAt s v paths := by
  obtain ⟨-, hreads⟩ := hdisk.overwrite hu hold hdone
  obtain ⟨-, hfiles⟩ := hdisk.write hu hdone
  refine ⟨fun q hq => ?_, fun q hq content hfile => ?_⟩
  · exact (hreads (hother q hq)).trans (h.read q hq)
  · exact hfiles (hother q hq) (h.file q hq content hfile)

end Agrees

/-- One file: its text is what the dry run finds, it is the only file that changes, and the two runs
agree on the files that follow. -/
theorem file_step {rest : List String} (hdisk : disk.Laws kept fileAt same)
    (hkept : kept r.stored) (hu : kept u) (hagree : Agrees disk fileAt r.stored u (path :: rest))
    (hother : ∀ q ∈ rest, ¬same q path)
    (hwrite : ∀ text, r.newText disk p generate path = some text →
      (disk.write path text u).1.isOk = true) :
    ∃ v, { r with stored := u }.file disk p generate true path =
        { r.file disk p generate false path with stored := v } ∧
      kept v ∧ Agrees disk fileAt r.stored v rest ∧
      (∀ q content, ¬same q path → fileAt u q = some content → fileAt v q = some content) ∧
      ∀ content, fileAt r.stored path = some content →
        fileAt v path = some ((r.newText disk p generate path).elim content .text) := by
  have hfile := file_apply hdisk hkept hu (hagree.read path (by simp)) hwrite
  refine ⟨_, hfile, ?_⟩
  cases htext : r.newText disk p generate path with
  | none => exact ⟨hu, hagree.tail, fun _ _ _ h => h, fun _ h => hagree.file path (by simp) _ h⟩
  | some text =>
    have hok := hwrite text htext
    cases hdone : disk.write path text u with
    | mk result v =>
      rw [hdone] at hok
      cases result with
      | error cause => cases hok
      | ok _ =>
        obtain ⟨code, hcode⟩ := fileAt_of_newText hdisk hkept htext
        have hold := hagree.file path (by simp) _ hcode
        obtain ⟨hv, hothers⟩ := hdisk.write hu hdone
        simp only [Option.elim_some, hdone]
        refine ⟨hv, hagree.tail.write hdisk hu hold hdone hother, ?_, ?_⟩
        · intro q content hq hget
          exact hothers hq hget
        · intro content _
          exact (hdisk.overwrite hu hold hdone).1

/-! ### All files -/

theorem files_dry_stored (hdisk : disk.Laws kept fileAt same) (hkept : kept r.stored)
    (paths : List String) : (r.files disk p generate false paths).stored = r.stored := by
  induction paths generalizing r with
  | nil => rfl
  | cons path rest ih =>
    have hstored : (r.file disk p generate false path).stored = r.stored :=
      file_dry_stored hdisk hkept path
    rw [files, List.foldl_cons, ← files, ih (by rwa [hstored]), hstored]

/-- Files one after another: the two runs differ in the files that were written, and each of these
holds the text that the dry run found for it. -/
theorem files_apply (hdisk : disk.Laws kept fileAt same) {paths : List String}
    (hkept : kept r.stored) (hu : kept u) (hagree : Agrees disk fileAt r.stored u paths)
    (hdistinct : paths.Pairwise fun a b => ¬same a b)
    (hwrites : { r with stored := u }.writesAll disk p generate paths = true) :
    ∃ v, { r with stored := u }.files disk p generate true paths =
        { r.files disk p generate false paths with stored := v } ∧
      kept v ∧
      (∀ q content, (∀ path ∈ paths, ¬same q path) → fileAt u q = some content →
        fileAt v q = some content) ∧
      ∀ before path after content, paths = before ++ path :: after →
        fileAt r.stored path = some content →
        fileAt v path = some
          (((r.files disk p generate false before).newText disk p generate path).elim content
            .text) := by
  induction paths generalizing r u with
  | nil => exact ⟨u, rfl, hu, fun _ _ _ h => h, by simp⟩
  | cons first rest ih =>
    obtain ⟨hfirst, hrest⟩ := List.pairwise_cons.mp hdistinct
    simp only [writesAll, Bool.and_eq_true, newText_of_read (hagree.read first (by simp))]
      at hwrites
    obtain ⟨hwrite, hwrites⟩ := hwrites
    obtain ⟨v, hfile, hv, hafter, hothers, hhere⟩ := file_step hdisk hkept hu hagree
      (p := p) (γ := γ) (fun q hq hsame => hfirst q hq (hdisk.symm hsame))
      (fun text htext => by rw [htext] at hwrite; exact hwrite)
    have hstored : (r.file disk p generate false first).stored = r.stored :=
      file_dry_stored hdisk hkept first
    rw [hfile] at hwrites
    rw [← hstored] at hafter hkept
    obtain ⟨w, hfiles, hw, hkeeps, hthere⟩ := ih hkept hv hafter hrest hwrites
    refine ⟨w, ?_, hw, ?_, ?_⟩
    · rw [files, List.foldl_cons, hfile]
      exact hfiles
    · intro q content hq hget
      refine hkeeps q content (fun path hpath => hq path (by simp [hpath])) ?_
      exact hothers q content (hq first (by simp)) hget
    · intro before path after content hsplit hget
      cases before with
      | nil =>
        obtain ⟨rfl, rfl⟩ : first = path ∧ rest = after := by simpa using hsplit
        exact hkeeps first _ hfirst (hhere content hget)
      | cons b bs =>
        obtain ⟨rfl, hbelow⟩ : first = b ∧ rest = bs ++ path :: after := by simpa using hsplit
        exact hthere bs path after content hbelow (by rwa [hstored])

end Run

/-! ### The files besides sources -/

section

variable {disk : Disk δ} {kept : δ → Prop} {fileAt : δ → String → Option Content}
  {same : String → String → Prop} {s u : δ} {path : String} {content : Content}

theorem fileAt_of_makeParent (hdisk : disk.Laws kept fileAt same) (hs : kept s) {out : String}
    (h : makeParent disk s out = (.ok (), u)) (hfile : fileAt s path = some content) :
    kept u ∧ fileAt u path = some content := by
  unfold makeParent at h
  split at h
  · cases h
    exact ⟨hs, hfile⟩
  · cases h
    exact ⟨hs, hfile⟩
  · rename_i dir _ _
    cases hmade : disk.makeDirs dir s with
    | mk result made =>
      rw [hmade] at h
      cases result with
      | error cause => cases h
      | ok _ =>
        cases h
        exact ⟨(hdisk.makeDirs hs hmade).1, (hdisk.makeDirs hs hmade).2 hfile⟩

theorem fileAt_of_writeJson (hdisk : disk.Laws kept fileAt same) (hs : kept s) {out : String}
    {v : Json.Value} (h : writeJson disk s out v = (.ok (), u)) (hout : ¬same path out)
    (hfile : fileAt s path = some content) : kept u ∧ fileAt u path = some content := by
  unfold writeJson at h
  cases hparent : makeParent disk s out with
  | mk result before =>
    rw [hparent] at h
    cases result with
    | error fault => cases h
    | ok _ =>
      obtain ⟨hbefore, hthere⟩ := fileAt_of_makeParent hdisk hs hparent hfile
      simp only at h
      cases hwrite : disk.write out (jsonFile v) before with
      | mk result after =>
        rw [hwrite] at h
        cases result with
        | error cause => cases h
        | ok _ =>
          cases h
          obtain ⟨hu, hothers⟩ := hdisk.write hbefore hwrite
          exact ⟨hu, hothers hout hthere⟩

theorem fileAt_of_writeAll (hdisk : disk.Laws kept fileAt same) (hs : kept s)
    {outputs : List (String × Json.Value)} (h : writeAll disk s outputs = (.ok (), u))
    (houts : ∀ out ∈ outputs.map (·.1), ¬same path out) (hfile : fileAt s path = some content) :
    fileAt u path = some content := by
  induction outputs generalizing s with
  | nil =>
    cases h
    exact hfile
  | cons output rest ih =>
    simp only [writeAll] at h
    cases hwrite : writeJson disk s output.1 output.2 with
    | mk result after =>
      rw [hwrite] at h
      cases result with
      | error fault => cases h
      | ok _ =>
        obtain ⟨hafter, hthere⟩ :=
          fileAt_of_writeJson hdisk hs hwrite (houts _ (by simp)) hfile
        exact ih hafter h (fun out hout => houts out (by simp [hout])) hthere

end

theorem Project.run_dry (p : Project) (disk : Disk δ) (stored : δ)
    (generate : KeyGenerator γ) (state : γ) :
    p.run disk stored generate state false =
      (.ok (), Run.files disk p generate false { stored, table := p.table, state } p.files) := by
  unfold run
  exact if_neg Bool.false_ne_true

theorem Project.run_apply {disk : Disk δ} {p : Project} {stored after : δ}
    {generate : KeyGenerator γ} {state : γ} {r : Run γ δ} {result : Except StorageFault Unit}
    (h : Run.files disk p generate true { stored, table := p.table, state } p.files = r)
    (hall : writeAll disk r.stored (p.outputs r.table r.report) = (result, after)) :
    p.run disk stored generate state true = (result, { r with stored := after }) := by
  unfold run
  simp only [h, hall, if_true]

/-- On every disk, over sources that are different files and none of the files that a run writes
besides: a dry run changes nothing, and it has the report and the table of the run that writes, if
every new text can be written. If the other files can be written too, each source holds then the new
text that the dry run found when it came to it, or what it held before. -/
theorem dry_run_predicts_apply {disk : Disk δ} {kept : δ → Prop}
    {fileAt : δ → String → Option Content} {same : String → String → Prop}
    (hdisk : disk.Laws kept fileAt same) (p : Project) (stored : δ) (hkept : kept stored)
    (generate : KeyGenerator γ) (state : γ) (hdistinct : p.files.Pairwise fun a b => ¬same a b)
    (houts : ∀ path ∈ p.files, ∀ out ∈ p.outputPaths, ¬same path out) :
    let start : Run γ δ := { stored, table := p.table, state }
    let dry := p.run disk stored generate state false
    let done := p.run disk stored generate state true
    (dry.1 = .ok () ∧ dry.2.stored = stored) ∧
      (start.writesAll disk p generate p.files = true →
        done.2.report = dry.2.report ∧ done.2.table = dry.2.table ∧
        (done.1 = .ok () → ∀ before path after content, p.files = before ++ path :: after →
          fileAt stored path = some content →
          fileAt done.2.stored path = some
            (((start.files disk p generate false before).newText disk p generate path).elim content
              .text))) := by
  intro start dry done
  have hdry : dry = (.ok (), start.files disk p generate false p.files) :=
    p.run_dry disk stored generate state
  refine ⟨⟨?_, ?_⟩, ?_⟩
  · rw [hdry]
  · rw [hdry]
    exact Run.files_dry_stored (r := start) hdisk hkept p.files
  · intro hwrites
    obtain ⟨v, hfiles, hv, -, htexts⟩ :=
      Run.files_apply (r := start) hdisk hkept hkept (.refl stored p.files) hdistinct hwrites
    cases hall : writeAll disk v (p.outputs (start.files disk p generate false p.files).table
        (start.files disk p generate false p.files).report) with
    | mk result after =>
      have hdone : done = _ := Project.run_apply hfiles hall
      rw [hdone, hdry]
      refine ⟨rfl, rfl, ?_⟩
      intro hok before path rest content hsplit hfile
      obtain rfl : result = .ok () := hok
      have hpath : path ∈ p.files := by simp [hsplit]
      refine fileAt_of_writeAll hdisk hv hall ?_ (htexts before path rest content hsplit hfile)
      rw [Project.outputs_paths]
      exact houts path hpath

/-- From the root on, from above the working directory and through a link: a source with a text, one
that holds no text at all and one that has nothing to extract. -/
theorem dry_run_predicts_apply_three :
    let tree : FileTree := ⟨.dir [("app", .dir [("a.ts", .file (.text "f(\"文\")"))]),
      ("b.ts", .file (.binary [255])), ("lib", .dir [("c.ts", .file (.text "g(1)"))])], ["app"]⟩
    let target := fun path => if path = "c.ts" then "/lib/c.ts" else path
    let disk := FileTree.disk.linked target
    let fileAt := fun (t : FileTree) path => t.fileAt (target path)
    let same := fun a b => SameFile ["app"] (target a) (target b)
    let p : Project := ⟨{}, "/app", ["/app/a.ts", "../b.ts", "c.ts"], {}⟩
    let start : Run Unit FileTree := { stored := tree, table := p.table, state := () }
    disk.Laws (·.cwd = ["app"]) fileAt same ∧
      (p.files.Pairwise fun a b => ¬same a b) ∧
      (∀ path ∈ p.files, ∀ out ∈ p.outputPaths, ¬same path out) ∧
      start.writesAll disk p (sameKey "ok") p.files = true ∧
      ∃ dry done, p.run disk tree (sameKey "ok") () false = (.ok (), dry) ∧
        p.run disk tree (sameKey "ok") () true = (.ok (), done) ∧
        dry.stored = tree ∧ done.report = dry.report ∧ done.table = dry.table ∧
        fileAt done.stored "/app/a.ts" = some (.text "import t from \"@/i18n\";\nf(t(\"ok\"))") ∧
        fileAt done.stored "../b.ts" = some (.binary [255]) ∧
        fileAt done.stored "c.ts" = some (.text "g(1)") := by
  intro tree target disk fileAt same p start
  have hlaws : disk.Laws (·.cwd = ["app"]) fileAt same :=
    (FileTree.disk_laws ["app"]).linked target
  obtain ⟨hfa, hfb, hfc⟩ : fileAt tree "/app/a.ts" = some (.text "f(\"文\")") ∧
      fileAt tree "../b.ts" = some (.binary [255]) ∧ fileAt tree "c.ts" = some (.text "g(1)") := by
    decide +kernel
  have hdistinct : p.files.Pairwise fun a b => ¬same a b := by decide +kernel
  have houts : ∀ path ∈ p.files, ∀ out ∈ p.outputPaths, ¬same path out := by decide +kernel
  have hwrites : start.writesAll disk p (sameKey "ok") p.files = true := by decide +kernel
  have hok : (p.run disk tree (sameKey "ok") () true).1.toOption = some () := by decide +kernel
  have ha : (start.files disk p (sameKey "ok") false []).newText disk p (sameKey "ok")
      "/app/a.ts" = some "import t from \"@/i18n\";\nf(t(\"ok\"))" := by decide +kernel
  have hb : (start.files disk p (sameKey "ok") false ["/app/a.ts"]).newText disk p (sameKey "ok")
      "../b.ts" = none := by decide +kernel
  have hc : (start.files disk p (sameKey "ok") false ["/app/a.ts", "../b.ts"]).newText disk p
      (sameKey "ok") "c.ts" = none := by decide +kernel
  have h := dry_run_predicts_apply hlaws p tree rfl (sameKey "ok") () hdistinct houts
  simp only at h
  generalize p.run disk tree (sameKey "ok") () true = done at h hok ⊢
  generalize p.run disk tree (sameKey "ok") () false = dry at h ⊢
  obtain ⟨⟨hdry, hstored⟩, hdone⟩ := h
  obtain ⟨hreport, htable, hfiles⟩ := hdone hwrites
  have hdone := eq_ok_of_toOption hok
  have hfile := hfiles hdone
  refine ⟨hlaws, hdistinct, houts, hwrites, dry.2, done.2, Prod.ext hdry rfl, Prod.ext hdone rfl,
    hstored, hreport, htable, ?_, ?_, ?_⟩
  · rw [hfile [] "/app/a.ts" ["../b.ts", "c.ts"] _ rfl hfa, ha]
    rfl
  · rw [hfile ["/app/a.ts"] "../b.ts" ["c.ts"] _ rfl hfb, hb]
    rfl
  · rw [hfile ["/app/a.ts", "../b.ts"] "c.ts" [] _ rfl hfc, hc]
    rfl

end Phrasebook
