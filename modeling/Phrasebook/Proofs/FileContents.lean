import Phrasebook.Proofs.FileTree

/-!
What writing does to the files of a tree. Where a path leads can be told from its text, so two paths
name the same file or they do not, whatever the tree holds. A write to one file changes no other, and
making a directory changes no file at all.
-/
namespace Phrasebook

/-! ### Where paths lead -/

/-- One segment further, whatever is there. -/
def FileNode.step (names : List String) (segment : String) : List String :=
  if !Path.isStep segment then names
  else if segment == ".." then names.dropLast
  else names ++ [segment]

namespace FileTree

/-- Where a path leads from a working directory if it leads anywhere. -/
def placeOf (cwd : List String) (path : String) : List String :=
  (way cwd (Path.segments path)).2.foldl FileNode.step (way cwd (Path.segments path)).1

/-- Two paths lead to the same place. -/
def SameFile (cwd : List String) (a b : String) : Prop := placeOf cwd a = placeOf cwd b

instance (cwd : List String) (a b : String) : Decidable (SameFile cwd a b) :=
  inferInstanceAs (Decidable (_ = _))

end FileTree

namespace FileNode

variable {t u new : FileNode} {names others start stop : List String} {content : Content}

theorem follow_ok {segment : String} (h : t.follow names segment = .ok stop) :
    stop = step names segment := by
  simp only [follow] at h
  split at h
  · cases h
  · cases h
  · simp only [step]
    split_ifs at h ⊢ <;> exact (Except.ok.inj h).symm

theorem foldlM_follow_ok {segments : List String} (h : segments.foldlM t.follow start = .ok stop) :
    stop = segments.foldl step start := by
  induction segments generalizing start with
  | nil => exact (Except.ok.inj h).symm
  | cons segment rest ih =>
    rw [List.foldlM_cons] at h
    obtain ⟨mid, hmid, hrest⟩ := exists_of_bind_ok h
    rw [List.foldl_cons, ← follow_ok hmid]
    exact ih hrest

/-! ### Trees of one shape -/

/-- There are files and directories under the same names; only the contents of files differ. -/
def Alike (t u : FileNode) : Prop :=
  ∀ names, (t.at? names).map isDir = (u.at? names).map isDir

theorem Alike.refl (t : FileNode) : Alike t t := fun _ => rfl

theorem Alike.isSome (h : Alike t u) (names : List String) :
    (t.at? names).isSome = (u.at? names).isSome := by
  simpa using congrArg Option.isSome (h names)

theorem isSome_lookup {entries : List (String × FileNode)} (hdir : t.at? names = some (.dir entries))
    (name : String) : (entries.lookup name).isSome = (t.at? (names ++ [name])).isSome := by
  rw [at?_append, hdir, Option.bind_some, at?_dir_cons]
  cases entries.lookup name <;> rfl

theorem Alike.follow_eq (h : Alike t u) : t.follow = u.follow := by
  funext names segment
  have hkind := h names
  cases ht : t.at? names with
  | none =>
    cases hu : u.at? names with
    | none => simp only [follow, ht, hu]
    | some node => simp [ht, hu] at hkind
  | some node =>
    cases hu : u.at? names with
    | none => simp [ht, hu] at hkind
    | some node' =>
      simp only [ht, hu, Option.map_some, Option.some.injEq] at hkind
      cases node with
      | file c =>
        cases node' with
        | file c' => simp only [follow, ht, hu]
        | dir es' => cases hkind
      | dir es =>
        cases node' with
        | file c' => cases hkind
        | dir es' => simp only [follow, ht, hu, isSome_lookup ht, isSome_lookup hu, h.isSome]

/-! ### Putting something in its place -/

/-- A file is not touched by what is put somewhere else, unless a directory around it goes. -/
theorem at?_put_of_ne (hplace : ∀ es, t.at? names ≠ some (.dir es)) (hne : others ≠ names)
    (hfile : t.at? others = some (.file content)) (new : FileNode) :
    (put new t names).at? others = some (.file content) := by
  induction names generalizing t others with
  | nil =>
    cases t with
    | dir es => exact absurd rfl (hplace es)
    | file c =>
      cases others with
      | nil => exact absurd rfl hne
      | cons x xs => cases hfile
  | cons n ns ih =>
    cases t with
    | file c => exact hfile
    | dir below =>
      cases others with
      | nil => cases hfile
      | cons m ms =>
        rw [at?_dir_cons] at hfile
        rw [put]
        cases hn : below.lookup n with
        | none =>
          simp only
          split
          · have hmn : m ≠ n := by
              rintro rfl
              rw [hn] at hfile
              cases hfile
            rw [at?_dir_cons, Text.lookup_putKey_of_ne hmn, hfile]
          · rw [at?_dir_cons, hfile]
        | some v =>
          rw [at?_dir_cons]
          by_cases hmn : m = n
          · subst hmn
            rw [hn, Option.bind_some] at hfile
            rw [Text.lookup_putKey_self, Option.bind_some]
            refine ih ?_ (fun he => hne (by rw [he])) hfile
            intro es he
            exact hplace es (by rw [at?_dir_cons, hn, Option.bind_some, he])
          · rw [Text.lookup_putKey_of_ne hmn, hfile]

/-- A file in place of a file leaves the shape of the tree as it was. -/
theorem alike_put {old : Content} (hold : t.at? names = some (.file old)) (content : Content) :
    Alike t (put (.file content) t names) := by
  induction names generalizing t with
  | nil =>
    obtain rfl : t = .file old := Option.some.inj hold
    intro others
    cases others <;> rfl
  | cons n ns ih =>
    cases t with
    | file c => cases hold
    | dir below =>
      rw [at?_dir_cons] at hold
      obtain ⟨v, hv, hin⟩ := Option.bind_eq_some_iff.mp hold
      intro others
      rw [put, hv]
      cases others with
      | nil => rfl
      | cons m ms =>
        rw [at?_dir_cons, at?_dir_cons]
        by_cases hmn : m = n
        · subst hmn
          rw [hv, Text.lookup_putKey_self]
          exact ih hin ms
        · rw [Text.lookup_putKey_of_ne hmn]

end FileNode

namespace FileTree

variable {t u : FileTree} {names : List String} {path other text : String} {content : Content}

theorem locate_ok (h : t.locate path = .ok names) : names = placeOf t.cwd path := by
  obtain ⟨⟨⟩, -, hall⟩ := exists_of_bind_ok h
  have hsome : ∀ segments, t.locateAll segments = .error .notFound →
      Path.segments path ≠ segments := by
    rintro segments hnone rfl
    rw [hnone] at hall
    cases hall
  rw [locateAll_eq (hsome [] rfl) (hsome [""] rfl)] at hall
  exact FileNode.foldlM_follow_ok hall

/-- What a path names is there where the path leads. -/
theorem get_ok {node : FileNode} (h : t.get path = .ok node) :
    t.locate path = .ok (placeOf t.cwd path) ∧ t.root.at? (placeOf t.cwd path) = some node := by
  obtain ⟨names, hlocate, hnode⟩ := exists_of_bind_ok h
  obtain rfl := locate_ok hlocate
  refine ⟨hlocate, ?_⟩
  split at hnode
  · rename_i found hat
    rw [hat, Except.ok.inj hnode]
  · cases hnode

theorem get_of_locate {node : FileNode} (hlocate : t.locate path = .ok names)
    (hat : t.root.at? names = some node) : t.get path = .ok node := by
  simp [get, hlocate, hat, bind, Except.bind, pure, Except.pure]

/-- What can be read is the text of a file. -/
theorem get_of_readText (h : t.readText path = .ok text) : t.get path = .ok (.file (.text text)) := by
  obtain ⟨node, hget, hnode⟩ := exists_of_bind_ok h
  rw [hget]
  split at hnode
  · cases hnode
  · cases hnode
  · rw [Except.ok.inj hnode]

/-- Reading a path gives the same, be it a text or a fault, in a tree of the same shape where a file
that it leads to is the same. -/
theorem readText_of_alike (hcwd : u.cwd = t.cwd) (h : t.root.Alike u.root)
    (hfile : ∀ content, t.root.at? (placeOf t.cwd path) = some (.file content) →
      u.root.at? (placeOf t.cwd path) = some (.file content)) :
    u.readText path = t.readText path := by
  have hlocate : u.locate path = t.locate path := by
    unfold locate locateAll
    rw [hcwd, h.follow_eq]
  have hget : u.get path = t.get path ∨
      ∃ es es', t.get path = .ok (.dir es) ∧ u.get path = .ok (.dir es') := by
    unfold get
    rw [hlocate]
    cases hplace : t.locate path with
    | error fault => exact .inl rfl
    | ok names =>
      obtain rfl := locate_ok hplace
      have hkind := h (placeOf t.cwd path)
      simp only [bind, Except.bind]
      cases ht : t.root.at? (placeOf t.cwd path) with
      | none =>
        cases hu : u.root.at? (placeOf t.cwd path) with
        | none => exact .inl rfl
        | some node => simp [ht, hu] at hkind
      | some node =>
        cases node with
        | file content =>
          rw [hfile content ht]
          exact .inl rfl
        | dir es =>
          cases hu : u.root.at? (placeOf t.cwd path) with
          | none => simp [ht, hu] at hkind
          | some node =>
            cases node with
            | file content => simp [ht, hu, FileNode.isDir] at hkind
            | dir es' => exact .inr ⟨es, es', rfl, rfl⟩
  rcases hget with hget | ⟨es, es', ht, hu⟩
  · rw [readText, readText, hget]
  · rw [readText, readText, ht, hu]
    rfl

/-! ### Writing -/

/-- The tree with something put under a list of names. -/
def withNode (t : FileTree) (names : List String) (new : FileNode) : FileTree :=
  { t with root := .put new t.root names }

theorem get_withNode (hplace : ∀ es, t.root.at? names ≠ some (.dir es))
    (hne : placeOf t.cwd path ≠ names) (h : t.get path = .ok (.file content)) (new : FileNode) :
    (t.withNode names new).get path = .ok (.file content) := by
  obtain ⟨hlocate, hat⟩ := get_ok h
  refine get_of_locate ?_ (FileNode.at?_put_of_ne hplace hne hat new)
  obtain ⟨⟨⟩, hcheck, hall⟩ := exists_of_bind_ok hlocate
  have hput : (t.withNode names new).locateAll (Path.segments path) =
      .ok (placeOf t.cwd path) := by
    unfold locateAll at hall ⊢
    split at hall
    · cases hall
    · cases hall
    · exact FileNode.foldlM_follow_put hplace new hall
    · exact FileNode.foldlM_follow_put hplace new hall
  rw [locate, hcheck]
  exact hput

/-- A written file is put where its path leads. -/
theorem write_ok (h : t.write path text = .ok u) :
    (∀ es, t.root.at? (placeOf t.cwd path) ≠ some (.dir es)) ∧
      u = t.withNode (placeOf t.cwd path) (.file (.text text)) := by
  obtain ⟨before, name, parent, entries, -, hway, hbefore, -, hstep, hup, -, hplace, hput⟩ :=
    writeContent_ok h
  have hnames : placeOf t.cwd path = parent ++ [name] := by
    rw [placeOf, hway, List.foldl_append, ← FileNode.foldlM_follow_ok hbefore]
    simp [FileNode.step, hstep, hup]
  rw [hnames]
  exact ⟨hplace, hput⟩

/-- No other file changes when one is written. -/
theorem get_of_write (h : t.write other text = .ok u) (hother : ¬SameFile t.cwd path other)
    (hfile : t.get path = .ok (.file content)) : u.get path = .ok (.file content) := by
  obtain ⟨hplace, rfl⟩ := write_ok h
  exact get_withNode hplace hother hfile _

/-- Writing over a file changes what no other path reads. -/
theorem readText_of_write_over {old : Content} (h : t.write other text = .ok u)
    (hold : t.get other = .ok (.file old)) (hother : ¬SameFile t.cwd path other) :
    u.readText path = t.readText path := by
  obtain ⟨hplace, rfl⟩ := write_ok h
  obtain ⟨-, hat⟩ := get_ok hold
  refine readText_of_alike rfl (FileNode.alike_put hat _) fun content hfile => ?_
  exact FileNode.at?_put_of_ne hplace hother hfile _

theorem makeDir_ok {dir : String} (h : t.makeDir dir = .ok u) :
    ∃ names, t.root.at? names = none ∧ u = t.withNode names (.dir []) := by
  obtain ⟨⟨⟩, -, h⟩ := exists_of_bind_ok h
  obtain ⟨target, -, h⟩ := exists_of_bind_ok h
  cases target with
  | none => cases h
  | some target =>
    simp only at h
    split_ifs at h with hlong hthere
    exact ⟨target.names, by simpa using hthere, (Except.ok.inj h).symm⟩

/-- What making directories does not change: the working directory and every file. -/
structure KeepsFiles (t u : FileTree) : Prop where
  cwd : u.cwd = t.cwd
  get : ∀ {path content}, t.get path = .ok (.file content) → u.get path = .ok (.file content)

theorem KeepsFiles.refl (t : FileTree) : KeepsFiles t t := ⟨rfl, id⟩

theorem KeepsFiles.trans {v : FileTree} (h : KeepsFiles t u) (h' : KeepsFiles u v) :
    KeepsFiles t v :=
  ⟨h'.cwd.trans h.cwd, fun hfile => h'.get (h.get hfile)⟩

theorem keepsFiles_makeDir {dir : String} (h : t.makeDir dir = .ok u) : KeepsFiles t u := by
  obtain ⟨names, hnone, rfl⟩ := makeDir_ok h
  refine ⟨rfl, fun {path content} hfile => get_withNode (by simp [hnone]) ?_ hfile _⟩
  rintro rfl
  cases hnone.symm.trans (get_ok hfile).2

/-- Directories are made one after another, and no file changes. -/
theorem keepsFiles_makeDirsFrom (fuel : Nat) {dir : String} (h : makeDirsFrom fuel t dir = .ok u) :
    KeepsFiles t u := by
  induction fuel generalizing t u dir with
  | zero => cases h
  | succ fuel ih =>
    simp only [makeDirsFrom] at h
    split at h
    · cases h
      exact .refl t
    · split at h
      · rename_i made hmade
        cases h
        exact keepsFiles_makeDir hmade
      · split at h
        · cases h
        · obtain ⟨mid, hmid, h⟩ := exists_of_bind_ok h
          refine (ih hmid).trans ?_
          split at h
          · rename_i made hmade
            cases h
            exact keepsFiles_makeDir hmade
          · split at h
            · cases h
              exact .refl _
            · cases h
      · split at h
        · cases h
          exact .refl t
        · cases h

end FileTree

end Phrasebook
