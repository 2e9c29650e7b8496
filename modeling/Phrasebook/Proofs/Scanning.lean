import Phrasebook.Project
import Phrasebook.Proofs.PathNames

/-!
Which paths a scan comes up with. It tells paths apart by their texts. A file below one root is
found under one path only, and so it is below several roots if all of them are written as names from
one start. Roots that are written differently may lead to the same file.
-/
namespace Phrasebook

/-! ### Trees with names -/

namespace FileNode

mutual

/-- The entries of every directory have names, and no two the same. -/
def isNamed : FileNode → Bool
  | .file _ => true
  | .dir entries => areNamed entries

def areNamed : List (String × FileNode) → Bool
  | [] => true
  | (name, t) :: rest =>
    Path.isName name && !(rest.map (·.1)).contains name && t.isNamed && areNamed rest

end

variable {t node : FileNode} {entries : List (String × FileNode)} {names : List String}
  {root path name : String}

theorem areNamed_cons {rest : List (String × FileNode)} : areNamed ((name, t) :: rest) = true ↔
    Path.isName name = true ∧ name ∉ rest.map (·.1) ∧ t.isNamed = true ∧ areNamed rest = true := by
  simp [areNamed, and_assoc]

theorem areNamed_mem (h : areNamed entries = true) (hmem : (name, t) ∈ entries) :
    Path.isName name = true ∧ t.isNamed = true ∧ entries.lookup name = some t := by
  induction entries with
  | nil => cases hmem
  | cons entry rest ih =>
    obtain ⟨first, u⟩ := entry
    obtain ⟨hfirst, hnot, hu, hrest⟩ := areNamed_cons.mp h
    rcases List.mem_cons.mp hmem with heq | hlater
    · cases heq
      exact ⟨hfirst, hu, List.lookup_cons_self⟩
    · obtain ⟨hname, ht, hlookup⟩ := ih hrest hlater
      refine ⟨hname, ht, ?_⟩
      have hne : name ≠ first := by
        rintro rfl
        exact hnot (List.mem_map.mpr ⟨_, hlater, rfl⟩)
      rw [List.lookup_cons, beq_false_of_ne hne]
      exact hlookup

/-- Below a tree with names there are such trees only, under names. -/
theorem at?_of_isNamed (h : t.isNamed = true) (hat : t.at? names = some node) :
    (∀ n ∈ names, Path.isName n = true) ∧ node.isNamed = true := by
  induction names generalizing t with
  | nil =>
    cases hat
    exact ⟨by simp, h⟩
  | cons name names ih =>
    cases t with
    | file c => cases hat
    | dir entries =>
      rw [at?_dir_cons, Option.bind_eq_some_iff] at hat
      obtain ⟨u, hu, hat⟩ := hat
      obtain ⟨hname, hnamed, -⟩ := areNamed_mem h (Text.mem_of_lookup hu)
      obtain ⟨hnames, hnode⟩ := ih hnamed hat
      exact ⟨List.forall_mem_cons.mpr ⟨hname, hnames⟩, hnode⟩

theorem mem_walkAll_of_mem {found : String × FileNode} (h : (name, t) ∈ entries)
    (hfound : found ∈ t.walk (Path.join root name)) : found ∈ walkAll root entries := by
  induction entries with
  | nil => cases h
  | cons entry rest ih =>
    refine List.mem_append.mpr ?_
    rcases List.mem_cons.mp h with rfl | h
    · exact .inl hfound
    · exact .inr (ih h)

/-- A walk comes by everything below its start. -/
theorem descend_mem_walk (root : String) (h : t.at? names = some node) :
    (Path.descend root names, node) ∈ t.walk root := by
  induction names generalizing t root with
  | nil =>
    cases h
    cases node <;> exact List.mem_cons_self ..
  | cons name names ih =>
    cases t with
    | file c => cases h
    | dir entries =>
      rw [at?_dir_cons, Option.bind_eq_some_iff] at h
      obtain ⟨u, hu, hat⟩ := h
      exact List.mem_cons_of_mem _ (mem_walkAll_of_mem (Text.mem_of_lookup hu) (ih _ hat))

mutual

/-- What a walk comes by lies below its start. -/
theorem mem_walk (root : String) : ∀ {t : FileNode}, t.isNamed = true → (path, node) ∈ t.walk root →
    ∃ names, path = Path.descend root names ∧ t.at? names = some node
  | .file c, _, h => by
    cases List.mem_singleton.mp h
    exact ⟨[], rfl, rfl⟩
  | .dir entries, hnamed, h => by
    rcases List.mem_cons.mp h with h | h
    · cases h
      exact ⟨[], rfl, rfl⟩
    · obtain ⟨name, u, hentry, names, hpath, hat⟩ := mem_walkAll root hnamed h
      refine ⟨name :: names, hpath, ?_⟩
      rw [at?_dir_cons, (areNamed_mem hnamed hentry).2.2, Option.bind_some, hat]

theorem mem_walkAll (root : String) : ∀ {entries : List (String × FileNode)},
    areNamed entries = true → (path, node) ∈ walkAll root entries →
    ∃ name t, (name, t) ∈ entries ∧
      ∃ names, path = Path.descend (Path.join root name) names ∧ t.at? names = some node
  | [], _, h => absurd h List.not_mem_nil
  | (name, t) :: rest, hnamed, h => by
    obtain ⟨-, -, ht, hrest⟩ := areNamed_cons.mp hnamed
    rcases List.mem_append.mp h with h | h
    · exact ⟨name, t, List.mem_cons_self .., mem_walk _ ht h⟩
    · obtain ⟨other, u, hentry, hbelow⟩ := mem_walkAll root hrest h
      exact ⟨other, u, List.mem_cons_of_mem _ hentry, hbelow⟩

end

end FileNode

namespace FileTree

variable {t : FileTree} {node : FileNode} {path name : String}

theorem isNamed_get (h : t.root.isNamed = true) (hget : t.get path = .ok node) :
    node.isNamed = true :=
  (FileNode.at?_of_isNamed h (get_ok hget).2).2

theorem isName_of_mem_children (h : t.root.isNamed = true) (hname : name ∈ t.children path) :
    Path.isName name = true := by
  unfold children at hname
  split at hname
  · rename_i entries hget
    obtain ⟨⟨n, u⟩, hentry, rfl⟩ := List.mem_map.mp hname
    exact (FileNode.areNamed_mem (isNamed_get h hget) hentry).1
  · cases hname

end FileTree

open FileTree

/-! ### Patterns of names -/

namespace Glob

/-- The pattern matches names and neither of the dots. -/
def Pattern.isNamed (p : Pattern) : Bool :=
  p.literal?.all Path.isName && (specialNames p).isEmpty

/-- The pattern is relative and, after dots in front, made of names. -/
def PathPattern.isNamed (p : PathPattern) : Bool :=
  let components := p.components.dropWhile fun c => c.literal? == some "."
  p.start == "." && !components.isEmpty && components.all Pattern.isNamed

variable {t : FileTree} {onlyDirs : Bool} {path name f : String} {p : Pattern} {ps : List Pattern}

theorem entryPath_under (hpath : path = "." ∨ Path.Under "" path) (hname : Path.isName name = true) :
    Path.Under "" (entryPath path name) := by
  have halone : Path.Under "" name :=
    ⟨[name], by simpa using hname, (Path.join_empty (Path.not_isAbsolute_of_isName hname)).symm⟩
  unfold entryPath
  split
  · exact halone
  · rename_i hcomponents
    rcases hpath with rfl | hpath
    · exact absurd rfl hcomponents
    · exact hpath.trans ⟨[name], by simpa using hname, rfl⟩

theorem eq_of_mem_accepted (h : f ∈ accepted t onlyDirs path) : f = path := by
  unfold accepted at h
  split at h
  · exact List.mem_singleton.mp h
  · cases h

theorem mem_of_mem_lastRecursive (h : p ∈ lastRecursive ps) : p ∈ ps := by
  fun_induction lastRecursive ps with
  | case1 q r rest hr ih => exact List.mem_cons_of_mem _ (ih h)
  | case2 => exact h
  | case3 => exact h

/-- A literal component leads to the entry of its name. -/
theorem mem_below_literal {fuel : Nat} (hp : p.literal? = some name)
    (hf : f ∈ below t onlyDirs (fuel + 1) (p :: ps) path) :
    (ps = [] ∧ f = entryPath path name) ∨ f ∈ below t onlyDirs fuel ps (entryPath path name) := by
  simp only [below, hp, List.mem_ite_nil_left] at hf
  obtain ⟨-, hf⟩ := hf
  split at hf
  · rename_i hlast
    exact .inl ⟨List.isEmpty_iff.mp hlast, eq_of_mem_accepted hf⟩
  · exact .inr hf

/-- What such a search finds for patterns of names has a path of names. -/
structure FindsNamed (t : FileTree) (onlyDirs : Bool) (fuel : Nat) : Prop where
  below : ∀ {ps path f}, (∀ p ∈ ps, p.isNamed = true) → path = "." ∨ Path.Under "" path →
    f ∈ below t onlyDirs fuel ps path → Path.Under "" f
  entry : ∀ {ps path f}, (∀ p ∈ ps, p.isNamed = true) → Path.Under "" path →
    f ∈ entry t onlyDirs fuel ps path → Path.Under "" f
  matching : ∀ {ps path f}, (∀ p ∈ ps, p.isNamed = true) → Path.Under "" path →
    f ∈ matching t onlyDirs fuel ps path → Path.Under "" f

namespace FindsNamed

variable {fuel : Nat} {rest : List Pattern}

theorem below_succ (ht : t.root.isNamed = true) (ih : FindsNamed t onlyDirs fuel)
    (hps : ∀ q ∈ p :: rest, q.isNamed = true) (hpath : path = "." ∨ Path.Under "" path)
    (hf : f ∈ Glob.below t onlyDirs (fuel + 1) (p :: rest) path) : Path.Under "" f := by
  obtain ⟨hp, hrest⟩ := List.forall_mem_cons.mp hps
  simp only [Pattern.isNamed, Bool.and_eq_true] at hp
  cases hliteral : p.literal? with
  | some name =>
    have hname : Path.isName name = true := by simpa [hliteral] using hp.1
    have hnext := entryPath_under hpath hname
    rcases mem_below_literal hliteral hf with ⟨-, rfl⟩ | hf
    · exact hnext
    · exact ih.below hrest (.inr hnext) hf
  | none =>
    simp only [Glob.below, hliteral, List.mem_ite_nil_left, List.isEmpty_iff.mp hp.2,
      List.flatMap_nil, List.append_nil] at hf
    obtain ⟨name, hname, hf⟩ := List.mem_flatMap.mp hf.2
    exact ih.entry hps (entryPath_under hpath (isName_of_mem_children ht hname)) hf

theorem entry_succ (ih : FindsNamed t onlyDirs fuel) (hps : ∀ q ∈ p :: rest, q.isNamed = true)
    (hpath : Path.Under "" path) (hf : f ∈ Glob.entry t onlyDirs (fuel + 1) (p :: rest) path) :
    Path.Under "" f := by
  have hlast : ∀ q ∈ lastRecursive (p :: rest), q.isNamed = true :=
    fun q hq => hps q (mem_of_mem_lastRecursive hq)
  simp only [Glob.entry] at hf
  split at hf
  · exact ih.matching hps hpath hf
  · split at hf
    · cases hf
    · rename_i last heq
      split at hf
      · rcases List.mem_cons.mp hf with rfl | hf
        · exact hpath
        · exact ih.below (heq ▸ hlast) (.inr hpath) hf
      · cases hf
    · rename_i last after _ heq
      rw [heq] at hlast
      rcases List.mem_append.mp hf with hf | hf
      · split at hf
        · exact ih.below hlast (.inr hpath) hf
        · cases hf
      · exact ih.matching (List.forall_mem_cons.mp hlast).2 hpath hf

theorem matching_succ (ih : FindsNamed t onlyDirs fuel) (hps : ∀ q ∈ p :: rest, q.isNamed = true)
    (hpath : Path.Under "" path) (hf : f ∈ Glob.matching t onlyDirs (fuel + 1) (p :: rest) path) :
    Path.Under "" f := by
  simp only [Glob.matching] at hf
  split at hf
  · cases hf
  · split at hf
    · cases hf
    · split at hf
      · exact eq_of_mem_accepted hf ▸ hpath
      · exact ih.below (List.forall_mem_cons.mp hps).2 (.inr hpath) hf

theorem of_isNamed (ht : t.root.isNamed = true) (fuel : Nat) : FindsNamed t onlyDirs fuel := by
  induction fuel with
  | zero => constructor <;> simp [Glob.below, Glob.entry, Glob.matching]
  | succ fuel ih =>
    constructor
    · intro ps path f hps hpath hf
      cases ps with
      | nil => cases hf
      | cons p rest => exact below_succ ht ih hps hpath hf
    · intro ps path f hps hpath hf
      cases ps with
      | nil => cases hf
      | cons p rest => exact entry_succ ih hps hpath hf
    · intro ps path f hps hpath hf
      cases ps with
      | nil => cases hf
      | cons p rest => exact matching_succ ih hps hpath hf

end FindsNamed

/-- Dots in front of a pattern lead nowhere. -/
theorem below_under (ht : t.root.isNamed = true) (fuel : Nat)
    (hne : ps.dropWhile (fun c => c.literal? == some ".") ≠ [])
    (hps : ∀ p ∈ ps.dropWhile (fun c => c.literal? == some "."), p.isNamed = true)
    (hf : f ∈ below t onlyDirs fuel ps ".") : Path.Under "" f := by
  induction ps generalizing fuel with
  | nil => exact absurd rfl hne
  | cons p rest ih =>
    by_cases hp : p.literal? = some "."
    · have hdrop : (p :: rest).dropWhile (fun c => c.literal? == some ".") =
          rest.dropWhile fun c => c.literal? == some "." := by simp [hp]
      rw [hdrop] at hne hps
      cases fuel with
      | zero => simp [below] at hf
      | succ fuel =>
        rcases mem_below_literal hp hf with ⟨rfl, -⟩ | hf
        · exact absurd rfl hne
        · exact ih fuel hne hps hf
    · have hdrop : (p :: rest).dropWhile (fun c => c.literal? == some ".") = p :: rest := by
        simp [hp]
      rw [hdrop] at hps
      exact (FindsNamed.of_isNamed ht fuel).below hps (.inl rfl) hf

theorem expand_under (ht : t.root.isNamed = true) {p : PathPattern} (hp : p.isNamed = true)
    (hf : f ∈ expand t p) : Path.Under "" f := by
  simp only [PathPattern.isNamed, Bool.and_eq_true, beq_iff_eq, Bool.not_eq_true',
    List.isEmpty_eq_false_iff, List.all_eq_true] at hp
  obtain ⟨⟨hstart, hne⟩, hnamed⟩ := hp
  rw [expand, hstart] at hf
  exact below_under ht _ hne hnamed hf

end Glob

/-! ### Files below a root -/

/-- The files below a root are the source files there that are not left out. -/
theorem mem_filesBelow {t : FileTree} (ht : t.root.isNamed = true) {i : Ignored} {root f : String} :
    f ∈ filesBelow t i root ↔ ∃ node names content, t.get root = .ok node ∧
      node.at? names = some (.file content) ∧ f = Path.descend root names ∧
      i.covers f = false ∧ isScannable f = true := by
  unfold filesBelow
  constructor
  · intro h
    split at h
    · rename_i node hget
      obtain ⟨⟨path, found⟩, hfound, rfl⟩ := List.mem_map.mp h
      obtain ⟨hwalk, hwanted⟩ := List.mem_filter.mp hfound
      obtain ⟨names, hpath, hat⟩ := FileNode.mem_walk root (isNamed_get ht hget) hwalk
      cases found with
      | dir entries => simp [isWanted, FileNode.isDir] at hwanted
      | file content =>
        simp only [isWanted, FileNode.isDir, Bool.not_false, Bool.true_and, Bool.and_eq_true,
          Bool.not_eq_true'] at hwanted
        exact ⟨node, names, content, hget, hat, hpath, hwanted⟩
    · cases h
  · rintro ⟨node, names, content, hget, hat, rfl, hcovers, hscannable⟩
    rw [hget]
    have hwanted : isWanted i (Path.descend root names) (.file content) = true := by
      simp only [isWanted, hcovers, hscannable]
      rfl
    exact List.mem_map.mpr ⟨_, List.mem_filter.mpr ⟨FileNode.descend_mem_walk root hat, hwanted⟩, rfl⟩

/-- A source file below a root has a path of names from there and leads to a file of the tree. -/
theorem under_of_mem_filesBelow {t : FileTree} (ht : t.root.isNamed = true) {i : Ignored}
    {root f : String} (h : f ∈ filesBelow t i root) :
    Path.Under root f ∧ f ≠ "" ∧ ∃ content, t.root.at? (placeOf t.cwd f) = some (.file content) := by
  obtain ⟨node, names, content, hget, hat, rfl, -⟩ := (mem_filesBelow ht).mp h
  have hnames := (FileNode.at?_of_isNamed (isNamed_get ht hget) hat).1
  have hroot : root ≠ "" := by
    rintro rfl
    cases hget
  refine ⟨⟨names, hnames, rfl⟩, ?_, content, ?_⟩
  · exact descend_ne_empty hnames hroot
  · rw [placeOf_descend hnames hroot, FileNode.at?_append, (get_ok hget).2, Option.bind_some, hat]

/-! ### Where to search -/

namespace ScanRequest

variable {t : FileTree} {r : ScanRequest} {wanted root : String}

/-- The include is written as names. A pattern that cannot be read leads nowhere. -/
def isNamed (r : ScanRequest) (wanted : String) : Bool :=
  if Glob.hasWildcard wanted then
    (Glob.PathPattern.read (Path.join r.base wanted)).toOption.all Glob.PathPattern.isNamed
  else (Path.segments wanted).all Path.isName

/-- All roots are written as names from one start: paths start at the base, while what matches a
pattern does not show a dot that the base consists of. -/
def isPlain (r : ScanRequest) : Bool :=
  r.includes.all r.isNamed &&
    (r.includes.all (!Glob.hasWildcard ·) || r.includes.all Glob.hasWildcard
      || (Path.segments r.base).all Path.isName)

theorem root_under_base (hnamed : r.isNamed wanted = true) (hwild : Glob.hasWildcard wanted = false)
    (hroot : root ∈ (r.includeRoots t wanted).1) : Path.Under r.base root := by
  simp only [isNamed, hwild, Bool.false_eq_true, if_false, List.all_eq_true] at hnamed
  simp only [includeRoots, hwild, Bool.false_eq_true, if_false] at hroot
  split at hroot
  · rw [List.mem_singleton.mp hroot]
    exact ⟨_, hnamed, Path.join_eq_descend hnamed⟩
  · cases hroot

theorem root_under_empty (ht : t.root.isNamed = true) (hnamed : r.isNamed wanted = true)
    (hwild : Glob.hasWildcard wanted = true) (hroot : root ∈ (r.includeRoots t wanted).1) :
    Path.Under "" root := by
  simp only [isNamed, hwild, if_true] at hnamed
  simp only [includeRoots, hwild, if_true] at hroot
  split at hroot
  · rename_i p hread
    rw [hread] at hnamed
    exact Glob.expand_under ht hnamed (List.mem_filter.mp hroot).1
  · cases hroot

theorem under_empty_of_names {base : String} (h : (Path.segments base).all Path.isName = true) :
    Path.Under "" base :=
  ⟨_, List.all_eq_true.mp h, Path.eq_descend_empty (List.all_eq_true.mp h)⟩

/-- The roots of a plain request have a start in common. -/
theorem exists_start (ht : t.root.isNamed = true) (hplain : r.isPlain = true) :
    ∃ start, ∀ root ∈ (r.roots t).1, Path.Under start root := by
  simp only [isPlain, Bool.and_eq_true, Bool.or_eq_true, List.all_eq_true] at hplain
  obtain ⟨hnamed, hkinds⟩ := hplain
  by_cases hnone : r.includes.isEmpty = true
  · refine ⟨r.base, fun root hroot => ?_⟩
    rw [roots, if_pos hnone] at hroot
    rw [List.mem_singleton.mp hroot]
    exact .refl _
  · have hfound : ∀ root ∈ (r.roots t).1, ∃ wanted ∈ r.includes,
        root ∈ (r.includeRoots t wanted).1 := by
      intro root hroot
      rw [roots, if_neg hnone] at hroot
      simpa using hroot
    rcases hkinds with (hpaths | hpatterns) | hbase
    · refine ⟨r.base, fun root hroot => ?_⟩
      obtain ⟨wanted, hwanted, hroot⟩ := hfound root hroot
      exact root_under_base (hnamed _ hwanted) (by simpa using hpaths _ hwanted) hroot
    · refine ⟨"", fun root hroot => ?_⟩
      obtain ⟨wanted, hwanted, hroot⟩ := hfound root hroot
      exact root_under_empty ht (hnamed _ hwanted) (hpatterns _ hwanted) hroot
    · refine ⟨"", fun root hroot => ?_⟩
      obtain ⟨wanted, hwanted, hroot⟩ := hfound root hroot
      cases hwild : Glob.hasWildcard wanted with
      | true => exact root_under_empty ht (hnamed _ hwanted) hwild hroot
      | false =>
        have hunder := under_empty_of_names (List.all_eq_true.mpr hbase)
        exact hunder.trans (root_under_base (hnamed _ hwanted) hwild hroot)

end ScanRequest

/-! ### Scanning -/

theorem nodup_eraseDups {α : Type} [BEq α] [LawfulBEq α] (as : List α) : as.eraseDups.Nodup := by
  induction h : as.length using Nat.strongRecOn generalizing as with
  | ind n ih =>
    cases as with
    | nil => simp
    | cons a rest =>
      subst h
      have hlt : (rest.filter fun b => !b == a).length < (a :: rest).length :=
        Nat.lt_succ_of_le (List.length_filter_le ..)
      rw [List.eraseDups_cons, List.nodup_cons]
      exact ⟨by simp [List.mem_eraseDups], ih _ hlt _ rfl⟩

theorem mem_scan_files {t : FileTree} {r : ScanRequest} {f : String} :
    f ∈ (scan t r).files ↔ ∃ root ∈ (r.roots t).1, f ∈ filesBelow t r.ignored root := by
  simp [scan, Text.sortTexts, (Text.sortBy_perm _ _).mem_iff, List.mem_eraseDups]

theorem nodup_scan_files (t : FileTree) (r : ScanRequest) : (scan t r).files.Nodup :=
  (Text.sortBy_perm _ _).nodup_iff.mpr (nodup_eraseDups _)

/-- Below roots that are written as names from one start a file is found under one path. -/
theorem eq_of_sameFile {t : FileTree} (ht : t.root.isNamed = true) {i : Ignored}
    {start root root' a b : String} (hroot : Path.Under start root)
    (hroot' : Path.Under start root') (ha : a ∈ filesBelow t i root)
    (hb : b ∈ filesBelow t i root') (hsame : SameFile t.cwd a b) : a = b := by
  obtain ⟨hundera, hane, -⟩ := under_of_mem_filesBelow ht ha
  obtain ⟨hunderb, hbne, -⟩ := under_of_mem_filesBelow ht hb
  exact hsame.eq_of_under (hroot.trans hundera) (hroot'.trans hunderb) hane hbne

theorem pairwise_scan_files {t : FileTree} (ht : t.root.isNamed = true) {r : ScanRequest}
    (hplain : r.isPlain = true) : (scan t r).files.Pairwise fun a b => ¬SameFile t.cwd a b := by
  obtain ⟨start, hstart⟩ := ScanRequest.exists_start ht hplain
  refine (nodup_scan_files t r).imp_of_mem ?_
  intro a b ha hb hne hsame
  obtain ⟨root, hroot, ha⟩ := mem_scan_files.mp ha
  obtain ⟨root', hroot', hb⟩ := mem_scan_files.mp hb
  exact hne (eq_of_sameFile ht (hstart root hroot) (hstart root' hroot') ha hb hsame)

theorem Project.open_files {t : FileTree} {request : Request} {p : Project}
    (h : (Project.open t request).project = .ok p) :
    p.files = (scan t (scanRequest p.root p.settings)).files := by
  unfold Project.open at h
  split at h
  · cases h
  · simp only at h
    split at h
    · cases h
    · rw [← Except.ok.inj h]

/-- A scan finds the source files below its roots that are not left out, each of its paths once and
each the path of a file. A file below roots that are written as names from one start has one path,
so a request all of whose roots are written so finds no file twice, and neither does a project with
such settings process one twice. Other requests may: paths are told apart as texts. -/
theorem scanned_once {t : FileTree} (ht : t.root.isNamed = true) (r : ScanRequest) :
    (scan t r).files.Nodup ∧
    (∀ f, f ∈ (scan t r).files ↔ ∃ root ∈ (r.roots t).1, ∃ node names content,
      t.get root = .ok node ∧ node.at? names = some (.file content) ∧
      f = Path.descend root names ∧ r.ignored.covers f = false ∧ isScannable f = true) ∧
    (∀ f ∈ (scan t r).files, ∃ content, t.root.at? (placeOf t.cwd f) = some (.file content)) ∧
    (∀ start, ∀ root ∈ (r.roots t).1, ∀ root' ∈ (r.roots t).1, Path.Under start root →
      Path.Under start root' → ∀ a ∈ filesBelow t r.ignored root,
        ∀ b ∈ filesBelow t r.ignored root', SameFile t.cwd a b → a = b) ∧
    (r.isPlain = true → (scan t r).files.Pairwise fun a b => ¬SameFile t.cwd a b) ∧
    ∀ request p, (Project.open t request).project = .ok p →
      (scanRequest p.root p.settings).isPlain = true →
      p.files.Pairwise fun a b => ¬SameFile t.cwd a b := by
  refine ⟨nodup_scan_files t r, ?_, ?_, ?_, pairwise_scan_files ht, ?_⟩
  · intro f
    rw [mem_scan_files]
    exact exists_congr fun root => and_congr_right fun _ => mem_filesBelow ht
  · intro f hf
    obtain ⟨root, -, hbelow⟩ := mem_scan_files.mp hf
    exact (under_of_mem_filesBelow ht hbelow).2.2
  · intro start root _ root' _ hroot hroot' a ha b hb hsame
    exact eq_of_sameFile ht hroot hroot' ha hb hsame
  · intro request p hopen hplain
    rw [Project.open_files hopen]
    exact pairwise_scan_files ht hplain

/-- Overlapping paths and patterns from a base of names, in a directory that is not the root. -/
theorem scanned_once_overlapping :
    let t : FileTree := .ofNode (.dir [("app", .dir [("src", .dir [("a.ts", .file (.text "")),
      ("lib", .dir [("b.tsx", .file (.text ""))])])])]) ["home"]
    let r : ScanRequest :=
      { base := "app", includes := ["src", "src/lib", "s*", "**"], ignores := [],
        ignoreTestFiles := false }
    t.root.isNamed = true ∧ r.isPlain = true ∧
      (scan t r).files = ["app/src/a.ts", "app/src/lib/b.tsx"] ∧
      (scan t r).files.Pairwise fun a b => ¬SameFile t.cwd a b := by
  intro t r
  have ht : t.root.isNamed = true := by decide +kernel
  have hplain : r.isPlain = true := by decide +kernel
  exact ⟨ht, hplain, by decide +kernel, (scanned_once ht r).2.2.2.2.1 hplain⟩

-- a dot in front and the way from the root are part of a text, so one file is found under many paths
example :
    let t : FileTree := .ofNode (.dir [("src", .dir [("a.ts", .file (.text ""))])]) ["app"]
    let r : ScanRequest :=
      { base := ".", includes := ["src", "./src", "/app/src"], ignores := [],
        ignoreTestFiles := false }
    r.isPlain = false ∧ (scan t r).files = ["././src/a.ts", "./src/a.ts", "/app/src/a.ts"] ∧
      SameFile t.cwd "././src/a.ts" "./src/a.ts" ∧
      SameFile t.cwd "./src/a.ts" "/app/src/a.ts" := by
  decide +kernel

end Phrasebook
