import Mathlib.Data.List.Basic
import Phrasebook.Proofs.FileContents

/-!
Paths made of names. A path to which names are joined one after another leads that many levels
further down, so two paths that start alike and lead to the same place are the same text. This
fails for paths written in other ways: a single dot or a repeated slash leads nowhere.
-/
namespace Phrasebook

namespace Path

/-- A name that a directory can hold. -/
def isName (segment : String) : Bool :=
  isStep segment && segment != ".." && !segment.toList.contains '/'

/-- The path some levels further down. -/
def descend (path : String) (names : List String) : String := names.foldl join path

/-- The path leads down from `start` by names. -/
def Under (start path : String) : Prop :=
  ∃ names, (∀ n ∈ names, isName n = true) ∧ path = descend start names

variable {name : String} {names : List String}

theorem isName_iff : isName name = true ↔
    isStep name = true ∧ name ≠ ".." ∧ '/' ∉ name.toList := by
  simp [isName, and_assoc]

theorem ne_empty_of_isName (h : isName name = true) : name ≠ "" := by
  rintro rfl
  cases h

theorem descend_append (path : String) (names others : List String) :
    descend path (names ++ others) = descend (descend path names) others := List.foldl_append

theorem Under.refl (path : String) : Under path path := ⟨[], by simp, rfl⟩

theorem Under.trans {a b c : String} (h : Under a b) (h' : Under b c) : Under a c := by
  obtain ⟨names, hnames, rfl⟩ := h
  obtain ⟨others, hothers, rfl⟩ := h'
  refine ⟨names ++ others, ?_, (descend_append a names others).symm⟩
  intro n hn
  exact (List.mem_append.mp hn).elim (hnames n) (hothers n)

/-! ### Segments -/

theorem splitSlashes_ne_nil (cs : List Char) : splitSlashes cs ≠ [] := by
  fun_induction splitSlashes cs <;> simp_all

theorem splitSlashes_append (cs ds : List Char) :
    splitSlashes (cs ++ '/' :: ds) = splitSlashes cs ++ splitSlashes ds := by
  induction cs with
  | nil => rfl
  | cons c cs ih =>
    by_cases hc : c = '/'
    · subst hc
      simp [splitSlashes, ih]
    · obtain ⟨piece, rest, hpieces⟩ := List.exists_cons_of_ne_nil (splitSlashes_ne_nil cs)
      simp [splitSlashes, ih, hpieces]

theorem splitSlashes_of_not_mem {cs : List Char} (h : '/' ∉ cs) : splitSlashes cs = [cs] := by
  induction cs with
  | nil => rfl
  | cons c cs ih =>
    simp only [List.mem_cons, not_or] at h
    have hc : c ≠ '/' := Ne.symm h.1
    simp [splitSlashes, ih h.2]

/-- A text with one piece has no slash, and one with more has its first slash after the first. -/
theorem splitSlashes_cons {cs piece : List Char} {rest : List (List Char)}
    (h : splitSlashes cs = piece :: rest) :
    (rest = [] ∧ cs = piece) ∨ ∃ ds, cs = piece ++ '/' :: ds ∧ splitSlashes ds = rest := by
  induction cs generalizing piece with
  | nil =>
    cases h
    exact .inl ⟨rfl, rfl⟩
  | cons c cs ih =>
    by_cases hc : c = '/'
    · subst hc
      simp only [splitSlashes, List.cons.injEq] at h
      obtain ⟨rfl, rfl⟩ := h
      exact .inr ⟨cs, rfl, rfl⟩
    · obtain ⟨first, more, hpieces⟩ := List.exists_cons_of_ne_nil (splitSlashes_ne_nil cs)
      simp only [splitSlashes, hpieces, List.cons.injEq] at h
      obtain ⟨rfl, rfl⟩ := h
      rcases ih hpieces with ⟨rfl, rfl⟩ | ⟨ds, rfl, hds⟩
      · exact .inl ⟨rfl, rfl⟩
      · exact .inr ⟨ds, rfl, hds⟩

theorem segments_ne_nil (path : String) : segments path ≠ [] := by
  simpa [segments] using splitSlashes_ne_nil path.toList

theorem segments_append (a b : String) : segments (a ++ "/" ++ b) = segments a ++ segments b := by
  simp [segments, splitSlashes_append]

theorem segments_of_isName (h : isName name = true) : segments name = [name] := by
  rw [segments, splitSlashes_of_not_mem (isName_iff.mp h).2.2]
  simp

theorem segments_cons {path piece : String} {rest : List String}
    (h : segments path = piece :: rest) :
    (rest = [] ∧ path = piece) ∨ ∃ more, path = piece ++ "/" ++ more ∧ segments more = rest := by
  obtain ⟨p, ps, hsplit, rfl, rfl⟩ := List.map_eq_cons_iff.mp h
  rcases splitSlashes_cons hsplit with ⟨rfl, hp⟩ | ⟨ds, hds, hrest⟩
  · exact .inl ⟨rfl, by rw [← hp, String.ofList_toList]⟩
  · refine .inr ⟨String.ofList ds, ?_, ?_⟩
    · rw [← String.toList_inj]
      simp [hds]
    · simp [segments, hrest]

/-! ### Joining names -/

theorem not_isAbsolute {path segment : String} {rest : List String}
    (hpath : segments path = segment :: rest) (h : segment ≠ "") : isAbsolute path = false := by
  unfold isAbsolute Parts.ofPath
  rw [hpath]
  split
  · rfl
  · rfl
  · rename_i heq
    exact absurd (List.cons.inj heq).1 h
  · rfl
  · rfl

theorem join_of_relative {base path : String} (h : isAbsolute path = false) :
    join base path = if base = "" ∨ base.endsWith "/" = true then base ++ path
      else base ++ "/" ++ path := by
  simp [join, h]

theorem not_isAbsolute_of_isName (h : isName name = true) : isAbsolute name = false :=
  not_isAbsolute (segments_of_isName h) (ne_empty_of_isName h)

theorem join_empty {path : String} (h : isAbsolute path = false) : join "" path = path := by
  simp [join_of_relative h]

theorem endsWith_slash_iff {base : String} : base.endsWith "/" = true ↔ ∃ a, base = a ++ "/" := by
  rw [String.endsWith_eq_endsWith_toSlice, String.Slice.endsWith_string_iff, String.copy_toSlice]
  constructor
  · rintro ⟨cs, hcs⟩
    refine ⟨String.ofList cs, ?_⟩
    rw [← String.toList_inj, ← hcs]
    simp
  · rintro ⟨a, rfl⟩
    exact ⟨a.toList, by simp⟩

theorem not_endsWith_slash {base : String} (h : isName name = true) :
    (base ++ name).endsWith "/" = false := by
  rw [Bool.eq_false_iff, ne_eq, endsWith_slash_iff]
  rintro ⟨a, ha⟩
  have hchars := congrArg (fun s : String => s.toList.getLast?) ha
  have hlast : name.toList ≠ [] := by simpa using ne_empty_of_isName h
  simp only [String.toList_append, List.getLast?_append_of_ne_nil _ hlast] at hchars
  exact (isName_iff.mp h).2.2 (List.mem_of_getLast? (by simpa using hchars))

/-- A relative path may be joined as a whole or a name at a time. -/
theorem join_cons {base rest : String} (h : isName name = true) (hrest : isAbsolute rest = false) :
    join base (name ++ "/" ++ rest) = join (join base name) rest := by
  have hname := not_isAbsolute_of_isName h
  have hall : isAbsolute (name ++ "/" ++ rest) = false := by
    have hsegments : segments (name ++ "/" ++ rest) = name :: segments rest := by
      rw [segments_append, segments_of_isName h]
      rfl
    exact not_isAbsolute hsegments (ne_empty_of_isName h)
  have hinner : ∀ a : String, join (a ++ name) rest = a ++ name ++ "/" ++ rest := by
    intro a
    have hne : a ++ name ≠ "" := by simp [ne_empty_of_isName h]
    rw [join_of_relative hrest, if_neg (by simp [hne, not_endsWith_slash h])]
  rw [join_of_relative hall, join_of_relative hname]
  split
  · rw [hinner]
    simp [String.append_assoc]
  · rw [hinner]
    simp [String.append_assoc]

/-- A path of names is joined as its names are. -/
theorem join_eq_descend {base path : String} (h : ∀ n ∈ segments path, isName n = true) :
    join base path = descend base (segments path) := by
  generalize hsegments : segments path = names at h
  induction names generalizing base path with
  | nil => exact absurd hsegments (segments_ne_nil path)
  | cons n ns ih =>
    have hn := h n (List.mem_cons_self ..)
    rcases segments_cons hsegments with ⟨rfl, rfl⟩ | ⟨more, rfl, hmore⟩
    · rfl
    · obtain ⟨m, ms, rfl⟩ := List.exists_cons_of_ne_nil (hmore ▸ segments_ne_nil more)
      have hm := h m (List.mem_cons_of_mem _ (List.mem_cons_self ..))
      rw [join_cons hn (not_isAbsolute hmore (ne_empty_of_isName hm)),
        ih hmore fun x hx => h x (List.mem_cons_of_mem _ hx)]
      rfl

theorem eq_descend_empty {path : String} (h : ∀ n ∈ segments path, isName n = true) :
    path = descend "" (segments path) := by
  rw [← join_eq_descend h, join_empty]
  obtain ⟨n, ns, hsegments⟩ := List.exists_cons_of_ne_nil (segments_ne_nil path)
  exact not_isAbsolute hsegments (ne_empty_of_isName (h n (by simp [hsegments])))

end Path

/-! ### Where paths of names lead -/

namespace FileTree

variable {cwd names : List String} {base path name : String}

/-- A path leads one segment further than what stands before it, be that ended by a slash or not. -/
theorem placeOf_step {before : List String} (hbefore : before ≠ [])
    (hpath : Path.segments path = before ++ [name])
    (hbase : Path.segments base = before ∨ Path.segments base = before ++ [""]) :
    placeOf cwd path = FileNode.step (placeOf cwd base) name := by
  have hplace : placeOf cwd base =
      (way cwd before).2.foldl FileNode.step (way cwd before).1 := by
    rcases hbase with hbase | hbase
    · rw [placeOf, hbase]
    · rw [placeOf, hbase, way_concat hbefore, List.foldl_append]
      rfl
  rw [placeOf, hpath, way_concat hbefore, List.foldl_append, hplace]
  rfl

theorem placeOf_join (hbase : base ≠ "") (hname : Path.isName name = true) :
    placeOf cwd (Path.join base name) = FileNode.step (placeOf cwd base) name := by
  rw [Path.join_of_relative (Path.not_isAbsolute_of_isName hname)]
  split
  · rename_i h
    obtain ⟨a, rfl⟩ := Path.endsWith_slash_iff.mp (h.resolve_left hbase)
    have hempty : Path.segments "" = [""] := rfl
    have hslash : Path.segments (a ++ "/") = Path.segments a ++ [""] := by
      simpa [hempty] using Path.segments_append a ""
    refine placeOf_step (Path.segments_ne_nil a) ?_ (.inr hslash)
    rw [Path.segments_append, Path.segments_of_isName hname]
  · refine placeOf_step (Path.segments_ne_nil base) ?_ (.inl rfl)
    rw [Path.segments_append, Path.segments_of_isName hname]

theorem step_name (hname : Path.isName name = true) :
    FileNode.step names name = names ++ [name] := by
  obtain ⟨hstep, hup, -⟩ := Path.isName_iff.mp hname
  simp [FileNode.step, hstep, hup]

theorem join_ne_empty (hname : Path.isName name = true) : Path.join base name ≠ "" := by
  rw [Path.join_of_relative (Path.not_isAbsolute_of_isName hname)]
  split <;> simp [Path.ne_empty_of_isName hname]

theorem descend_ne_empty (h : ∀ n ∈ names, Path.isName n = true) (hbase : base ≠ "") :
    Path.descend base names ≠ "" := by
  induction names generalizing base with
  | nil => exact hbase
  | cons n ns ih =>
    obtain ⟨hn, hns⟩ := List.forall_mem_cons.mp h
    exact ih hns (join_ne_empty hn)

/-- Where names lead from a path, the empty one standing for the working directory. -/
def startOf (cwd : List String) (path : String) : List String :=
  if path = "" then cwd else placeOf cwd path

theorem startOf_join (hname : Path.isName name = true) :
    startOf cwd (Path.join base name) = startOf cwd base ++ [name] := by
  rw [startOf, if_neg (join_ne_empty hname)]
  by_cases hbase : base = ""
  · subst hbase
    have hhead : ([name] : List String).head? ≠ some "" := by
      simpa using Path.ne_empty_of_isName hname
    rw [Path.join_empty (Path.not_isAbsolute_of_isName hname), placeOf,
      Path.segments_of_isName hname, way_of_head hhead]
    exact step_name hname
  · rw [placeOf_join hbase hname, step_name hname, startOf, if_neg hbase]

theorem startOf_descend (h : ∀ n ∈ names, Path.isName n = true) :
    startOf cwd (Path.descend base names) = startOf cwd base ++ names := by
  induction names generalizing base with
  | nil => simp [Path.descend]
  | cons n ns ih =>
    obtain ⟨hn, hns⟩ := List.forall_mem_cons.mp h
    have hrest : startOf cwd (Path.descend (Path.join base n) ns) = _ := ih hns
    rw [startOf_join hn, List.append_assoc] at hrest
    exact hrest

theorem placeOf_descend (h : ∀ n ∈ names, Path.isName n = true) (hbase : base ≠ "") :
    placeOf cwd (Path.descend base names) = placeOf cwd base ++ names := by
  have hstart : startOf cwd (Path.descend base names) = _ := startOf_descend h
  rwa [startOf, startOf, if_neg (descend_ne_empty h hbase), if_neg hbase] at hstart

/-- Two paths to one file that are made of names from one start are the same. -/
theorem SameFile.eq_of_under {a b : String} (h : SameFile cwd a b) (ha : Path.Under base a)
    (hb : Path.Under base b) (hane : a ≠ "") (hbne : b ≠ "") : a = b := by
  obtain ⟨names, hnames, rfl⟩ := ha
  obtain ⟨others, hothers, rfl⟩ := hb
  have hstart : startOf cwd (Path.descend base names) = startOf cwd (Path.descend base others) := by
    rw [startOf, startOf, if_neg hane, if_neg hbne]
    exact h
  rw [startOf_descend hnames, startOf_descend hothers] at hstart
  rw [List.append_cancel_left hstart]

end FileTree

end Phrasebook
