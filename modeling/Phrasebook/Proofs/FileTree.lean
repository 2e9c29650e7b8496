import Mathlib.Data.List.Nodup
import Phrasebook.FileTree
import Phrasebook.Proofs.Pairs

/-!
A file that was written is found where it was put.
-/
namespace Phrasebook

theorem exists_of_bind_ok {ε α β : Type} {x : Except ε α} {f : α → Except ε β} {b : β}
    (h : x >>= f = .ok b) : ∃ a, x = .ok a ∧ f a = .ok b := by
  cases x with
  | error e => cases h
  | ok a => exact ⟨a, rfl, h⟩

namespace FileNode

variable {t new : FileNode} {names parent : List String} {name : String}
  {entries : List (String × FileNode)}

theorem at?_dir_cons (entries : List (String × FileNode)) (name : String) (names : List String) :
    (dir entries).at? (name :: names) = (entries.lookup name).bind (·.at? names) := by
  rw [at?]
  cases entries.lookup name <;> rfl

theorem at?_append (t : FileNode) (names others : List String) :
    t.at? (names ++ others) = (t.at? names).bind (·.at? others) := by
  induction names generalizing t with
  | nil => rfl
  | cons name names ih =>
    cases t with
    | file c => rfl
    | dir entries =>
      rw [List.cons_append, at?_dir_cons, at?_dir_cons, Option.bind_assoc]
      exact congrArg _ (funext fun u => ih u)

theorem at?_put_self (h : t.at? parent = some (.dir entries)) (name : String) :
    (put new t (parent ++ [name])).at? (parent ++ [name]) = some new := by
  induction parent generalizing t with
  | nil =>
    obtain rfl : t = .dir entries := by simpa [at?] using h
    rw [List.nil_append, put]
    cases entries.lookup name <;> simp [put, at?, Text.lookup_putKey_self]
  | cons x xs ih =>
    cases t with
    | file c => simp [at?] at h
    | dir below =>
      rw [at?_dir_cons, Option.bind_eq_some_iff] at h
      obtain ⟨u, hu, hdir⟩ := h
      rw [List.cons_append, put, hu]
      simp only [at?_dir_cons, Text.lookup_putKey_self, Option.bind_some]
      exact ih hdir

/-- With a new entry of a directory, a directory below it is still there and has lost no name, if
this is so inside the entry itself. -/
theorem at?_putKey_dir {below : List (String × FileNode)} {others : List String}
    (hdir : (dir below).at? others = some (.dir entries)) (name : String) (new : FileNode)
    (hnew : ∀ rest, others = name :: rest → ∃ es, new.at? rest = some (.dir es) ∧
      ∀ k, (entries.lookup k).isSome → (es.lookup k).isSome) :
    ∃ es, (dir (Text.putKey name new below)).at? others = some (.dir es) ∧
      ∀ k, (entries.lookup k).isSome → (es.lookup k).isSome := by
  cases others with
  | nil =>
    obtain rfl : below = entries := by simpa [at?] using hdir
    refine ⟨_, rfl, fun k hk => ?_⟩
    by_cases hkn : k = name
    · simp [hkn, Text.lookup_putKey_self]
    · rwa [Text.lookup_putKey_of_ne hkn]
  | cons m ms =>
    rw [at?_dir_cons] at hdir ⊢
    by_cases hmn : m = name
    · subst hmn
      rw [Text.lookup_putKey_self]
      exact hnew ms rfl
    · rw [Text.lookup_putKey_of_ne hmn, hdir]
      exact ⟨entries, rfl, fun _ => id⟩

/-- A directory stays one when something is put where no directory is, and it loses no name. -/
theorem at?_put_dir (hplace : ∀ es, t.at? names ≠ some (.dir es)) {others : List String}
    (hdir : t.at? others = some (.dir entries)) (new : FileNode) :
    ∃ es, (put new t names).at? others = some (.dir es) ∧
      ∀ k, (entries.lookup k).isSome → (es.lookup k).isSome := by
  induction names generalizing t others with
  | nil =>
    cases t with
    | dir es => exact absurd rfl (hplace es)
    | file c => cases others <;> simp [at?] at hdir
  | cons n ns ih =>
    cases t with
    | file c => cases others <;> simp [at?] at hdir
    | dir below =>
      rw [put]
      cases hn : below.lookup n with
      | some u =>
        refine at?_putKey_dir hdir n _ ?_
        rintro rest rfl
        rw [at?_dir_cons, hn, Option.bind_some] at hdir
        refine ih ?_ hdir
        intro es he
        exact hplace es (by rw [at?_dir_cons, hn, Option.bind_some, he])
      | none =>
        by_cases hlast : ns.isEmpty
        · simp only [hlast, if_true]
          refine at?_putKey_dir hdir n _ ?_
          rintro rest rfl
          rw [at?_dir_cons, hn] at hdir
          cases hdir
        · simp only [hlast, Bool.false_eq_true, if_false]
          exact ⟨entries, hdir, fun _ => id⟩

/-- A way that leads somewhere still does after something is put where no directory is. -/
theorem follow_put (hplace : ∀ es, t.at? names ≠ some (.dir es)) (new : FileNode)
    {start stop : List String} {segment : String} (h : t.follow start segment = .ok stop) :
    (put new t names).follow start segment = .ok stop := by
  unfold follow at h ⊢
  cases hat : t.at? start with
  | none => simp [hat] at h
  | some node =>
    cases node with
    | file c => simp [hat] at h
    | dir entries =>
      obtain ⟨es, hes, hlookup⟩ := at?_put_dir hplace hat new
      simp only [hat, hes] at h ⊢
      cases hin : (entries.lookup segment).isSome with
      | true => simpa only [hin, hlookup segment hin] using h
      | false =>
        simp only [hin, Bool.false_eq_true, if_false] at h
        split_ifs at h ⊢ <;> exact h

theorem foldlM_follow_put (hplace : ∀ es, t.at? names ≠ some (.dir es)) (new : FileNode)
    {segments start stop : List String} (h : segments.foldlM t.follow start = .ok stop) :
    segments.foldlM (put new t names).follow start = .ok stop := by
  induction segments generalizing start with
  | nil => exact h
  | cons segment rest ih =>
    rw [List.foldlM_cons] at h ⊢
    obtain ⟨next, hfollow, hrest⟩ := exists_of_bind_ok h
    rw [follow_put hplace new hfollow]
    exact ih hrest

end FileNode

namespace FileTree

variable {t u : FileTree} {names : List String} {content : Content} {path : String}

/-- Where a path starts, seen from a directory, and the segments that it goes on with. -/
def way (cwd : List String) : List String → List String × List String
  | "" :: rest => ([], rest)
  | segments => (cwd, segments)

theorem way_of_head {cwd segments : List String} (hhead : segments.head? ≠ some "") :
    way cwd segments = (cwd, segments) := by
  unfold way
  split
  · exact absurd rfl hhead
  · rfl

/-- What stands before the last segment starts where the whole does. -/
theorem way_concat {cwd before : List String} (hbefore : before ≠ []) (last : String) :
    way cwd (before ++ [last]) = ((way cwd before).1, (way cwd before).2 ++ [last]) := by
  obtain ⟨first, rest, rfl⟩ := List.exists_cons_of_ne_nil hbefore
  by_cases hfirst : first = ""
  · subst hfirst
    rfl
  · rw [way_of_head (by simpa using hfirst), way_of_head (by simpa using hfirst)]

/-- Segments are followed from where they start. -/
theorem locateAll_eq {segments : List String} (hne : segments ≠ []) (hempty : segments ≠ [""]) :
    t.locateAll segments = (way t.cwd segments).2.foldlM t.root.follow (way t.cwd segments).1 := by
  unfold locateAll way
  split
  · exact absurd rfl hne
  · exact absurd rfl hempty
  · rfl
  · rename_i hslash
    split
    · exact absurd rfl (hslash _)
    · rfl

theorem locateParent_eq {before : List String} {last : String} (hlast : last ≠ "") :
    t.locateParent (before ++ [last]) =
      (way t.cwd (before ++ [last])).2.dropLast.foldlM t.root.follow
        (way t.cwd (before ++ [last])).1 := by
  unfold locateParent
  rw [List.dropLast_concat]
  split
  · rw [List.nil_append, way_of_head (by simpa using hlast)]
    rfl
  · rfl
  · rename_i hnil hslash
    rw [locateAll_eq hnil hslash, way_concat hnil, List.dropLast_concat]

/-- Where something can be put: in a directory that is there, under a name. -/
theorem target?_some {target : Target} (h : t.target? path = .ok (some target)) :
    t.locateParent (trimSlashes (Path.segments path)) = .ok target.parent ∧
      (∃ entries, t.root.at? target.parent = some (.dir entries)) ∧
      (trimSlashes (Path.segments path)).getLast? = some target.name ∧
      Path.isStep target.name = true ∧ target.name ≠ ".." := by
  unfold target? at h
  simp only at h
  split at h
  · split at h <;> cases h
  · rename_i name hname
    obtain ⟨parent, hparent, hfound⟩ := exists_of_bind_ok h
    split at hfound
    · cases hfound
    · cases hfound
    · rename_i entries hat
      split_ifs at hfound with hstep
      · cases hfound
        simp only [Bool.and_eq_true, bne_iff_ne] at hstep
        exact ⟨hparent, ⟨entries, hat⟩, hname, hstep⟩
      · cases hfound

theorem trimSlashes_concat (before : List String) {last : String} (hlast : last ≠ "") :
    trimSlashes (before ++ [last]) = before ++ [last] := by
  simp [trimSlashes, hlast]

/-- What writing a file comes to: it is put under a name in a directory that the path leads to. -/
theorem writeContent_ok (h : t.writeContent path content = .ok u) :
    ∃ before name parent entries, checkPath path = .ok () ∧
      (way t.cwd (Path.segments path)).2 = before ++ [name] ∧
      before.foldlM t.root.follow (way t.cwd (Path.segments path)).1 = .ok parent ∧
      t.root.at? parent = some (.dir entries) ∧
      Path.isStep name = true ∧ name ≠ ".." ∧ FileNode.isTooLong name = false ∧
      (∀ es, t.root.at? (parent ++ [name]) ≠ some (.dir es)) ∧
      u = { t with root := .put (.file content) t.root (parent ++ [name]) } := by
  obtain ⟨⟨⟩, hpath, h⟩ := exists_of_bind_ok h
  obtain ⟨target, htarget, h⟩ := exists_of_bind_ok h
  cases target with
  | none => cases h
  | some target =>
    simp only at h
    split_ifs at h with hslash hlong
    have hcontent : (∀ es, t.root.at? target.names ≠ some (.dir es)) ∧
        u = { t with root := .put (.file content) t.root target.names } := by
      split at h
      · cases h
      · rename_i hno
        exact ⟨fun es he => hno es he, (Except.ok.inj h).symm⟩
    obtain ⟨hparent, ⟨entries, hdir⟩, hname, hstep, hup⟩ := target?_some htarget
    -- No slash stands at the end, so nothing was trimmed.
    rcases List.eq_nil_or_concat (Path.segments path) with hnil | ⟨before, last, hsegments⟩
    · rw [hnil] at hname
      cases hname
    · rw [List.concat_eq_append] at hsegments
      have hlast : last ≠ "" := by simpa [hsegments] using hslash
      rw [hsegments, trimSlashes_concat before hlast] at hparent hname
      obtain rfl : last = target.name := by simpa using hname
      rw [locateParent_eq hlast] at hparent
      have hway : (way t.cwd (before ++ [target.name])).2 =
          (way t.cwd (before ++ [target.name])).2.dropLast ++ [target.name] := by
        cases before with
        | nil =>
          rw [List.nil_append, way_of_head (by simpa using hlast)]
          rfl
        | cons first rest => rw [way_concat (by simp), List.dropLast_concat]
      rw [hsegments]
      exact ⟨_, target.name, target.parent, entries, hpath, hway, hparent, hdir, hstep, hup,
        by simpa using hlong, hcontent.1, hcontent.2⟩

/-- What was written to a path is found there. -/
theorem get_of_writeContent (h : t.writeContent path content = .ok u) :
    u.get path = .ok (.file content) := by
  obtain ⟨before, name, parent, entries, hpath, hway, hbefore, hdir, hstep, hup, hlong, hplace,
    rfl⟩ := writeContent_ok h
  obtain ⟨es, hes, -⟩ := FileNode.at?_put_dir hplace hdir (.file content)
  have hself : (FileNode.put (.file content) t.root (parent ++ [name])).at? (parent ++ [name]) =
      some (.file content) := FileNode.at?_put_self hdir name
  have hlookup : (es.lookup name).isSome := by
    have hfound := hself
    rw [FileNode.at?_append, hes, Option.bind_some, FileNode.at?_dir_cons,
      Option.bind_eq_some_iff] at hfound
    obtain ⟨node, hnode, -⟩ := hfound
    exact Option.isSome_of_mem hnode
  have hlast : (FileNode.put (.file content) t.root (parent ++ [name])).follow parent name =
      .ok (parent ++ [name]) := by
    simp [FileNode.follow, hes, hstep, hup, hlong, hlookup]
  have hlocate : ({ t with root := .put (.file content) t.root (parent ++ [name]) } :
      FileTree).locate path = .ok (parent ++ [name]) := by
    rw [locate, hpath]
    change locateAll _ _ = _
    have hsome : ∀ segments, (way t.cwd segments).2 = [] → Path.segments path ≠ segments := by
      rintro segments hnone rfl
      simp [hnone] at hway
    rw [locateAll_eq (hsome [] rfl) (hsome [""] rfl)]
    change (way t.cwd _).2.foldlM _ (way t.cwd _).1 = _
    rw [hway, List.foldlM_append, FileNode.foldlM_follow_put hplace (.file content) hbefore]
    exact (bind_pure _).trans hlast
  simp [get, hlocate, hself, bind, Except.bind, pure, Except.pure]

/-- The text that was written to a path is what is read from it. -/
theorem readText_of_write {text : String} (h : t.write path text = .ok u) :
    u.pathExists path = true ∧ u.readText path = .ok text := by
  have hget := get_of_writeContent h
  refine ⟨by rw [pathExists, hget]; rfl, ?_⟩
  rw [readText, hget]
  rfl

end FileTree

end Phrasebook
