import Mathlib.Data.String.Basic
import Phrasebook.Project
import Phrasebook.Proofs.Accounting
import Phrasebook.Proofs.FileTree
import Phrasebook.Proofs.Json

/-!
A table that was saved is loaded again as it was: with the same entries, and each signature found
under the same key.

A loaded table finds a signature under the least of its keys. Extraction stores a message only if
its signature is new, so this stays so, and a table with these entries has no other way to be
indexed.
-/
namespace Phrasebook

namespace Text

variable {α : Type} {key : String} {value : α} {pairs : List (String × α)}

/-- Each key comes after those before it. -/
def Ascending (pairs : List (String × α)) : Prop := (pairs.map (·.1)).Pairwise (· < ·)

theorem mem_keys_putKey {other : String} :
    other ∈ (putKey key value pairs).map (·.1) ↔ other = key ∨ other ∈ pairs.map (·.1) := by
  rw [← isSome_lookup_iff, ← isSome_lookup_iff]
  by_cases hkey : other = key
  · simp [hkey, lookup_putKey_self]
  · simp [hkey, lookup_putKey_of_ne hkey]

theorem Ascending.putKey (h : Ascending pairs) (key : String) (value : α) :
    Ascending (putKey key value pairs) := by
  induction pairs with
  | nil => exact List.pairwise_singleton ..
  | cons p rest ih =>
    obtain ⟨k, v⟩ := p
    have h' := h
    rw [Ascending, List.map_cons, List.pairwise_cons] at h'
    obtain ⟨hfirst, hrest⟩ := h'
    unfold Text.putKey
    by_cases hlt : key < k
    · simp only [hlt, if_true]
      refine List.pairwise_cons.mpr ⟨?_, h⟩
      rintro other (_ | ⟨_, hother⟩)
      · exact hlt
      · exact hlt.trans (hfirst other hother)
    · by_cases heq : key = k
      · subst heq
        simp only [hlt, beq_self_eq_true, if_true, if_false]
        exact h
      · have hbeq : (key == k) = false := beq_false_of_ne heq
        simp only [hlt, hbeq, Bool.false_eq_true, if_false]
        refine List.pairwise_cons.mpr ⟨?_, ih hrest⟩
        intro other hother
        rcases mem_keys_putKey.mp hother with rfl | hother
        · exact lt_of_le_of_ne (not_lt.mp hlt) (Ne.symm heq)
        · exact hfirst other hother

theorem ascending_sortKeys (pairs : List (String × α)) : Ascending (sortKeys pairs) := by
  have hfold : ∀ sorted : List (String × α), Ascending sorted →
      Ascending (pairs.foldl (fun sorted p => Text.putKey p.1 p.2 sorted) sorted) := by
    induction pairs with
    | nil => exact fun sorted h => h
    | cons p rest ih => exact fun sorted h => ih _ (h.putKey p.1 p.2)
  exact hfold [] List.Pairwise.nil

theorem putKey_last (hlast : ∀ p ∈ pairs, p.1 < key) (value : α) :
    putKey key value pairs = pairs ++ [(key, value)] := by
  induction pairs with
  | nil => rfl
  | cons p rest ih =>
    obtain ⟨k, v⟩ := p
    have hk : k < key := hlast _ (List.mem_cons_self ..)
    have hbeq : (key == k) = false := beq_false_of_ne hk.ne'
    unfold Text.putKey
    simp only [hk.not_gt, hbeq, Bool.false_eq_true, if_false, List.cons_append,
      ih fun q hq => hlast q (List.mem_cons_of_mem _ hq)]

/-- Pairs that are in order stay as they are. -/
theorem Ascending.sortKeys_eq (h : Ascending pairs) : sortKeys pairs = pairs := by
  have hfold : ∀ sorted : List (String × α), Ascending (sorted ++ pairs) →
      pairs.foldl (fun sorted p => Text.putKey p.1 p.2 sorted) sorted = sorted ++ pairs := by
    induction pairs with
    | nil => simp
    | cons p rest ih =>
      intro sorted hsorted
      have hlast : ∀ q ∈ sorted, q.1 < p.1 := by
        intro q hq
        rw [Ascending, List.map_append, List.pairwise_append] at hsorted
        exact hsorted.2.2 _ (List.mem_map_of_mem hq) _ (List.mem_cons_self ..)
      have hnext : sorted ++ p :: rest = sorted ++ [p] ++ rest := List.append_cons ..
      rw [hnext] at hsorted ⊢
      rw [List.foldl_cons, putKey_last hlast]
      exact ih (List.Pairwise.tail h) _ hsorted
  exact hfold [] h

theorem trim_ne_empty {text : String} {c : Char} {cs : List Char} (htext : text.toList = c :: cs)
    (hc : isWhite c = false) : trim text ≠ "" := by
  intro htrim
  have hlist : dropEndWhile isWhite (c :: cs) = [] := by
    have h := congrArg String.toList htrim
    simpa [trim, htext, hc] using h
  rw [dropEndWhile, List.reverse_eq_nil_iff, List.dropWhile_eq_nil_iff] at hlist
  rw [hlist c (by simp)] at hc
  cases hc

theorem Ascending.nodup (h : Ascending pairs) : (pairs.map (·.1)).Nodup :=
  h.imp fun hlt => hlt.ne

end Text

/-! ### The least key of a signature -/

namespace Table

variable {start t u : Table} {key : String} {entry : Entry} {keys : List String}

/-- A signature leads to no key but the first one of those that hold it. -/
def Leads (t : Table) : Prop :=
  ∀ p ∈ t.index, ∀ key entry, t.get? key = some entry → entry.signature = p.1 → p.2 ≤ key

theorem Leads.put (h : t.Leads) (hcomplete : t.Complete)
    (hfirst : ∀ p ∈ t.index, p.1 = entry.signature → p.2 ≤ key) : (t.put key entry).Leads := by
  intro p hp k e he hsig
  have hold : p ∈ t.index → p.2 ≤ k := by
    intro hin
    by_cases hk : k = key
    · subst hk
      rw [get?_put_self, Option.some.injEq] at he
      exact hfirst p hin (by rw [he, hsig])
    · rw [get?_put_of_ne hk] at he
      exact h p hin k e he hsig
  cases hfind : t.find? entry.signature with
  | some first =>
    have hindex : (t.put key entry).index = t.index := by
      rw [find?] at hfind
      simp [Table.put, putIndex, hfind]
    exact hold (hindex ▸ hp)
  | none =>
    rcases mem_putIndex hp with hin | rfl
    · exact hold hin
    · by_cases hk : k = key
      · exact hk.ge
      · rw [get?_put_of_ne hk] at he
        have hfound := hcomplete k e he
        rw [hsig, hfind] at hfound
        cases hfound

theorem Leads.rollback (h : t.Leads) (keys : List String) : (t.rollback keys).Leads := by
  intro p hp k e he hsig
  rw [get?_rollback] at he
  split at he
  · cases he
  · exact h p (List.mem_filter.mp hp).1 k e he hsig

/-- A table whose entries are in order and found each under the least key of its signature. -/
structure Orderly (t : Table) : Prop where
  linked : t.Linked
  complete : t.Complete
  leads : t.Leads
  ascending : Text.Ascending t.entries

/-- The entries alone determine what is found. -/
theorem Orderly.find?_eq (ht : t.Orderly) (hu : u.Orderly) (hentries : t.entries = u.entries)
    (sig : Signature) : t.find? sig = u.find? sig := by
  have hget : ∀ key, t.get? key = u.get? key := by
    intro key
    rw [get?, hentries, get?]
  cases hfind : t.find? sig with
  | some key =>
    obtain ⟨e, he, hsig⟩ := ht.linked.sound sig key hfind
    obtain ⟨other, hother⟩ := Option.isSome_iff_exists.mp (hsig ▸ hu.complete key e (hget key ▸ he))
    obtain ⟨e', he', hsig'⟩ := hu.linked.sound sig other hother
    have hle : key ≤ other :=
      ht.leads _ (Text.mem_of_lookup hfind) other e' (hget other ▸ he') hsig'
    have hge : other ≤ key :=
      hu.leads _ (Text.mem_of_lookup hother) key e (hget key ▸ he) hsig
    rw [hother, le_antisymm hle hge]
  | none =>
    cases hother : u.find? sig with
    | none => rfl
    | some other =>
      obtain ⟨e, he, hsig⟩ := hu.linked.sound sig other hother
      have hfound := ht.complete other e (hget other ▸ he)
      rw [hsig, hfind] at hfound
      cases hfound

theorem entries_ofEntries (entries : List (String × Entry)) :
    (ofEntries entries).entries = Text.sortKeys entries := by
  have hfold : ∀ t : Table, (entries.foldl (fun t p => t.put p.1 p.2) t).entries =
      entries.foldl (fun sorted p => Text.putKey p.1 p.2 sorted) t.entries := by
    induction entries with
    | nil => exact fun t => rfl
    | cons p rest ih => exact fun t => ih (t.put p.1 p.2)
  exact hfold {}

theorem leads_ofEntries {entries : List (String × Entry)} (h : Text.Ascending entries) :
    (ofEntries entries).Leads := by
  have hfold : ∀ t : Table, t.Indexed → t.Leads →
      (∀ k ∈ t.keys, ∀ p ∈ entries, k < p.1) →
      (entries.foldl (fun t p => t.put p.1 p.2) t).Leads := by
    induction entries with
    | nil => exact fun t _ hleads _ => hleads
    | cons p rest ih =>
      intro t hindexed hleads hlast
      have hafter := List.pairwise_cons.mp h
      refine ih hafter.2 _ (hindexed.put p.1 p.2) (hleads.put hindexed.found ?_) ?_
      · intro q hq _
        exact (hlast _ (contains_iff.mp (hindexed.held q hq)) p (List.mem_cons_self ..)).le
      · intro k hk q hq
        rcases contains_put.mp (contains_iff.mpr hk) with rfl | hk
        · exact hafter.1 _ (List.mem_map_of_mem hq)
        · exact hlast k (contains_iff.mp hk) q (List.mem_cons_of_mem _ hq)
  exact hfold {} ⟨by simp [Complete, get?], by simp⟩ (by simp [Leads]) (by simp [Table.keys])

theorem orderly_ofEntries {entries : List (String × Entry)} (h : Text.Ascending entries) :
    (ofEntries entries).Orderly where
  linked := linked_ofEntries h.nodup
  complete := (indexed_ofEntries entries).found
  leads := leads_ofEntries h
  ascending := by
    rw [entries_ofEntries]
    exact Text.ascending_sortKeys entries

theorem Gains.leads (h : Gains t keys u) (hcomplete : t.Complete) (hleads : t.Leads) :
    u.Leads := by
  induction h with
  | start => exact hleads
  | put key entry hgains _ hnew ih =>
    refine ih.put (hgains.complete hcomplete) ?_
    intro p hp hsig
    have hfound : (List.lookup p.1 _).isSome := Text.isSome_lookup_iff.mpr (List.mem_map_of_mem hp)
    rw [hsig] at hfound
    rw [find?] at hnew
    rw [hnew] at hfound
    cases hfound

theorem Gains.ascending (h : Gains t keys u) (hentries : Text.Ascending t.entries) :
    Text.Ascending u.entries := by
  induction h with
  | start => exact hentries
  | put key entry _ _ _ ih => exact ih.putKey key entry

theorem History.orderly {past : List (List String)} (h : History start past t)
    (htended : Tended start start) (horderly : start.Orderly) : t.Orderly := by
  have hall := (h.tended htended).1
  suffices t.Leads ∧ Text.Ascending t.entries from
    ⟨hall.linked, hall.complete, this.1, this.2⟩
  clear hall
  induction h with
  | start => exact ⟨horderly.leads, horderly.ascending⟩
  | @extracted γ past t code file options generate state hbefore ih =>
    have hindexed := (hbefore.tended htended).1.indexed
    cases hresult : (extract code file options generate t state).result with
    | error fault => rwa [extract_error hindexed hresult]
    | ok outcome =>
      have hgains := (extract_gains hindexed.found hresult).1
      exact ⟨hgains.leads hindexed.found ih.1, hgains.ascending ih.2⟩
  | undone _ _ ih =>
    exact ⟨ih.1.rollback _, ih.2.sublist (List.filter_sublist.map _)⟩

end Table

/-! ### Saving and loading -/

open Json (Value)

theorem legible_texts (texts : List String) : (Value.texts texts).Legible 1 := by
  refine .list ?_
  intro item hitem
  obtain ⟨text, -, rfl⟩ := List.mem_map.mp hitem
  exact .text text

theorem Entry.legible_toJson (e : Entry) : e.toJson.Legible 2 := by
  refine .object (by simp) ?_
  simp only [List.forall_mem_cons]
  exact ⟨.text _, .text _, legible_texts _, List.forall_mem_nil _⟩

theorem toTexts_texts (texts : List String) : (Value.texts texts).toTexts = .ok texts := by
  have hmap : (texts.map Value.text).mapM Value.toText = .ok texts := by
    induction texts with
    | nil => rfl
    | cons text rest ih =>
      rw [List.map_cons, List.mapM_cons, ih]
      rfl
  exact hmap

theorem Entry.ofJson_toJson (e : Entry) : Entry.ofJson e.toJson = .ok e := by
  have htexts := toTexts_texts e.interpolations
  simp [Entry.ofJson, Entry.toJson, Entry.Draft.add, Value.toText, htexts, Entry.Draft.entry, bind,
    Except.bind, pure, Except.pure]

namespace Table

variable {t : Table}

theorem legible_toJson (h : Text.Ascending t.entries) : t.toJson.Legible 3 := by
  refine .object ?_ ?_
  · simpa [Function.comp_def] using h.nodup
  · intro m hm
    obtain ⟨p, -, rfl⟩ := List.mem_map.mp hm
    exact p.2.legible_toJson

theorem ofMembers_toJson (h : Text.Ascending t.entries) :
    ofMembers (t.entries.map fun (key, e) => (key, e.toJson)) = .ok (ofEntries t.entries) := by
  have hmap : ∀ entries : List (String × Entry),
      (entries.map fun p => (p.1, p.2.toJson)).mapM
        (fun m : String × Value => do return (m.1, ← Entry.ofJson m.2)) =
      (.ok entries : Except Json.Problem _) := by
    intro entries
    induction entries with
    | nil => rfl
    | cons p rest ih =>
      rw [List.map_cons, List.mapM_cons, ih, Entry.ofJson_toJson]
      rfl
  have hmembers := hmap t.entries
  simp only [ofMembers]
  rw [hmembers]
  change Except.ok (ofEntries (Text.sortKeys t.entries)) = _
  rw [h.sortKeys_eq]

/-- The text of a table is read as a table with its entries. -/
theorem read_toJson (h : Text.Ascending t.entries) (path : String) :
    read path (jsonFile t.toJson) = .ok (ofEntries t.entries) := by
  have htext : (jsonFile t.toJson).toList = t.toJson.print.toList ++ ['\n'] := by
    simp [jsonFile]
  have hwhite : ∀ c ∈ ['\n'], Json.isSpace c = true := by simp [Json.isSpace]
  have hdepth : 3 < Json.depthLimit := by decide
  have hparse := Json.parse_print (legible_toJson h) hdepth hwhite htext
  obtain ⟨cs, hcs⟩ : ∃ cs, t.toJson.print.toList = '\x7b' :: cs := by
    unfold toJson Value.print
    cases t.entries.map _ with
    | nil => exact ⟨_, Json.toList_printAt_object_nil 0⟩
    | cons m rest => exact ⟨_, Json.toList_printAt_object 0 m rest⟩
  have htrim : Text.trim (jsonFile t.toJson) ≠ "" := by
    rw [hcs] at htext
    exact Text.trim_ne_empty htext (by decide)
  rw [read, if_neg (by simpa using htrim), hparse]
  simp only [toJson]
  rw [ofMembers_toJson h]

/-- A loaded table is one of entries in order. -/
theorem load_ok {tree : FileTree} {path : String} (h : load tree path = .ok t) :
    ∃ entries, Text.Ascending entries ∧ t = ofEntries entries := by
  have hempty : ∃ entries, Text.Ascending entries ∧ ({} : Table) = ofEntries entries :=
    ⟨[], List.Pairwise.nil, rfl⟩
  unfold load read at h
  split at h
  · cases h
    exact hempty
  · split at h
    · cases h
    · split at h
      · cases h
        exact hempty
      · split at h
        · cases h
        · split at h
          · cases h
          · rename_i members _ u hmembers
            cases h
            obtain ⟨entries, -, hentries⟩ := exists_of_bind_ok hmembers
            cases hentries
            exact ⟨_, Text.ascending_sortKeys entries, rfl⟩
        · cases h

end Table

theorem writeJson_ok {tree saved : FileTree} {path : String} {v : Value}
    (h : writeJson FileTree.disk tree path v = (.ok (), saved)) :
    ∃ before : FileTree, before.write path (jsonFile v) = .ok saved := by
  unfold writeJson at h
  split at h
  · cases h
  · rename_i before _
    refine ⟨before, ?_⟩
    simp only [FileTree.disk] at h
    cases hwrite : before.write path (jsonFile v) with
    | error cause =>
      rw [hwrite] at h
      cases h
    | ok new =>
      rw [hwrite] at h
      cases h
      rfl

/-- Whatever was extracted and taken out since a table was loaded, its text is read back, from any
file that it is saved to, as a table with the same entries that finds every signature under the same
key. -/
theorem saved_table_loads_alike {tree : FileTree} {path : String} {start : Table}
    (hstart : Table.load tree path = .ok start) {past : List (List String)} {t : Table}
    (ht : Table.History start past t) :
    ∃ loaded : Table, loaded.entries = t.entries ∧ (∀ sig, loaded.find? sig = t.find? sig) ∧
      (∀ file, Table.read file (jsonFile t.toJson) = .ok loaded) ∧
      ∀ before after file, writeJson FileTree.disk before file t.toJson = (.ok (), after) →
        Table.load after file = .ok loaded := by
  obtain ⟨entries, hascending, rfl⟩ := Table.load_ok hstart
  have horderly := ht.orderly (Table.tended_ofEntries hascending.nodup)
    (Table.orderly_ofEntries hascending)
  have hentries : (Table.ofEntries t.entries).entries = t.entries := by
    rw [Table.entries_ofEntries, horderly.ascending.sortKeys_eq]
  refine ⟨.ofEntries t.entries, hentries, ?_, fun file => Table.read_toJson horderly.ascending file,
    ?_⟩
  · exact (Table.orderly_ofEntries horderly.ascending).find?_eq horderly hentries
  · intro before after file hsave
    obtain ⟨middle, hwrite⟩ := writeJson_ok hsave
    obtain ⟨hexists, hread⟩ := FileTree.readText_of_write hwrite
    simp only [Table.load, hexists, hread, Bool.not_true, Bool.false_eq_true, if_false]
    exact Table.read_toJson horderly.ascending file

/-- A key with a quote and a text with a control character, and a second text that extraction adds
to them. -/
theorem saved_table_loads_alike_escapes :
    let text := "\x7b\"a\\\"b\": \x7b\"text\": \"确\\u0001定\", \"sourceFile\": \"\"\x7d\x7d"
    let tree : FileTree := .ofNode (.dir [("texts.json", .file (.text text))]) ["app"]
    let start := Table.ofEntries [("a\"b", ⟨"确\x01定", "", []⟩)]
    let x := extract "f(\"完\\\\成\")" ⟨"b.ts", .component⟩ {} (sameKey "a\"b") start ()
    let saved := writeJson FileTree.disk tree "out/texts.json" x.table.toJson
    Table.load tree "texts.json" = .ok start ∧ saved.1 = .ok () ∧
      x.table.messages = [("a\"b", "确\x01定"), ("a\"b_2", "完\\成")] ∧
      ∃ loaded, Table.load saved.2 "out/texts.json" = .ok loaded ∧
        loaded.entries = x.table.entries ∧ ∀ sig, loaded.find? sig = x.table.find? sig := by
  intro text tree start x saved
  obtain ⟨hload, hsaved, hmessages⟩ : (Table.load tree "texts.json").toOption = some start ∧
      saved.1.toOption = some () ∧
      x.table.messages = [("a\"b", "确\x01定"), ("a\"b_2", "完\\成")] := by
    decide +kernel
  have hstart := eq_ok_of_toOption hload
  have hsave := eq_ok_of_toOption hsaved
  have hgrown : Table.History start [x.added] x.table := .extracted _ _ _ _ _ .start
  obtain ⟨loaded, hentries, hfind, -, hloaded⟩ := saved_table_loads_alike hstart hgrown
  exact ⟨hstart, hsave, hmessages, loaded, hloaded _ _ _ (Prod.ext hsave rfl), hentries, hfind⟩

end Phrasebook
