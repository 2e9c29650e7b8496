import Phrasebook.Proofs.SlotNaming

/-!
Naming slot after slot. Whatever the slots are called and in whichever order they come, the search
for a free name ends, and names and source texts determine each other.
-/
namespace Phrasebook

/-- What a slot is named and bound from. -/
structure SlotRequest where
  base : String
  source : String
  value : String
  shorthand : Bool
deriving DecidableEq, Repr

namespace SlotNames

variable {n : SlotNames} {r : SlotRequest}

/-! ### The search for a free name -/

/-- The search from `name` on ends with `found`. The next name to try has the number `next`. -/
inductive Seeks (taken : List String) (base : String) : String → Nat → String → Prop
  | free {name : String} {next : Nat} (hfree : name ∉ taken) : Seeks taken base name next name
  | again {name : String} {next : Nat} {found : String} (htaken : name ∈ taken)
      (hrest : Seeks taken base (base ++ toString next) (next + 1) found) :
      Seeks taken base name next found

/-- Names tried one after the other are those of a list in order. -/
theorem Seeks.of_find? {taken : List String} {base name found : String} {next count : Nat}
    (htaken : name ∈ taken)
    (hfind : ((List.range' next count).map fun i => base ++ toString i).find?
      (!taken.contains ·) = some found) : Seeks taken base name next found := by
  induction count generalizing name next with
  | zero => simp at hfind
  | succ count ih =>
    refine .again htaken ?_
    rw [List.range'_succ, List.map_cons] at hfind
    by_cases hnext : base ++ toString next ∈ taken
    · rw [List.find?_cons_of_neg (by simpa using hnext)] at hfind
      exact ih hnext hfind
    · rw [List.find?_cons_of_pos (by simpa using hnext)] at hfind
      cases hfind
      exact .free hnext

theorem seeks_freeName (taken : List String) (base : String) :
    Seeks taken base base 2 (freeName taken base) := by
  have hfree := freeName_not_mem taken base
  by_cases hbase : base ∈ taken
  · have hnumbers : (List.range taken.length).map (fun i => base ++ toString (i + 2)) =
        (List.range' 2 taken.length).map fun i => base ++ toString i := by
      rw [List.range_eq_range', List.range'_eq_map_range, List.range'_eq_map_range]
      simp [Function.comp_def, Nat.add_comm]
    simp only [freeName, List.contains_iff_mem.mpr hbase, if_true, hnumbers] at hfree ⊢
    cases hfind : ((List.range' 2 taken.length).map fun i => base ++ toString i).find?
      (!taken.contains ·) with
    | none =>
      rw [hfind, Option.getD_none] at hfree
      exact absurd hbase hfree
    | some found => exact .of_find? hbase hfind
  · rw [freeName, if_neg (by simpa using hbase)]
    exact .free hbase

/-! ### One slot -/

def bindOne (n : SlotNames) (r : SlotRequest) : String × SlotNames :=
  n.bind r.base r.source r.value r.shorthand

/-- The sources that have a name, in the order in which they got it. -/
def sources (n : SlotNames) : List String := n.bound.map (·.1)

theorem bindOne_of_mem (h : r.source ∈ n.sources) : (n.bindOne r).2 = n := by
  obtain ⟨name, -, heq⟩ | ⟨hnew, -⟩ := n.bind_cases r.base r.source r.value r.shorthand
  · rw [bindOne, heq]
  · exact absurd h (by simpa [sources, labels] using hnew)

theorem bindOne_of_not_mem (h : r.source ∉ n.sources) :
    n.bindOne r = (freeName n.names r.base, ⟨n.bound ++ [(r.source,
      ⟨freeName n.names r.base, r.value, r.shorthand && freeName n.names r.base == r.base⟩)]⟩) := by
  have hfind : n.bound.find? (·.1 == r.source) = none := by
    rw [List.find?_eq_none]
    intro p hp heq
    exact h (List.mem_map.mpr ⟨p, hp, by simpa using heq⟩)
  rw [bindOne, bind, hfind]

/-! ### One slot after the other -/

/-- Names slots in order; gives the name of each. -/
def bindAll (n : SlotNames) : List SlotRequest → List String × SlotNames
  | [] => ([], n)
  | r :: rs =>
    let (name, n) := n.bindOne r
    let (names, n) := bindAll n rs
    (name :: names, n)

theorem labels_subset_bindAll (n : SlotNames) (rs : List SlotRequest) :
    n.labels ⊆ (n.bindAll rs).2.labels := by
  induction rs generalizing n with
  | nil => exact List.Subset.refl _
  | cons r rs ih => exact List.Subset.trans (labels_subset_bind ..) (ih (n.bindOne r).2)

theorem Names.bindAll {seen : List String} (h : n.Names seen) (rs : List SlotRequest) :
    (n.bindAll rs).2.Names (seen ++ rs.map (·.source)) := by
  induction rs generalizing n seen with
  | nil => simpa [SlotNames.bindAll] using h
  | cons r rs ih => simpa [SlotNames.bindAll, bindOne] using ih (h.bind ..)

/-- Each slot gets the name by which its source goes in the end. -/
theorem bindAll_given (n : SlotNames) (rs : List SlotRequest) {naming : String → String}
    (h : ∀ p ∈ (n.bindAll rs).2.labels, naming p.1 = p.2) :
    (n.bindAll rs).1 = rs.map (naming ·.source) := by
  induction rs generalizing n with
  | nil => rfl
  | cons r rs ih =>
    have hlabel : (r.source, (n.bindOne r).1) ∈ ((n.bindOne r).2.bindAll rs).2.labels :=
      labels_subset_bindAll (n.bindOne r).2 rs (mem_labels_bind ..)
    simp only [bindAll, List.map_cons]
    rw [ih (n.bindOne r).2 h, h _ hlabel]

/-- A slot is bound as the first request for its source asks, unless it was bound before. -/
theorem mem_bound_bindAll {rs : List SlotRequest} {p : String × SlotBinding}
    (hp : p ∈ (n.bindAll rs).2.bound) :
    p ∈ n.bound ∨ p.1 ∉ n.sources ∧ ∃ r, rs.find? (·.source == p.1) = some r ∧
      p.2.value = r.value ∧ p.2.shorthand = (r.shorthand && p.2.name == r.base) := by
  induction rs generalizing n with
  | nil => exact .inl hp
  | cons r rs ih =>
    have hlater : ∀ {m : SlotNames}, r.source ∈ m.sources → p.1 ∉ m.sources →
        (r :: rs).find? (·.source == p.1) = rs.find? (·.source == p.1) := by
      intro m hr hnew
      refine List.find?_cons_of_neg ?_
      rw [beq_iff_eq]
      exact fun heq => hnew (heq ▸ hr)
    by_cases hr : r.source ∈ n.sources
    · simp only [bindAll, bindOne_of_mem hr] at hp
      refine (ih hp).imp_right fun ⟨hnew, hfirst⟩ => ⟨hnew, ?_⟩
      rwa [hlater hr hnew]
    · simp only [bindAll, bindOne_of_not_mem hr] at hp
      rcases ih hp with hmem | ⟨hnew, hfirst⟩
      · rcases List.mem_append.mp hmem with hmem | hmem
        · exact .inl hmem
        · cases List.mem_singleton.mp hmem
          exact .inr ⟨hr, r, List.find?_cons_of_pos (beq_self_eq_true _), rfl, rfl⟩
      · have hout : p.1 ∉ n.sources := fun hmem => hnew (by simp_all [sources])
        refine .inr ⟨hout, ?_⟩
        rwa [hlater (by simp [sources]) hnew]

/-- Names of sources are the same only if the sources are. -/
theorem Names.naming_eq_iff {seen : List String} {naming : String → String} (h : n.Names seen)
    (hnames : n.names = seen.eraseDups.map naming) {source other : String} (hsource : source ∈ seen)
    (hother : other ∈ seen) : naming source = naming other ↔ source = other := by
  have hdistinct := h.distinct
  rw [hnames] at hdistinct
  constructor
  · exact fun heq => List.inj_on_of_nodup_map hdistinct (List.mem_eraseDups.mpr hsource)
      (List.mem_eraseDups.mpr hother) heq
  · exact fun heq => heq ▸ rfl

/-- Whatever slots are to be named: the search for a free name ends wherever one is needed, every
slot gets the name of its source, and no two sources have the same name. The names are listed once
each, in the order in which their sources first come. A binding is that of the first request for its
source, and may be written as the name alone only if this is the base name of the request. -/
theorem bindAll_names_sources (requests : List SlotRequest) :
    let given := (bindAll {} requests).1
    let final := (bindAll {} requests).2
    (∀ (n : SlotNames) (r : SlotRequest), r.source ∉ n.sources →
      Seeks n.names r.base r.base 2 (n.bindOne r).1) ∧
    (∃ naming : String → String, given = requests.map (naming ·.source) ∧
      (∀ r ∈ requests, ∀ other ∈ requests,
        naming r.source = naming other.source ↔ r.source = other.source) ∧
      final.names = (requests.map (·.source)).eraseDups.map naming) ∧
    final.names.Nodup ∧
    final.sources = (requests.map (·.source)).eraseDups ∧
    ∀ p ∈ final.bound, ∃ r, requests.find? (·.source == p.1) = some r ∧
      p.2.value = r.value ∧ p.2.shorthand = (r.shorthand && p.2.name == r.base) := by
  intro given final
  have hnames : final.Names (requests.map (·.source)) := names_empty.bindAll requests
  obtain ⟨naming, hnaming, hlist⟩ := hnames.exists_naming
  refine ⟨?_, ⟨naming, bindAll_given {} requests hnaming, ?_, hlist⟩, hnames.distinct, ?_, ?_⟩
  · intro n r hnew
    rw [bindOne_of_not_mem hnew]
    exact seeks_freeName n.names r.base
  · intro r hr other hother
    exact hnames.naming_eq_iff hlist (List.mem_map_of_mem hr) (List.mem_map_of_mem hother)
  · rw [← hnames.order, sources, labels, List.map_map]
    rfl
  · intro p hp
    obtain hmem | ⟨-, hfirst⟩ := mem_bound_bindAll hp
    · exact absurd hmem List.not_mem_nil
    · exact hfirst

/-- A numbered name may be the base name of another slot. -/
example :
    bindAll {} [⟨"name", "a.name", "a.name", false⟩, ⟨"name", "b.name", "b.name", false⟩,
        ⟨"name2", "name2", "name2", true⟩, ⟨"name", "a.name", "a.name", false⟩] =
      (["name", "name2", "name22", "name"], ⟨[("a.name", ⟨"name", "a.name", false⟩),
        ("b.name", ⟨"name2", "b.name", false⟩), ("name2", ⟨"name22", "name2", false⟩)]⟩) := by
  decide +kernel

end SlotNames

end Phrasebook
