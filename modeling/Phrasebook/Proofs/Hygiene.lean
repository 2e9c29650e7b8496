import Phrasebook.Proofs.Origin

/-!
What the lookup function is called where a lookup may be placed. Functions and the items of a module
are searched for bindings of its name before anything in them is offered, so that a scope around a
site can hide it only if its own binding is none of those searched for: the name of a function or
class expression, the declarations of a static block or a namespace, or an enumeration, a namespace
or an alias of that name.
-/
namespace Phrasebook

open Script

mutual

/-- Whether a node declares `name` in the scope it stands in. Beside what `binds` looks for these
are enumerations, namespaces and aliases. -/
def declares (name : String) : Node → Bool
  | .mk kind _ children =>
    match kind with
    | .binding n | .functionDecl n | .classDecl n => n == name
    | .function | .functionExpr _ | .arrow | .classBody | .classConstructor | .getter | .setter =>
      false
    | .enumDecl n | .importAlias n => n == name || declaresAny name children
    | .namespaceDecl n => n == some name || declaresAny name children
    | _ => declaresAny name children

def declaresAny (name : String) : List Node → Bool
  | [] => false
  | n :: ns => declares name n || declaresAny name ns

end

namespace Script

/-- Statements with a scope of their own: blocks, loops, `catch` clauses and the like. -/
def Kind.isBlock : Kind → Bool
  | .block | .statement | .switchCase _ => true
  | _ => false

namespace Node

/-- A scope below the module that gives `name` a meaning of its own. -/
def hides (name : String) (n : Node) : Bool :=
  match n.kind with
  | .functionExpr own | .classExpr own => own == some name
  | .staticBlock | .namespaceDecl _ => declaresAny name n.children
  | kind =>
    if kind.isFunctionScope then declaresAny name (n.children.filter (isScopePart kind))
    else kind.isBlock && declaresAny name n.children

/-- A scope in which a binding of `name` is searched for and found. -/
def bindsFound (name : String) (n : Node) : Bool :=
  if n.kind.isFunctionScope then functionBinds name n.kind n.children
  else n.kind.isBlock && bindsAny name n.children

/-- A scope that hides `name` by something that is not searched for. -/
def hidesUnseen (name : String) (n : Node) : Bool := n.hides name && !n.bindsFound name

/-- Blocks stand in functions as their bodies, in each other, and as items. -/
def isNested (n : Node) : Bool :=
  n.children.all fun c =>
    !c.kind.isBlock || n.kind.holdsItems || n.kind.isBlock || n.kind == .staticBlock ||
      (n.kind.isFunctionScope && isScopePart n.kind c)

/-- A tree with the scopes of a module: nothing stands where it would be passed over. -/
structure Scoped (tree : Node) : Prop where
  root : tree.kind = .module
  plain : ∀ n ∈ tree.subnodes, n.isPlain = true
  nested : ∀ n ∈ tree.subnodes, n.isNested = true

instance (tree : Node) : Decidable tree.Scoped :=
  decidable_of_iff (tree.kind = .module ∧ (∀ n ∈ tree.subnodes, n.isPlain = true) ∧
      ∀ n ∈ tree.subnodes, n.isNested = true)
    ⟨fun h => ⟨h.1, h.2.1, h.2.2⟩, fun h => ⟨h.root, h.plain, h.nested⟩⟩

/-- The nodes of `above` lie around `m`, each in the one before, and the first of them is `n`. -/
inductive Encloses : Node → List Node → Node → Prop where
  | self (n : Node) : Encloses n [] n
  | child {n c m : Node} {above : List Node} :
      c ∈ n.children → Encloses c above m → Encloses n (n :: above) m

/-- The site lies in the node: it is one of its texts, or a run of its markup children. -/
def Bears (n : Node) (id : SiteId) : Prop :=
  n.Carries id ∨ ∃ first ∈ Markup.rendered n, ∃ last ∈ Markup.rendered n,
    id = ⟨⟨first.span.lo, last.span.hi⟩, .markupText⟩

end Node

end Script

/-! ### Bindings and declarations -/

variable {name : String}

theorem bindsAny_eq_false {ns : List Node} :
    bindsAny name ns = false ↔ ∀ n ∈ ns, binds name n = false := by
  induction ns with
  | nil => simp [bindsAny]
  | cons n ns ih => simp [bindsAny, ih]

theorem declaresAny_eq_false {ns : List Node} :
    declaresAny name ns = false ↔ ∀ n ∈ ns, declares name n = false := by
  induction ns with
  | nil => simp [declaresAny]
  | cons n ns ih => simp [declaresAny, ih]

/-- Every binding is a declaration. -/
theorem binds_eq_false_of_declares {n : Node} (h : declares name n = false) :
    binds name n = false := by
  induction n using Node.inductOn with
  | mk kind span children ih =>
    have hchildren : declaresAny name children = false → bindsAny name children = false := by
      intro hd
      rw [declaresAny_eq_false] at hd
      rw [bindsAny_eq_false]
      exact fun c hc => ih c hc (hd c hc)
    cases kind with
    | binding | functionDecl | classDecl => simpa only [declares, binds] using h
    | function | functionExpr | arrow | classBody | classConstructor | getter | setter =>
      simp only [binds]
    | enumDecl | importAlias | namespaceDecl =>
      simp only [declares, Bool.or_eq_false_iff] at h
      simpa only [binds] using hchildren h.2
    | _ =>
      simp only [declares] at h
      simpa only [binds] using hchildren h

/-! ### One step down -/

/-- In a block nothing is found where the lookup function is visible. -/
def Script.Node.Unbound (name : String) (n : Node) : Prop :=
  n.kind.isBlock = true → binds name n = false

namespace Script.Node

variable {n c : Node}

theorem binds_of_isBlock (h : n.kind.isBlock = true) : binds name n = bindsAny name n.children := by
  cases n with
  | mk kind span children =>
    cases kind with
    | block | statement | switchCase => simp only [binds, Node.children]
    | _ => cases h

/-- No binding is found in a scope through which a site is offered. -/
theorem Shows.not_bindsFound (hshows : n.Shows name c) (hunbound : n.Unbound name) :
    n.bindsFound name = false := by
  unfold bindsFound
  split
  · rename_i hfunction
    exact hshows.function hfunction
  · cases hblock : n.kind.isBlock with
    | false => rfl
    | true => rw [← binds_of_isBlock hblock, hunbound hblock, Bool.true_and]

/-- A block inside is as visible as what it stands in. -/
theorem Shows.unbound (hshows : n.Shows name c) (hnested : n.isNested = true)
    (hc : c ∈ n.children) (hunbound : n.Unbound name) (hseen : n.hidesUnseen name = false) :
    c.Unbound name := by
  intro hblock
  have hplace := List.all_eq_true.mp hnested c hc
  simp only [hblock, Bool.not_true, Bool.false_or, Bool.or_eq_true, Bool.and_eq_true,
    beq_iff_eq] at hplace
  rcases hplace with ((hitems | houter) | hstatic) | ⟨hfunction, hpart⟩
  · have hitem := hshows.item hitems
    have hdeclaration : c.kind.isDeclaration = false ∧ c.kind.isModuleDecl = false := by
      cases hkind : c.kind <;> simp_all [Kind.isBlock, Kind.isDeclaration, Kind.isModuleDecl]
    simpa [itemBinds, hdeclaration.1, hdeclaration.2] using hitem
  · have hall := hunbound houter
    rw [binds_of_isBlock houter] at hall
    exact bindsAny_eq_false.mp hall c hc
  · have hhides : declaresAny name n.children = false := by
      simpa [hidesUnseen, hides, bindsFound, hstatic, Kind.isFunctionScope, Kind.isBlock]
        using hseen
    exact binds_eq_false_of_declares (declaresAny_eq_false.mp hhides c hc)
  · have hall := hshows.function hfunction
    exact bindsAny_eq_false.mp hall c (List.mem_filter.mpr ⟨hc, hpart⟩)

/-- What the scopes from `n` on need for not hiding the name. -/
def Clear (name : String) (n : Node) (above : List Node) : Prop :=
  n.Unbound name → (∀ scope ∈ above, scope.hidesUnseen name = false) →
    ∀ scope ∈ above, scope.hides name = false

theorem Shows.clear (hshows : n.Shows name c) (hnested : n.isNested = true) (hc : c ∈ n.children)
    {above : List Node} (h : c.Clear name above) : n.Clear name (n :: above) := by
  intro hunbound hseen
  rw [List.forall_mem_cons] at hseen ⊢
  refine ⟨?_, h (hshows.unbound hnested hc hunbound hseen.1) hseen.2⟩
  have hfound := hshows.not_bindsFound hunbound
  simpa only [hidesUnseen, hfound, Bool.not_false, Bool.and_true] using hseen.1

theorem Encloses.subset {m : Node} {above : List Node} (h : n.Encloses above m) :
    above ⊆ n.subnodes := by
  induction h with
  | self n => exact List.nil_subset _
  | child hc _ ih =>
    have hinner := List.Subset.trans ih (subnodes_subset_of_mem_children hc)
    exact List.cons_subset.mpr ⟨mem_subnodes_self _, hinner⟩

end Script.Node

theorem Markup.Run.span_some {r : Markup.Run} {children : List Node} {span : Span}
    (h : r.span children = some span) : ∃ first ∈ children, ∃ last ∈ children,
      span = ⟨first.span.lo, last.span.hi⟩ := by
  obtain ⟨first, hfirst, h⟩ := Option.bind_eq_some_iff.mp h
  obtain ⟨-, -, h⟩ := Option.bind_eq_some_iff.mp h
  obtain ⟨last, hlast, h⟩ := Option.bind_eq_some_iff.mp h
  cases h
  exact ⟨first, List.mem_of_getElem? hfirst, last, List.mem_of_getElem? hlast, rfl⟩

/-- The site lies somewhere under `n`, and all that `n` and the nodes between need for not hiding
the name is what `Clear` says. -/
def Script.Node.Encircles (name : String) (id : SiteId) (n : Node) : Prop :=
  ∃ above m, n.Encloses above m ∧ m.Bears id ∧ n.Clear name above

theorem Script.Node.Shows.encircles {n c : Node} {id : SiteId} (hshows : n.Shows name c)
    (hnested : n.isNested = true) (hc : c ∈ n.children) (h : c.Encircles name id) :
    n.Encircles name id := by
  obtain ⟨above, m, henc, hbears, hclear⟩ := h
  exact ⟨n :: above, m, .child hc henc, hbears, hshows.clear hnested hc hclear⟩

/-- The nodes on the way down to a site lie around it, and what they need for not hiding the lookup
function is passed on from each to the next. -/
theorem Setting.Descends.encircles {s : Setting} {id : SiteId} {role : Role} {n : Node}
    (h : s.Descends id role n) (hnested : ∀ m ∈ n.subnodes, m.isNested = true) :
    n.Encircles s.options.lookupFunction id := by
  induction h with
  | @text _ n hcarries _ => exact ⟨[], n, .self n, .inl hcarries, by simp [Node.Clear]⟩
  | @run _ n r span _ _ _ hspan hid _ =>
    obtain ⟨first, hfirst, last, hlast, rfl⟩ := Markup.Run.span_some hspan
    exact ⟨[], n, .self n, .inr ⟨first, hfirst, last, hlast, hid⟩, by simp [Node.Clear]⟩
  | @key _ _ n c hkind hc _ _ ih =>
    have hshows : n.Shows s.options.lookupFunction c := .of_isOpen (by rw [hkind]; rfl)
    have hinner := ih fun m hm => hnested m (Node.subnodes_subset_of_mem_children hc hm)
    exact hshows.encircles (hnested n (Node.mem_subnodes_self n)) hc hinner
  | @down _ _ n c hc _ hshows _ _ ih =>
    have hc := s.options.entered_subset n hc
    have hinner := ih fun m hm => hnested m (Node.subnodes_subset_of_mem_children hc hm)
    exact hshows.encircles (hnested n (Node.mem_subnodes_self n)) hc hinner

/-- Whatever handler is asked about a site, the scopes around it leave the lookup function visible
exactly if none of them hides it by something that is not searched for. -/
theorem lookup_visible_at_sites (s : Setting) (hscoped : s.source.tree.Scoped) {σ : Type}
    (handle : Handler σ) (start : σ) :
    ∀ site ∈ s.offered handle start, ∃ above n, s.source.tree.Encloses above n ∧
      n.Bears site.id ∧
      ((∀ scope ∈ above, scope.hides s.options.lookupFunction = false) ↔
        ∀ scope ∈ above, scope.hidesUnseen s.options.lookupFunction = false) := by
  intro site hsite
  rw [s.offered_eq] at hsite
  have hdescends := Setting.descends_of_mem_outlineSites hscoped.plain hscoped.root hsite
  obtain ⟨above, n, henc, hbears, hclear⟩ := hdescends.encircles hscoped.nested
  refine ⟨above, n, henc, hbears, ?_, hclear ?_⟩
  · intro hvisible scope hs
    rw [Node.hidesUnseen, hvisible scope hs, Bool.false_and]
  · intro hblock
    rw [hscoped.root] at hblock
    cases hblock

/-- A parameter hides the lookup function from one text; a static block and a loop leave it to two
others. -/
theorem lookup_visible_at_sites_loop :
    let code :=
      "function f(t) \x7b return \"甲\" \x7d class C \x7b static \x7b g(\"乙\") \x7d \x7d " ++
      "const h = () => \x7b for (const x of y) k(<p>共\x7bx\x7d条</p>) \x7d"
    ∃ source, Source.read true code = .ok source ∧ source.tree.Scoped ∧
      (∀ n ∈ source.tree.subnodes, n.hidesUnseen "t" = false) ∧
      let s := Setting.of source ⟨"src/a.tsx", .component⟩ {}
      s.sites.map (·.text) = ["乙", "共{x}条"] ∧
      ∀ site ∈ s.offered Collector.handler {}, ∃ above n, source.tree.Encloses above n ∧
        n.Bears site.id ∧ ∀ scope ∈ above, scope.hides "t" = false := by
  intro code
  subst code
  generalize hcode : (_ : String) ++ (_ : String) = code
  have hchecked : (Source.read true code).toOption.any (fun source =>
      decide (source.tree.Scoped ∧ (∀ n ∈ source.tree.subnodes, n.hidesUnseen "t" = false) ∧
        (Setting.of source ⟨"src/a.tsx", .component⟩ {}).sites.map (·.text) =
          ["乙", "共{x}条"])) = true := by
    rw [← hcode]
    decide +kernel
  obtain ⟨source, hread, hscoped, hseen, htexts⟩ := Source.exists_read hchecked
  refine ⟨source, hread, hscoped, hseen, htexts, ?_⟩
  intro site hsite
  obtain ⟨above, n, henc, hbears, hvisible⟩ :=
    lookup_visible_at_sites (.of source ⟨"src/a.tsx", .component⟩ {}) hscoped _ _ site hsite
  exact ⟨above, n, henc, hbears, hvisible.mpr fun scope hs => hseen scope (henc.subset hs)⟩

/-- A static block is not searched, nor is the block that it consists of. -/
example :
    let code := "class A \x7b static \x7b const t = 1; f(\"文\") \x7d \x7d"
    (Source.read false code).toOption.map (fun source =>
      ((Setting.of source ⟨"src/a.ts", .component⟩ {}).sites.map (·.text),
        (source.tree.subnodes.filter (·.hides "t")).map (·.kind))) =
      some (["文"], [.staticBlock, .block]) := by
  decide +kernel

end Phrasebook
