import CallDiagram.Proofs.Codebase.Sources
import CallDiagram.Proofs.Renumbering.Agree

/-!
What is read of a codebase while a call is resolved and a diagram is made. In a loaded codebase nothing
is read beyond the end of an array.
-/

namespace CallDiagram

inductive Place
  | unit (u : UnitId)
  | table (u : UnitId)
  | declaration (i : DeclarationId)
  | scope (i : DeclarationId)
  | cls (k : ClassId)

inductive Operation
  | lookup (unit : UnitId) (name : String)
  | exported (unit : UnitId) (name : String)
  | chain (cls : ClassId)
  | field (cls : ClassId) (field : String)
  | member (symbol : Symbol) (property : String)
  | call (caller : DeclarationId) (site : CallSite)
  | describe (declaration : DeclarationId)
  | diagram (root : DeclarationId)

namespace Codebase

def Has (c : Codebase) : Place → Prop
  | .unit u => u < c.units.size
  | .table u => u < c.tables.size
  | .declaration i => i < c.declarations.size
  | .scope i => i < c.scopes.size
  | .cls k => k < c.classes.size

/-- The places that an operation reads by itself. A search reads the tables of all files that it asks,
and a chain of classes is followed up to the first base that is in it already. -/
inductive Touches (c : Codebase) : Operation → Place → Prop
  | file {u n} : Touches c (.lookup u n) (.table u)
  | asked {u n found later v m} :
      c.named (c.exportedWithin c.searchLimit) u n [] = some (found, later) → (v, m) ∈ later →
      Touches c (.lookup u n) (.table v)
  | exporting {u n found later v m} :
      c.exportedWithin c.searchLimit u n [] = some (found, later) → (v, m) ∈ later →
      Touches c (.exported u n) (.table v)
  | link {k l} : l ∈ c.classChain k → Touches c (.chain k) (.cls l)
  | base {k l b} : l ∈ c.classChain k → c.declaredBase? l = some b → Touches c (.chain k) (.cls b)
  | variable {u n property} : Touches c (.member (.variable u n) property) (.table u)
  | caller {i site} : Touches c (.call i site) (.declaration i)
  | scope {i site} : Touches c (.call i site) (.scope i)
  | declaration {i} : Touches c (.describe i) (.declaration i)
  | unit {i x} : c.declarations[i]? = some x → Touches c (.describe i) (.unit x.unit)

inductive Performs (c : Codebase) : Operation → Operation → Prop
  | base {k l e b} : l ∈ c.classChain k → c.classes[l]? = some e → e.base = some b →
      Performs c (.chain k) (.lookup e.unit b)
  | fieldChain {k field} : Performs c (.field k field) (.chain k)
  | fieldType {k l e field type} : l ∈ c.classChain k → c.classes[l]? = some e →
      e.fields.get? field = some type → Performs c (.field k field) (.lookup e.unit type)
  | static {k property} : Performs c (.member (.cls k) property) (.chain k)
  | exported {u property} : Performs c (.member (.module u) property) (.exported u property)
  | variableType {u t n type property} : c.tables[u]? = some t → t.variableTypes.get? n = some type →
      Performs c (.member (.variable u n) property) (.lookup u type)
  | variableClass {u n k property} : c.variableClass? u n = some k →
      Performs c (.member (.variable u n) property) (.chain k)
  | name {i x site n} : c.declarations[i]? = some x → site.callee = .name n →
      Performs c (.call i site) (.lookup x.unit n)
  | this {i s site property k} : c.scopes[i]? = some s → site.callee = .member .this property →
      s.cls = some k → Performs c (.call i site) (.chain k)
  | super {i s site property k} : c.scopes[i]? = some s → site.callee = .member .super property →
      s.cls = some k → Performs c (.call i site) (.chain k)
  | superBase {i s site property k l} : c.scopes[i]? = some s →
      site.callee = .member .super property → s.cls = some k → c.base? k = some l →
      Performs c (.call i site) (.chain l)
  | thisField {i s site field property k} : c.scopes[i]? = some s →
      site.callee = .member (.thisField field) property → s.cls = some k →
      Performs c (.call i site) (.field k field)
  | fieldClass {i s site field property k l} : c.scopes[i]? = some s →
      site.callee = .member (.thisField field) property → s.cls = some k →
      c.fieldClass? k field = some l → Performs c (.call i site) (.chain l)
  | boundType {i x s site n type property} : c.declarations[i]? = some x → c.scopes[i]? = some s →
      site.callee = .member (.ident n) property → s.bindings.get? n = some type →
      Performs c (.call i site) (.lookup x.unit type)
  | boundClass {i x s site n type property k} : c.declarations[i]? = some x →
      c.scopes[i]? = some s → site.callee = .member (.ident n) property →
      s.bindings.get? n = some type → c.classNamed? x.unit type = some k →
      Performs c (.call i site) (.chain k)
  | ident {i x site n property} : c.declarations[i]? = some x →
      site.callee = .member (.ident n) property → Performs c (.call i site) (.lookup x.unit n)
  | member {i x site n property symbol} : c.declarations[i]? = some x →
      site.callee = .member (.ident n) property → symbol ∈ c.lookup x.unit n →
      Performs c (.call i site) (.member symbol property)
  | root {i} : Performs c (.diagram i) (.describe i)
  | node {i node} : node ∈ (c.resolver.trace i).nodes →
      Performs c (.diagram i) (.describe node.declaration)
  | callee {i node callee} : node ∈ (c.resolver.trace i).nodes → callee ∈ node.callees →
      Performs c (.diagram i) (.describe callee)
  | call {i node x site} : node ∈ (c.resolver.trace i).nodes →
      c.declarations[node.declaration]? = some x → site ∈ x.callSites →
      Performs c (.diagram i) (.call node.declaration site)

def Reads (c : Codebase) (operation : Operation) (place : Place) : Prop :=
  ∃ part, Relation.ReflTransGen c.Performs operation part ∧ c.Touches part place

open Renumbering

abbrev whole (c : Codebase) : Renumbering := inside c Set.univ

def Given (c : Codebase) : Operation → Prop
  | .lookup u _ | .exported u _ => c.whole.unit u u
  | .chain k | .field k _ => c.whole.cls k k
  | .member symbol _ => c.whole.Symbols symbol symbol
  | .call i _ | .describe i | .diagram i => c.whole.declaration i i

section InRange

variable {c : Codebase} {operation part : Operation} {place : Place}

theorem codebases_whole (hc : c.WellFormed) : c.whole.Codebases c c :=
  codebases_inside hc (.refl _ c) fun _ _ _ _ _ => trivial

theorem rel_unit_self {u : UnitId} (h : u < c.units.size) : c.whole.unit u u := ⟨rfl, trivial, h⟩

theorem rel_declaration_self {i : DeclarationId} {x : Declaration} (h : c.declarations[i]? = some x) :
    c.whole.declaration i i := ⟨rfl, x, h, trivial⟩

theorem rel_scope_self (hc : c.WellFormed) {i : DeclarationId} (h : c.whole.declaration i i)
    {s : Scope} (hs : c.scopes[i]? = some s) {k : ClassId} (hk : s.cls = some k) : c.whole.cls k k := by
  obtain ⟨_, _, h₁, h₂, hscopes⟩ := (codebases_whole hc).scopes h
  cases hs.symm.trans h₁
  cases hs.symm.trans h₂
  exact rel_self hscopes.cls hk

theorem Given.performs (hc : c.WellFormed) (h : c.Given operation)
    (hpart : c.Performs operation part) : c.Given part := by
  have hw := codebases_whole hc
  cases hpart with
  | base _ he _ => exact rel_unit_self (hc.classes he)
  | fieldChain => exact h
  | fieldType _ he _ => exact rel_unit_self (hc.classes he)
  | static =>
    cases h with
    | cls hk => exact hk
  | exported =>
    cases h with
    | module hu => exact hu
  | variableType _ _ =>
    cases h with
    | «variable» hu => exact hu
  | variableClass hk =>
    cases h with
    | «variable» hu => exact rel_self (hw.variableClass? hu _) hk
  | name hx _ => exact rel_unit_self (hc.declarations hx)
  | this hs _ hk => exact rel_scope_self hc h hs hk
  | super hs _ hk => exact rel_scope_self hc h hs hk
  | superBase hs _ hk hl => exact rel_self (hw.base? (rel_scope_self hc h hs hk)) hl
  | thisField hs _ hk => exact rel_scope_self hc h hs hk
  | fieldClass hs _ hk hl => exact rel_self (hw.fieldClass? (rel_scope_self hc h hs hk) _) hl
  | boundType hx _ _ _ => exact rel_unit_self (hc.declarations hx)
  | boundClass hx _ _ _ hk => exact rel_self (hw.classNamed? (rel_unit_self (hc.declarations hx)) _) hk
  | ident hx _ => exact rel_unit_self (hc.declarations hx)
  | member hx _ hsymbol =>
    exact rel_self_of_mem (hw.lookup (rel_unit_self (hc.declarations hx)) _) hsymbol
  | root => exact h
  | node hnode => exact (rel_self_of_mem (hw.resolvers.trace h) hnode).declaration
  | callee hnode hcallee =>
    exact rel_self_of_mem (rel_self_of_mem (hw.resolvers.trace h) hnode).callees hcallee
  | call hnode _ _ => exact (rel_self_of_mem (hw.resolvers.trace h) hnode).declaration

theorem lt_tables (hc : c.WellFormed) {u : UnitId} (h : u < c.units.size) : u < c.tables.size := by
  rwa [hc.size_tables]

theorem lt_declarations {i : DeclarationId} (h : c.whole.declaration i i) : i < c.declarations.size := by
  obtain ⟨-, x, hx, -⟩ := h
  exact (Array.getElem?_eq_some_iff.1 hx).1

theorem lt_of_asked {search : Search (List Symbol)} {found : List Symbol}
    {later : Asked} (hruns : c.whole.Runs (List.Forall₂ c.whole.Symbols) search search)
    (hrun : search [] = some (found, later)) {v : UnitId} {m : String} (hmem : (v, m) ∈ later) :
    v < c.units.size :=
  (rel_self_of_mem (hruns _ _ .nil _ _ _ _ hrun hrun).2 hmem).1.2.2

theorem Given.touches (hc : c.WellFormed) (h : c.Given operation)
    (hplace : c.Touches operation place) : c.Has place := by
  have hw := codebases_whole hc
  cases hplace with
  | file => exact lt_tables hc h.2.2
  | @asked u n _ _ _ _ hrun hmem =>
    have hruns := Runs.follow
      (fun q p hqp => Runs.exportedWithin hw.toFiles c.searchLimit c.searchLimit hqp)
      (hw.nameLead (n := n) h fun b _ => hw.modules h b.source)
    rw [named_eq] at hrun
    exact lt_tables hc (lt_of_asked hruns hrun hmem)
  | @exporting u n _ _ _ _ hrun hmem =>
    have hruns := Runs.exportedWithin hw.toFiles c.searchLimit c.searchLimit (q := (u, n)) (p := (u, n))
      ⟨h, rfl⟩
    exact lt_tables hc (lt_of_asked hruns hrun hmem)
  | link hl => exact (hw.lt_size (rel_self_of_mem (hw.classChain h) hl)).1
  | base hl hb =>
    exact (hw.lt_size (rel_self (hw.declaredBase? (rel_self_of_mem (hw.classChain h) hl)) hb)).1
  | «variable» =>
    cases h with
    | «variable» hu => exact lt_tables hc hu.2.2
  | caller => exact lt_declarations h
  | scope =>
    have hlt : _ < c.declarations.size := lt_declarations h
    rw [← hc.size_scopes] at hlt
    exact hlt
  | declaration => exact lt_declarations h
  | unit hx => exact hc.declarations hx

theorem Given.reads (hc : c.WellFormed) (h : c.Given operation) (hplace : c.Reads operation place) :
    c.Has place := by
  obtain ⟨part, hpart, htouch⟩ := hplace
  suffices hgiven : c.Given part from hgiven.touches hc htouch
  clear htouch
  induction hpart with
  | refl => exact h
  | tail _ hstep ih => exact ih.performs hc hstep

theorem table_of_projectTable? {t : FileTree} {file : Path} {table : FileTable}
    (h : c.projectTable? t file = some table) : ∃ u : UnitId, c.tables[u]? = some table := by
  rw [projectTable?] at h
  split at h
  · cases h
  · obtain ⟨u, -, h⟩ := Option.bind_eq_some_iff.1 h
    split at h
    · exact ⟨u, h⟩
    · cases h

theorem declaration_of_ownMethod? (hc : c.WellFormed) {k : ClassId} {name : String}
    {i : DeclarationId} (h : c.ownMethod? k name = some i) : c.whole.declaration i i := by
  obtain ⟨e, he, h⟩ := Option.bind_eq_some_iff.1 h
  rcases Option.or_eq_some_iff.1 h with hi | ⟨-, hi⟩
  · obtain ⟨x, hx, -⟩ := hc.methods he hi
    exact rel_declaration_self hx
  · obtain ⟨x, hx, -⟩ := hc.methods he hi
    exact rel_declaration_self hx

theorem declaration_of_locate (hc : c.WellFormed) {t : FileTree} {file : Path} {entry : EntryPoint}
    {root : DeclarationId} (h : c.locate t file entry = .ok root) : c.whole.declaration root root := by
  rw [locate] at h
  split at h
  · next table htable =>
    obtain ⟨u, ht⟩ := table_of_projectTable? htable
    cases entry with
    | function name =>
      dsimp only at h
      split at h
      · next id hid =>
        cases h
        obtain ⟨x, hx, -⟩ := hc.functions ht hid
        exact rel_declaration_self hx
      · cases h
    | method cls name =>
      dsimp only at h
      split at h
      · split at h
        · next id hid =>
          cases h
          exact declaration_of_ownMethod? hc hid
        · cases h
      · cases h
  · cases h

theorem agreeOn_of_extends (hc : c.WellFormed) {d : Codebase} (h : c.Extends d) :
    AgreeOn {u | u < c.units.size} c d where
  units u hu := by
    have hx := Array.getElem?_eq_getElem hu
    rw [h.units hx, hx]
  tables u hu := by
    have ht := Array.getElem?_eq_getElem (lt_tables hc hu)
    rw [h.tables ht, ht]
    exact rel_of_eq rfl fun t _ => .refl t
  declarations i x hx _ := by
    have hlt := (Array.getElem?_eq_some_iff.1 hx).1
    rw [← hc.size_scopes] at hlt
    have hs := Array.getElem?_eq_getElem hlt
    rw [h.scopes hs, hs]
    exact ⟨h.declarations hx, rel_of_eq rfl fun scope _ => .refl scope⟩
  classes k e he _ := ⟨e, h.classes he, .refl e⟩

theorem closedUnderModules_units (hc : c.WellFormed) : c.ClosedUnderModules {u | u < c.units.size} := by
  intro u _ source v hv
  obtain ⟨table, htable, hv⟩ := Option.bind_eq_some_iff.1 hv
  exact hc.modules htable hv

/-- A loaded codebase is well formed. So nothing is read beyond the end of an array while a call is
resolved or a diagram is made from a declaration that an entry point names, and whatever might stand
there makes no difference. -/
theorem load_wellFormed {t : FileTree} {settings : Path} (ht : t.root.isWellFormed)
    (h : load t settings = .ok c) :
    c.WellFormed ∧ ∀ (file : Path) (entry : EntryPoint) (root : DeclarationId),
      c.locate t file entry = .ok root →
        (∀ site place, c.Reads (.call root site) place → c.Has place)
          ∧ (∀ place, c.Reads (.diagram root) place → c.Has place)
          ∧ ∀ d, c.Extends d → (∀ site, c.definitions root site = d.definitions root site)
            ∧ c.resolver.trace root = d.resolver.trace root
            ∧ ∀ options, c.resolver.drawing root options = d.resolver.drawing root options := by
  obtain ⟨p, files, -, hread, -, rfl⟩ := exists_sources_of_load ht h
  have hc := wellFormed_ofSources (p.find? t) Loading.followed p.paths hread.nodup
  refine ⟨hc, fun file entry root hroot => ?_⟩
  have hroot := declaration_of_locate hc hroot
  refine ⟨fun site place => Given.reads hc hroot, fun place => Given.reads hc hroot, fun d hd => ?_⟩
  obtain ⟨-, x, hx, -⟩ := hroot
  exact same_inside hc (agreeOn_of_extends hc hd) (closedUnderModules_units hc)
    ⟨rfl, x, hx, hc.declarations hx⟩

def inherited : FileTree where
  top := [("tsconfig.json", .file (.text "\x7b\"files\":[\"a.ts\"]\x7d")),
    ("a.ts", .file (.text
      "class A \x7b m() \x7b\x7d \x7d\nclass B extends A \x7b n() \x7b super.m(); \x7d \x7d"))]

theorem inherited_wellFormed :
    ∃ c root, load inherited ⟨"tsconfig.json"⟩ = .ok c ∧ c.WellFormed
      ∧ c.locate inherited ⟨"a.ts"⟩ (.method "B" "n") = .ok root
      ∧ ∀ place, c.Reads (.diagram root) place → c.Has place := by
  have hload : ∃ c ∈ (load inherited ⟨"tsconfig.json"⟩).toOption,
      ∃ root ∈ (c.locate inherited ⟨"a.ts"⟩ (.method "B" "n")).toOption, root = 1 := by
    decide +kernel
  obtain ⟨c, hc, hroot⟩ := exists_ok_of_toOption hload
  obtain ⟨root, hroot, -⟩ := exists_ok_of_toOption hroot
  obtain ⟨hwf, hreads⟩ := load_wellFormed (by decide) hc
  exact ⟨c, root, hc, hwf, hroot, (hreads _ _ root hroot).2.1⟩

end InRange

end Codebase

end CallDiagram
