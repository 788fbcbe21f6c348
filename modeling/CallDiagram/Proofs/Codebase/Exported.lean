import CallDiagram.Proofs.Codebase.Locate
import CallDiagram.Proofs.Lookup.Answer
import CallDiagram.Proofs.Outline.Overloads

namespace CallDiagram

namespace Statement

def isDeclaration : Statement → Bool
  | .function _ | .cls _ | .bindings _ | .named .. => true
  | .ambient inner => inner.isDeclaration
  | _ => false

def exportsDeclaration : Statement → Bool
  | .exported inner | .exportedDefault inner => inner.isDeclaration
  | .defaultFunction _ | .defaultClass _ => true
  | _ => false

open Codebase (GoesBy)

/-- Whether a statement declares what a file knows by a name. -/
structure Declares (st : Statement) (name : String) : Prop where
  function : ∀ f ∈ st.functions, GoesBy f.name name
  cls : ∀ k ∈ st.classes, GoesBy k.name name
  other : st.functions = [] → st.classes = [] → ∃ kind, (name, kind) ∈ st.symbols

variable {st : Statement} {isExported : Bool} {exported name : String}

theorem eq_of_mem_ownEntries {names : List String}
    (h : .local exported name ∈ ownEntries isExported names) : name ∈ names := by
  cases isExported with
  | false => cases h
  | true =>
    obtain ⟨own, hown, heq⟩ := List.mem_map.1 h
    cases heq
    exact hown

theorem declares_of_name (hst : st.isDeclaration) (h : st.name? = some name) : st.Declares name := by
  cases st with
  | function f => exact ⟨by simp [GoesBy, (show f.name = some name from h)], by simp, by simp⟩
  | cls k => exact ⟨by simp, by simp [GoesBy, (show k.name = some name from h)], by simp⟩
  | named kind own parts =>
    obtain rfl : own = name := Option.some.inj h
    exact ⟨by simp, by simp, by simp⟩
  | bindings | ambient => cases h
  | _ => cases hst

theorem declares_of_isDeclaration (hst : st.isDeclaration)
    (h : .local exported name ∈ st.entries isExported) : st.Declares name := by
  induction st with
  | function f =>
    refine ⟨fun g hg => .inl ?_, by simp, by simp⟩
    rw [List.mem_singleton.1 hg]
    exact Option.mem_toList.1 (eq_of_mem_ownEntries h)
  | cls k =>
    refine ⟨by simp, fun g hg => .inl ?_, by simp⟩
    rw [List.mem_singleton.1 hg]
    exact Option.mem_toList.1 (eq_of_mem_ownEntries h)
  | bindings declarators =>
    refine ⟨by simp, by simp, fun _ _ => ⟨.variable, ?_⟩⟩
    exact List.mem_map.2 ⟨name, eq_of_mem_ownEntries h, rfl⟩
  | named kind own =>
    obtain rfl := List.mem_singleton.1 (eq_of_mem_ownEntries h)
    exact ⟨by simp, by simp, by simp⟩
  | ambient inner ih =>
    obtain ⟨hfunction, hcls, hother⟩ := ih hst h
    exact ⟨hfunction, hcls, hother⟩
  | _ => cases hst

theorem declares_of_exportsDeclaration (hst : st.exportsDeclaration)
    (h : .local exported name ∈ st.entries false) : st.Declares name := by
  cases st with
  | exported inner =>
    obtain ⟨hfunction, hcls, hother⟩ := declares_of_isDeclaration hst h
    exact ⟨hfunction, hcls, hother⟩
  | exportedDefault inner =>
    have hinner : inner.Declares name := by
      rcases List.mem_append.1 h with h | h
      · exact declares_of_isDeclaration hst h
      · obtain ⟨own, hown, heq⟩ := List.mem_map.1 h
        cases heq
        exact declares_of_name hst (Option.mem_toList.1 hown)
    obtain ⟨hfunction, hcls, hother⟩ := hinner
    exact ⟨hfunction, hcls, hother⟩
  | defaultFunction f =>
    cases List.mem_singleton.1 h
    exact ⟨by cases hf : f.name <;> simp [GoesBy, hf], by simp, by simp⟩
  | defaultClass k =>
    cases List.mem_singleton.1 h
    exact ⟨by simp, by cases hk : k.name <;> simp [GoesBy, hk], by simp⟩
  | _ => cases hst

end Statement

theorem FileTable.declared_ne_nil {table : FileTable} {name : String} {kind : SymbolKind} (u : UnitId)
    (h : table.symbols.get? name = some kind) : table.declared u name ≠ [] := by
  rw [declared, plainSymbols, h]
  cases kind with
  | interface =>
    rw [Table.contains]
    cases table.classes.get? name <;> simp
  | _ => simp

namespace Codebase

/-- What a statement declares is found under the name that its file has for it, and under the name that
it is exported by. -/
structure FindsExported (c : Codebase) (u : UnitId) (st : Statement) (outer name : String) : Prop where
  declared : c.declaredIn u name ≠ []
  exported : c.exported u outer ≠ []
  all : c.declaredIn u name ⊆ c.exported u outer
  function : st.functions ≠ [] → ∃ id g, .function id ∈ c.declaredIn u name
    ∧ c.declarations[id]? = some (functionDeclaration g u id) ∧ GoesBy g.name name
  cls : st.classes ≠ [] → ∃ number entry, .cls number ∈ c.declaredIn u name
    ∧ c.classes[number]? = some entry ∧ entry.unit = u

variable {c b : Codebase} {u : UnitId} {path : Path} {s : Script} {st : Statement} {outer name : String}
  {f : FunctionOutline} {k : ClassOutline}

theorem declaredIn_subset_exported (h : .local outer name ∈ c.exportsOf u) :
    c.declaredIn u name ⊆ c.exported u outer := by
  intro symbol hsymbol
  obtain ⟨later, hexplored⟩ := c.exists_explored_exported (u, outer)
  refine hexplored.given (u, outer) (hexplored.asks _ List.mem_cons_self) List.not_mem_nil symbol (.inl ?_)
  refine ⟨c.declaredIn u name, List.mem_map.2 ⟨_, h, ?_⟩, hsymbol⟩
  have hsome : (c.declaredIn u name).isEmpty = false := by
    cases hd : c.declaredIn u name with
    | nil => rw [hd] at hsymbol; cases hsymbol
    | cons => rfl
  rw [entryLead, if_pos rfl, nameLead, hsome]
  rfl

namespace Placed

variable {o : Outline}

theorem exports_eq (h : c.Placed b u (path, o)) : c.exportsOf u = o.exports := by
  obtain ⟨modules, htable⟩ := h.table
  rw [exportsOf, htable]
  rfl

theorem exists_function (h : c.Placed b u (path, o)) (hf : f ∈ o.functions) (hname : GoesBy f.name name) :
    ∃ id g, .function id ∈ c.declaredIn u name
      ∧ c.declarations[id]? = some (functionDeclaration g u id) ∧ GoesBy g.name name := by
  obtain ⟨modules, htable⟩ := h.table
  obtain ⟨i, g, hg⟩ : ∃ i g, IsFunction o name i g := exists_lastAt_iff.2 ⟨f, hf, hname⟩
  have hget := (h.get?_functions htable).2 ⟨i, g, hg, rfl⟩
  refine ⟨_, g, ?_, h.function hg.getElem?, hg.holds⟩
  rw [declaredIn, htable]
  simp [FileTable.declared, hget]

theorem exists_class (h : c.Placed b u (path, o)) (hk : k ∈ o.classes) (hname : GoesBy k.name name) :
    ∃ number entry, .cls number ∈ c.declaredIn u name ∧ c.classes[number]? = some entry ∧ entry.unit = u := by
  obtain ⟨modules, htable⟩ := h.table
  obtain ⟨j, last, hlast⟩ : ∃ j last, IsClass o name j last := exists_lastAt_iff.2 ⟨k, hk, hname⟩
  have hget := (h.get?_classes htable).2 ⟨j, last, hlast, rfl⟩
  obtain ⟨before, after, hclasses, rfl, -⟩ := hlast
  have hentry := h.classes before.length _ (by rw [hclasses]; exact getElem?_classEntries before after last)
  refine ⟨_, _, ?_, hentry, rfl⟩
  rw [declaredIn, htable]
  simp [FileTable.declared, hget]

theorem declared_symbol (h : c.Placed b u (path, o)) {kind : SymbolKind} (hkind : (name, kind) ∈ o.symbols) :
    c.declaredIn u name ≠ [] := by
  obtain ⟨modules, htable⟩ := h.table
  obtain ⟨last, hlast⟩ := Table.exists_get?_of_mem (t := ⟨o.symbols⟩) hkind
  rw [declaredIn, htable]
  exact FileTable.declared_ne_nil u hlast

theorem findsExported (h : c.Placed b u (path, Outline.ofScript s)) (hst : st ∈ s.statements)
    (hdeclares : st.Declares name) (hentry : .local outer name ∈ st.entries false) :
    c.FindsExported u st outer name := by
  have hfunction : ∀ f ∈ st.functions, ∃ id g, .function id ∈ c.declaredIn u name
      ∧ c.declarations[id]? = some (functionDeclaration g u id) ∧ GoesBy g.name name := by
    intro f hf
    obtain ⟨g, hg, hname⟩ : ∃ g ∈ (Outline.ofScript s).functions, g.name = f.name := by
      rw [Outline.functions_ofScript]
      exact (Outline.mergedFunctions _).exists_entry (fun f => rfl) (List.mem_flatMap.2 ⟨st, hst, hf⟩)
    exact h.exists_function hg (hname ▸ hdeclares.function f hf)
  have hcls : ∀ k ∈ st.classes, ∃ number entry, .cls number ∈ c.declaredIn u name
      ∧ c.classes[number]? = some entry ∧ entry.unit = u := by
    intro k hk
    have hmem : Outline.ofClass k ∈ (Outline.ofScript s).classes := by
      rw [Outline.classes_ofScript]
      exact List.mem_map_of_mem (List.mem_flatMap.2 ⟨st, hst, hk⟩)
    exact h.exists_class hmem ((Outline.name_ofClass k).symm ▸ hdeclares.cls k hk)
  have hexport : .local outer name ∈ c.exportsOf u := by
    rw [h.exports_eq]
    exact Outline.mem_exports_ofScript.2 ⟨st, hst, hentry⟩
  have hdeclared : c.declaredIn u name ≠ [] := by
    cases hfunctions : st.functions with
    | cons f =>
      obtain ⟨id, -, hid, -⟩ := hfunction f (by simp [hfunctions])
      exact List.ne_nil_of_mem hid
    | nil =>
      cases hclasses : st.classes with
      | cons k =>
        obtain ⟨number, -, hnumber, -⟩ := hcls k (by simp [hclasses])
        exact List.ne_nil_of_mem hnumber
      | nil =>
        obtain ⟨kind, hkind⟩ := hdeclares.other hfunctions hclasses
        exact h.declared_symbol (Outline.mem_symbols_ofScript.2 ⟨st, hst, hkind⟩)
  have hall := declaredIn_subset_exported hexport
  constructor
  case declared => exact hdeclared
  case exported => exact fun hnil => hdeclared (List.subset_nil.1 (hnil ▸ hall))
  case all => exact hall
  case function =>
    intro hne
    obtain ⟨f, hf⟩ := List.exists_mem_of_ne_nil _ hne
    exact hfunction f hf
  case cls =>
    intro hne
    obtain ⟨k, hk⟩ := List.exists_mem_of_ne_nil _ hne
    exact hcls k hk

end Placed

theorem WellFormed.placed_addSource {d : Codebase} (h : d.WellFormed) (f : Source) :
    (d.addSource f).Placed d d.units.size f := by
  constructor
  case unit => rw [addSource, getElem?_units_addFile, if_pos rfl]
  case table =>
    refine ⟨{}, ?_⟩
    rw [addSource, getElem?_tables_addFile, if_pos h.size_tables.symm]
    rfl
  case declarations =>
    intro i draft hdraft
    simp [addSource, getElem?_declarations_addFile, hdraft]
  case scopes =>
    intro i draft hdraft
    simp [addSource, getElem?_scopes_addFile, h.size_scopes, hdraft]
  case classes =>
    intro i entry hentry
    simp [addSource, getElem?_classes_addFile, hentry]

/-- Whatever a file exports by declaring it is found again once the file has been added to a codebase,
and in every codebase that has been loaded with the file. -/
theorem exported_declarations_found {s : Script} {st : Statement} {outer name : String}
    (hst : st ∈ s.statements) (hexports : st.exportsDeclaration)
    (hentry : .local outer name ∈ (({} : Outline).addStatement false st).exports) :
    (∀ (d : Codebase) (path : Path), d.WellFormed →
      (d.addFile path path.isForeign (Outline.ofScript s)).FindsExported d.units.size st outer name)
    ∧ ∀ (t : FileTree) (settings : Path) (c : Codebase) (u : UnitId) (path : Path),
      t.root.isWellFormed → load t settings = .ok c → c.paths[u]? = some path →
      Outline.ofFile t path = .ok (Outline.ofScript s) → c.FindsExported u st outer name := by
  have hentry : .local outer name ∈ st.entries false := by
    rw [Outline.addStatement_eq] at hentry
    exact (Outline.mem_foldl_addEntry.1 hentry).resolve_left List.not_mem_nil
  have hdeclares := Statement.declares_of_exportsDeclaration hexports hentry
  refine ⟨fun d path hwf => (hwf.placed_addSource (path, Outline.ofScript s)).findsExported hst hdeclares hentry,
    fun t settings c u path ht hload hpath houtline => ?_⟩
  obtain ⟨p, files, -, hread, -, rfl⟩ := exists_sources_of_load ht hload
  rw [paths_ofSources, List.getElem?_map] at hpath
  obtain ⟨⟨path, o⟩, hf, rfl⟩ := Option.map_eq_some_iff.1 hpath
  obtain rfl : o = Outline.ofScript s :=
    Except.ok.inj ((hread.outlines _ (List.mem_of_getElem? hf)).symm.trans houtline)
  exact (placed_ofSources _ _ _ hread.nodup hf).findsExported hst hdeclares hentry

def shopText : String :=
  "export interface Order \x7b\x7d\nexport class Order \x7b\x7d\nexport default function () \x7b\x7d"

def shop : FileTree where
  top := [("tsconfig.json", .file (.text "\x7b\"files\":[\"main.ts\"]\x7d")), ("main.ts", .file (.text shopText))]

theorem shop_found :
    ∃ c, load shop ⟨"tsconfig.json"⟩ = .ok c
      ∧ (∃ st ∈ (Script.ofText .typeScript shopText).statements, st.symbols = [("Order", .interface)]
        ∧ c.FindsExported 0 st "Order" "Order")
      ∧ ∃ st ∈ (Script.ofText .typeScript shopText).statements, st.functions.map Function.name = [none]
        ∧ c.FindsExported 0 st "default" "default" := by
  have hload : ∃ c ∈ (load shop ⟨"tsconfig.json"⟩).toOption, c.paths = [⟨"/main.ts"⟩] := by decide +kernel
  have houtline : ∃ o ∈ (Outline.ofFile shop ⟨"/main.ts"⟩).toOption,
      o = Outline.ofScript (Script.ofText .typeScript shopText) := by decide +kernel
  have hinterface : ∃ st ∈ (Script.ofText .typeScript shopText).statements, st.exportsDeclaration
      ∧ .local "Order" "Order" ∈ (({} : Outline).addStatement false st).exports
      ∧ st.symbols = [("Order", .interface)] := by decide +kernel
  have hunnamed : ∃ st ∈ (Script.ofText .typeScript shopText).statements, st.exportsDeclaration
      ∧ .local "default" "default" ∈ (({} : Outline).addStatement false st).exports
      ∧ st.functions.map Function.name = [none] := by decide +kernel
  obtain ⟨c, hc, hpaths⟩ := exists_ok_of_toOption hload
  obtain ⟨o, ho, rfl⟩ := exists_ok_of_toOption houtline
  have hpath : c.paths[0]? = some ⟨"/main.ts"⟩ := by rw [hpaths]; rfl
  refine ⟨c, hc, ?_, ?_⟩
  · obtain ⟨st, hst, hexports, hentry, hsymbols⟩ := hinterface
    exact ⟨st, hst, hsymbols,
      (exported_declarations_found hst hexports hentry).2 _ _ _ _ _ (by decide) hc hpath ho⟩
  · obtain ⟨st, hst, hexports, hentry, hnames⟩ := hunnamed
    exact ⟨st, hst, hnames,
      (exported_declarations_found hst hexports hentry).2 _ _ _ _ _ (by decide) hc hpath ho⟩

end Codebase

end CallDiagram
