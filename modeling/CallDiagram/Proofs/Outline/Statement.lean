import CallDiagram.Outline.Script

namespace CallDiagram

def Node.variable? : Node → Option String
  | .declarator (.name text) .. => some text
  | _ => none

namespace Statement

@[simp] def functions : Statement → List Function
  | .function f | .defaultFunction f => [f]
  | .ambient inner | .exported inner | .exportedDefault inner => inner.functions
  | _ => []

@[simp] def classes : Statement → List ClassDefinition
  | .cls c | .defaultClass c => [c]
  | .ambient inner | .exported inner | .exportedDefault inner => inner.classes
  | _ => []

@[simp] def symbols : Statement → List (String × SymbolKind)
  | .bindings declarators => (declarators.filterMap Node.variable?).map fun name => (name, .variable)
  | .named kind name _ => [(name, kind)]
  | .ambient inner | .exported inner | .exportedDefault inner => inner.symbols
  | _ => []

@[simp] def variableTypes : Statement → List (String × String)
  | .bindings declarators => declarators.filterMap Node.binding?
  | .ambient inner | .exported inner | .exportedDefault inner => inner.variableTypes
  | _ => []

@[simp] def importBindings : Statement → List ImportBinding
  | .imports names _ => names
  | .ambient inner | .exported inner | .exportedDefault inner => inner.importBindings
  | _ => []

def ownEntries (isExported : Bool) (names : List String) : List ExportEntry :=
  if isExported then names.map fun name => .local name name else []

@[simp] def entries (isExported : Bool) : Statement → List ExportEntry
  | .function f => ownEntries isExported f.name.toList
  | .cls c => ownEntries isExported c.name.toList
  | .bindings declarators => ownEntries isExported (declarators.filterMap Node.variable?)
  | .named _ name _ => ownEntries isExported [name]
  | .ambient inner => inner.entries isExported
  | .exported inner => inner.entries true
  | .exportedDefault inner =>
    inner.entries false ++ inner.name?.toList.map (ExportEntry.local Outline.defaultName)
  | .defaultFunction f => [.local Outline.defaultName (f.name.getD Outline.defaultName)]
  | .defaultClass c => [.local Outline.defaultName (c.name.getD Outline.defaultName)]
  | .exports listed _ => listed
  | .imports .. | .other _ => []

end Statement

namespace Outline

open Statement (ownEntries)

def addEntry (exports : List ExportEntry) (entry : ExportEntry) : List ExportEntry :=
  if entry.localName?.isSome && exports.contains entry then exports else exports ++ [entry]

theorem mem_addEntry {exports : List ExportEntry} {entry other : ExportEntry} :
    other ∈ addEntry exports entry ↔ other ∈ exports ∨ other = entry := by
  rw [addEntry]
  split
  next h =>
    have hentry : entry ∈ exports := List.contains_iff_mem.1 (Bool.and_eq_true_iff.1 h).2
    exact ⟨.inl, fun h => h.elim id fun h => h ▸ hentry⟩
  next => rw [List.mem_append, List.mem_singleton]

theorem mem_foldl_addEntry {exports entries : List ExportEntry} {entry : ExportEntry} :
    entry ∈ entries.foldl addEntry exports ↔ entry ∈ exports ∨ entry ∈ entries := by
  induction entries generalizing exports with
  | nil => simp
  | cons first entries ih => rw [List.foldl_cons, ih, mem_addEntry, List.mem_cons, or_assoc]

theorem exportLocal_eq (o : Outline) (exported name : String) :
    o.exportLocal exported name = { o with exports := addEntry o.exports (.local exported name) } := by
  rw [exportLocal, addEntry, ExportEntry.localName?, Option.isSome_some, Bool.true_and]
  split <;> rfl

theorem addExport_eq (o : Outline) (entry : ExportEntry) :
    o.addExport entry = { o with exports := addEntry o.exports entry } := by
  cases entry with
  | «local» exported name => exact exportLocal_eq o exported name
  | _ => rfl

theorem foldl_addExport (o : Outline) (entries : List ExportEntry) :
    entries.foldl addExport o = { o with exports := entries.foldl addEntry o.exports } := by
  induction entries generalizing o with
  | nil => rfl
  | cons entry entries ih => rw [List.foldl_cons, ih, addExport_eq, List.foldl_cons]

theorem exportIf_eq (o : Outline) (isExported : Bool) (name : String) :
    o.exportIf isExported name =
      { o with exports := (ownEntries isExported [name]).foldl addEntry o.exports } := by
  cases isExported with
  | false => rfl
  | true => exact exportLocal_eq o name name

theorem elim_exportIf (o : Outline) (isExported : Bool) (name : Option String) :
    name.elim o (o.exportIf isExported) =
      { o with exports := (ownEntries isExported name.toList).foldl addEntry o.exports } := by
  cases name with
  | none => cases isExported <;> rfl
  | some name => exact exportIf_eq o isExported name

theorem ownEntries_cons (isExported : Bool) (name : String) (names : List String) :
    ownEntries isExported (name :: names) =
      ownEntries isExported [name] ++ ownEntries isExported names := by
  cases isExported <;> rfl

theorem addVariable_of_none {d : Node} (h : d.variable? = none) (isExported : Bool) (o : Outline) :
    addVariable isExported o d = o ∧ d.binding? = none := by
  rcases d with _ | _ | _ | _ | _ | _ | ⟨target, typeName, types, value⟩ | _ <;> try exact ⟨rfl, rfl⟩
  cases target with
  | name => cases h
  | _ => exact ⟨rfl, rfl⟩

theorem addVariable_of_some {d : Node} {name : String} (h : d.variable? = some name) (isExported : Bool)
    (o : Outline) : addVariable isExported o d = { o with
      symbols := o.symbols ++ [(name, .variable)]
      variableTypes := o.variableTypes ++ d.binding?.toList
      exports := (ownEntries isExported [name]).foldl addEntry o.exports } := by
  rcases d with _ | _ | _ | _ | _ | _ | ⟨target, typeName, types, value⟩ | _ <;> try cases h
  cases target with
  | name text =>
    obtain rfl := Option.some.inj h
    rw [addVariable, exportIf_eq]
  | _ => cases h

theorem foldl_addVariable (isExported : Bool) (o : Outline) (declarators : List Node) :
    declarators.foldl (addVariable isExported) o = { o with
      symbols := o.symbols ++ (Statement.bindings declarators).symbols
      variableTypes := o.variableTypes ++ (Statement.bindings declarators).variableTypes
      exports := ((Statement.bindings declarators).entries isExported).foldl addEntry o.exports } := by
  simp only [Statement.symbols, Statement.variableTypes, Statement.entries]
  induction declarators generalizing o with
  | nil => cases isExported <;> simp [ownEntries]
  | cons d declarators ih =>
    rw [List.foldl_cons, ih]
    cases hd : d.variable? with
    | none =>
      obtain ⟨hsame, hbinding⟩ := addVariable_of_none hd isExported o
      rw [hsame, List.filterMap_cons_none hd, List.filterMap_cons_none hbinding]
    | some name =>
      have htypes : (d :: declarators).filterMap Node.binding? =
          d.binding?.toList ++ declarators.filterMap Node.binding? := by
        cases hbinding : d.binding? <;> simp [hbinding]
      rw [addVariable_of_some hd, List.filterMap_cons_some hd, htypes,
        ownEntries_cons isExported name (declarators.filterMap _), List.foldl_append, List.map_cons,
        List.append_assoc, List.append_assoc, List.singleton_append]

theorem addStatement_eq (o : Outline) (isExported : Bool) (st : Statement) :
    o.addStatement isExported st = { o with
      functions := st.functions.foldl addFunction o.functions
      classes := o.classes ++ st.classes.map ofClass
      symbols := o.symbols ++ st.symbols
      variableTypes := o.variableTypes ++ st.variableTypes
      imports := o.imports ++ st.importBindings
      exports := (st.entries isExported).foldl addEntry o.exports } := by
  induction st generalizing o isExported with
  | function f =>
    rw [addStatement, elim_exportIf]
    simp
  | cls c =>
    rw [addStatement, elim_exportIf]
    simp
  | bindings declarators =>
    rw [addStatement, foldl_addVariable]
    simp
  | named kind name =>
    rw [addStatement, exportIf_eq]
    simp
  | ambient inner ih => exact ih o isExported
  | exported inner ih => exact ih o true
  | exportedDefault inner ih =>
    rw [addStatement, ih o false]
    rw [Statement.entries, List.foldl_append]
    cases inner.name? with
    | none => rfl
    | some name => exact exportLocal_eq _ _ _
  | defaultFunction f =>
    rw [addStatement, exportLocal_eq]
    simp
  | defaultClass c =>
    rw [addStatement, exportLocal_eq]
    simp
  | imports names =>
    simp [addStatement]
  | exports listed =>
    rw [addStatement, foldl_addExport]
    simp
  | other part =>
    simp [addStatement]

theorem name_addMember (c : ClassOutline) (member : ClassMember) : (addMember c member).name = c.name := by
  cases member with
  | method m =>
    rw [addMember]
    repeat' split
    all_goals rfl
  | field | other => rfl

@[simp] theorem name_ofClass (d : ClassDefinition) : (ofClass d).name = d.name := by
  have hrun : ∀ (members : List ClassMember) (c : ClassOutline),
      (members.foldl addMember c).name = c.name := by
    intro members
    induction members with
    | nil => exact fun c => rfl
    | cons member members ih => exact fun c => (ih _).trans (name_addMember c member)
  exact hrun d.members _

theorem foldl_addStatement (o : Outline) (statements : List Statement) :
    statements.foldl (fun o st => o.addStatement false st) o = { o with
      functions := (statements.flatMap Statement.functions).foldl addFunction o.functions
      classes := o.classes ++ (statements.flatMap Statement.classes).map ofClass
      symbols := o.symbols ++ statements.flatMap Statement.symbols
      variableTypes := o.variableTypes ++ statements.flatMap Statement.variableTypes
      imports := o.imports ++ statements.flatMap Statement.importBindings
      exports := (statements.flatMap (Statement.entries false)).foldl addEntry o.exports } := by
  induction statements generalizing o with
  | nil => simp
  | cons st statements ih =>
    rw [List.foldl_cons, ih, addStatement_eq]
    simp only [List.flatMap_cons, List.foldl_append, List.map_append, List.append_assoc]

variable {s : Script}

theorem functions_ofScript :
    (ofScript s).functions = (s.statements.flatMap Statement.functions).foldl addFunction [] := by
  rw [ofScript, foldl_addStatement]

theorem classes_ofScript :
    (ofScript s).classes = (s.statements.flatMap Statement.classes).map ofClass := by
  rw [ofScript, foldl_addStatement]
  exact List.nil_append _

theorem mem_symbols_ofScript {symbol : String × SymbolKind} :
    symbol ∈ (ofScript s).symbols ↔ ∃ st ∈ s.statements, symbol ∈ st.symbols := by
  rw [ofScript, foldl_addStatement]
  simp

theorem mem_exports_ofScript {entry : ExportEntry} :
    entry ∈ (ofScript s).exports ↔ ∃ st ∈ s.statements, entry ∈ st.entries false := by
  rw [ofScript, foldl_addStatement]
  simp [mem_foldl_addEntry]

end Outline

end CallDiagram
