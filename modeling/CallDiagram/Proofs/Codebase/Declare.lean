import CallDiagram.Proofs.Codebase.AddFile

namespace CallDiagram.Codebase

abbrev Draft := (DeclarationId → Declaration) × Scope

def functionDraft (unit : UnitId) (f : FunctionOutline) : Draft :=
  (functionDeclaration f unit, { bindings := ⟨f.body.bindings⟩ })

def methodDraft (unit : UnitId) (cls : ClassId) (container : Option String) (m : MethodOutline) :
    Draft :=
  (methodDeclaration m container unit,
    { cls := some cls, isStatic := m.isStatic, bindings := ⟨m.body.bindings⟩ })

def classDrafts (unit : UnitId) : (first : ClassId) → List ClassOutline → List Draft
  | _, [] => []
  | first, o :: rest =>
    o.methods.map (methodDraft unit first o.name) ++ classDrafts unit (first + 1) rest

def drafts (unit : UnitId) (first : ClassId) (o : Outline) : List Draft :=
  o.functions.map (functionDraft unit) ++ classDrafts unit first o.classes

def methodCount : List ClassOutline → Nat
  | [] => 0
  | o :: rest => o.methods.length + methodCount rest

def declarationCount (o : Outline) : Nat := o.functions.length + methodCount o.classes

def classEntries (unit : UnitId) : (next : DeclarationId) → List ClassOutline → List ClassEntry
  | _, [] => []
  | next, o :: rest =>
    { unit, base := o.base, fields := ⟨o.fields⟩
      methods := ⟨o.methods.mapIdx fun i m => ((m.name, m.isStatic), next + i)⟩ }
      :: classEntries unit (next + o.methods.length) rest

def fileTable (path : Path) (o : Outline) (next : DeclarationId) (first : ClassId) : FileTable :=
  { plainTable path o with
    functions := ⟨o.functions.mapIdx fun i f => (tableName f.name, next + i)⟩
    classes := ⟨o.classes.mapIdx fun i cls => (tableName cls.name, first + i)⟩ }

def addDrafts (c : Codebase) (drafts : List Draft) : Codebase :=
  { c with
    declarations := c.declarations
      ++ (drafts.mapIdx fun i draft => draft.1 (c.declarations.size + i)).toArray
    scopes := c.scopes ++ (drafts.map Prod.snd).toArray }

section Drafts

variable (c : Codebase)

theorem addDeclaration_eq (make : DeclarationId → Declaration) (scope : Scope) :
    c.addDeclaration make scope = c.addDrafts [(make, scope)] := by
  simp [addDeclaration, addDrafts]

@[simp] theorem addDrafts_nil : c.addDrafts [] = c := by simp [addDrafts]

@[simp] theorem size_addDrafts (l : List Draft) :
    (c.addDrafts l).declarations.size = c.declarations.size + l.length := by simp [addDrafts]

@[simp] theorem classes_addDrafts (l : List Draft) : (c.addDrafts l).classes = c.classes := rfl

@[simp] theorem addDrafts_addDrafts (l more : List Draft) :
    (c.addDrafts l).addDrafts more = c.addDrafts (l ++ more) := by
  simp [addDrafts, List.mapIdx_append, Nat.add_assoc, Nat.add_comm l.length]

theorem addFunction_eq (unit : UnitId) (table : FileTable) (f : FunctionOutline) :
    addFunction unit (c, table) f =
      (c.addDrafts [functionDraft unit f],
        { table with functions := table.functions.set (tableName f.name) c.declarations.size }) := by
  rw [addFunction, addDeclaration_eq]
  rfl

theorem addMethod_eq (unit : UnitId) (cls : ClassId) (container : Option String) (e : ClassEntry)
    (m : MethodOutline) :
    addMethod unit cls container (c, e) m =
      (c.addDrafts [methodDraft unit cls container m],
        { e with methods := e.methods.set (m.name, m.isStatic) c.declarations.size }) := by
  rw [addMethod, addDeclaration_eq]
  rfl

theorem foldl_addFunction (unit : UnitId) (table : FileTable) (functions : List FunctionOutline) :
    functions.foldl (addFunction unit) (c, table) =
      (c.addDrafts (functions.map (functionDraft unit)),
        { table with functions := ⟨table.functions.entries ++ functions.mapIdx fun i f =>
            (tableName f.name, c.declarations.size + i)⟩ }) := by
  induction functions generalizing c table with
  | nil => simp
  | cons f functions ih =>
    rw [List.foldl_cons, addFunction_eq, ih]
    simp [Table.set, List.mapIdx_cons, Nat.add_comm 1, Nat.add_assoc]

theorem foldl_addMethod (unit : UnitId) (cls : ClassId) (container : Option String) (e : ClassEntry)
    (methods : List MethodOutline) :
    methods.foldl (addMethod unit cls container) (c, e) =
      (c.addDrafts (methods.map (methodDraft unit cls container)),
        { e with methods := ⟨e.methods.entries ++ methods.mapIdx fun i m =>
            ((m.name, m.isStatic), c.declarations.size + i)⟩ }) := by
  induction methods generalizing c e with
  | nil => simp
  | cons m methods ih =>
    rw [List.foldl_cons, addMethod_eq, ih]
    simp [Table.set, List.mapIdx_cons, Nat.add_comm 1, Nat.add_assoc]

theorem addClass_eq (unit : UnitId) (table : FileTable) (o : ClassOutline) :
    addClass unit (c, table) o =
      ({ c.addDrafts (classDrafts unit c.classes.size [o]) with
          classes := c.classes ++ (classEntries unit c.declarations.size [o]).toArray },
        { table with classes := table.classes.set (tableName o.name) c.classes.size }) := by
  simp only [addClass, foldl_addMethod]
  simp [classDrafts, classEntries]

theorem foldl_addClass (unit : UnitId) (table : FileTable) (classes : List ClassOutline) :
    classes.foldl (addClass unit) (c, table) =
      ({ c.addDrafts (classDrafts unit c.classes.size classes) with
          classes := c.classes ++ (classEntries unit c.declarations.size classes).toArray },
        { table with classes := ⟨table.classes.entries ++ classes.mapIdx fun i o =>
            (tableName o.name, c.classes.size + i)⟩ }) := by
  induction classes generalizing c table with
  | nil => simp [classDrafts, classEntries]
  | cons o classes ih =>
    rw [List.foldl_cons, addClass_eq, ih]
    have hsplit : classDrafts unit c.classes.size (o :: classes) =
        classDrafts unit c.classes.size [o] ++ classDrafts unit (c.classes.size + 1) classes := by
      simp [classDrafts]
    rw [hsplit, ← addDrafts_addDrafts]
    simp [addDrafts, classDrafts, classEntries, Table.set, List.mapIdx_cons, Nat.add_comm 1,
      Nat.add_assoc]

theorem addFile_eq_drafts (path : Path) (foreign : Bool) (o : Outline) :
    c.addFile path foreign o =
      { c.addDrafts (drafts c.units.size c.classes.size o) with
        classes := c.classes
          ++ (classEntries c.units.size (c.declarations.size + o.functions.length) o.classes).toArray
        units := c.units.push { id := c.units.size, path, foreign }
        tables := c.tables.push (fileTable path o c.declarations.size c.classes.size)
        unitByPath := c.unitByPath.set path c.units.size } := by
  rw [addFile_eq, declare, foldl_addFunction, foldl_addClass, drafts, ← addDrafts_addDrafts]
  simp [addDrafts, fileTable, plainTable]

end Drafts

section Count

variable {unit : UnitId} {first : ClassId} {next : DeclarationId}

theorem length_classDrafts (classes : List ClassOutline) :
    (classDrafts unit first classes).length = methodCount classes := by
  induction classes generalizing first with
  | nil => rfl
  | cons o classes ih => simp [classDrafts, methodCount, ih]

theorem length_drafts (o : Outline) : (drafts unit first o).length = declarationCount o := by
  simp [drafts, declarationCount, length_classDrafts]

theorem length_classEntries (classes : List ClassOutline) :
    (classEntries unit next classes).length = classes.length := by
  induction classes generalizing next with
  | nil => rfl
  | cons o classes ih => simp [classEntries, ih]

theorem getElem?_classEntries (before after : List ClassOutline) (o : ClassOutline) :
    (classEntries unit next (before ++ o :: after))[before.length]? =
      some { unit, base := o.base, fields := ⟨o.fields⟩
             methods := ⟨o.methods.mapIdx fun i m =>
               ((m.name, m.isStatic), next + methodCount before + i)⟩ } := by
  induction before generalizing next with
  | nil => rfl
  | cons other before ih =>
    rw [List.cons_append, classEntries, List.length_cons, List.getElem?_cons_succ, ih]
    simp only [methodCount, Nat.add_assoc]

theorem getElem?_classDrafts (before after : List ClassOutline) {o : ClassOutline} {i : Nat} {m : MethodOutline}
    (hm : o.methods[i]? = some m) :
    (classDrafts unit first (before ++ o :: after))[methodCount before + i]? =
      some (methodDraft unit (first + before.length) o.name m) := by
  induction before generalizing first with
  | nil =>
    have hi := (List.getElem?_eq_some_iff.1 hm).1
    rw [List.nil_append, classDrafts, methodCount, Nat.zero_add, List.getElem?_append_left (by simpa using hi),
      List.getElem?_map, hm]
    rfl
  | cons other before ih =>
    have hskip : methodCount (other :: before) + i = other.methods.length + (methodCount before + i) :=
      Nat.add_assoc _ _ _
    have hnumber : first + 1 + before.length = first + (other :: before).length := by
      rw [List.length_cons, Nat.add_assoc, Nat.add_comm 1]
    rw [List.cons_append, classDrafts, hskip, List.getElem?_append_right (by simp), List.length_map,
      Nat.add_sub_cancel_left, ih, hnumber]

theorem eq_methodDraft_of_mem {classes : List ClassOutline} {draft : Draft}
    (h : draft ∈ classDrafts unit first classes) :
    ∃ cls container m, draft = methodDraft unit cls container m := by
  induction classes generalizing first with
  | nil => cases h
  | cons o classes ih =>
    cases List.mem_append.1 h with
    | inl h =>
      obtain ⟨m, -, rfl⟩ := List.mem_map.1 h
      exact ⟨first, o.name, m, rfl⟩
    | inr h => exact ih h

theorem eq_draft_of_mem {o : Outline} {draft : Draft} (h : draft ∈ drafts unit first o) :
    (∃ f, draft = functionDraft unit f) ∨ ∃ cls container m, draft = methodDraft unit cls container m := by
  cases List.mem_append.1 h with
  | inl h =>
    obtain ⟨f, -, rfl⟩ := List.mem_map.1 h
    exact .inl ⟨f, rfl⟩
  | inr h => exact .inr (eq_methodDraft_of_mem h)

theorem id_of_mem_drafts {o : Outline} {draft : Draft} (h : draft ∈ drafts unit first o)
    (i : DeclarationId) : (draft.1 i).id = i := by
  rcases eq_draft_of_mem h with ⟨f, rfl⟩ | ⟨cls, container, m, rfl⟩
  · rfl
  · rfl

variable (unit) (first) in
theorem exists_draft_of_classEntries {classes : List ClassOutline} {j : Nat} {e : ClassEntry}
    {key : String × Bool} {i : DeclarationId} (he : (classEntries unit next classes)[j]? = some e)
    (hi : e.methods.get? key = some i) :
    ∃ p container m, i = next + p
      ∧ (classDrafts unit first classes)[p]? = some (methodDraft unit (first + j) container m)
      ∧ key = (m.name, m.isStatic) := by
  induction classes generalizing next first j with
  | nil => cases he
  | cons o classes ih =>
    cases j with
    | zero =>
      cases he
      obtain ⟨p, hp, heq⟩ := List.mem_mapIdx.1 (Table.mem_entries_of_get? hi)
      obtain ⟨rfl, rfl⟩ := Prod.mk.inj heq
      refine ⟨p, o.name, o.methods[p], rfl, ?_, rfl⟩
      rw [classDrafts, List.getElem?_append_left (by simpa using hp)]
      simp [hp]
    | succ j =>
      obtain ⟨p, container, m, rfl, hdraft, hkey⟩ := ih (first + 1) he
      refine ⟨o.methods.length + p, container, m, Nat.add_assoc _ _ _, ?_, hkey⟩
      have hnext : first + 1 + j = first + (j + 1) := by rw [Nat.add_assoc, Nat.add_comm 1]
      rw [classDrafts, List.getElem?_append_right (by simp), List.length_map, Nat.add_sub_cancel_left,
        hdraft, hnext]

variable (unit) in
theorem exists_draft_of_fileTable {path : Path} {o : Outline} {name : String} {i : DeclarationId}
    (hi : (fileTable path o next first).functions.get? name = some i) :
    ∃ p f, i = next + p ∧ (drafts unit first o)[p]? = some (functionDraft unit f) := by
  obtain ⟨p, hp, heq⟩ := List.mem_mapIdx.1 (Table.mem_entries_of_get? hi)
  refine ⟨p, o.functions[p], (Prod.mk.inj heq).2.symm, ?_⟩
  rw [drafts, List.getElem?_append_left (by simpa using hp)]
  simp [hp]

end Count

end CallDiagram.Codebase
