import CallDiagram.Codebase.Basic

namespace CallDiagram.Codebase

def paths (c : Codebase) : List Path := c.units.toList.map (·.path)

structure SameFiles (c d : Codebase) : Prop where
  units : d.units = c.units
  tables : d.tables = c.tables
  unitByPath : d.unitByPath = c.unitByPath

namespace SameFiles

variable {a c d : Codebase}

theorem refl (c : Codebase) : c.SameFiles c := ⟨rfl, rfl, rfl⟩

theorem trans (h : a.SameFiles c) (h' : c.SameFiles d) : a.SameFiles d :=
  ⟨h'.units.trans h.units, h'.tables.trans h.tables, h'.unitByPath.trans h.unitByPath⟩

theorem foldl {σ α : Type} {step : Codebase × σ → α → Codebase × σ}
    (h : ∀ s a, SameFiles s.1 (step s a).1) (l : List α) (s : Codebase × σ) :
    SameFiles s.1 (l.foldl step s).1 := by
  induction l generalizing s with
  | nil => exact refl s.1
  | cons a l ih => exact (h s a).trans (ih (step s a))

theorem addFunction (unit : UnitId) (s : Codebase × FileTable) (f : FunctionOutline) :
    SameFiles s.1 (addFunction unit s f).1 :=
  ⟨rfl, rfl, rfl⟩

theorem addMethod (unit : UnitId) (cls : ClassId) (container : Option String)
    (s : Codebase × ClassEntry) (m : MethodOutline) :
    SameFiles s.1 (addMethod unit cls container s m).1 :=
  ⟨rfl, rfl, rfl⟩

theorem addClass (unit : UnitId) (s : Codebase × FileTable) (o : ClassOutline) :
    SameFiles s.1 (addClass unit s o).1 := by
  have h := foldl (addMethod unit s.1.classes.size o.name) o.methods
    (s.1, { unit, base := o.base, fields := ⟨o.fields⟩ })
  exact ⟨h.units, h.tables, h.unitByPath⟩

end SameFiles

def declare (c : Codebase) (path : Path) (o : Outline) : Codebase × FileTable :=
  o.classes.foldl (addClass c.units.size)
    (o.functions.foldl (addFunction c.units.size) (c, plainTable path o))

theorem sameFiles_declare (c : Codebase) (path : Path) (o : Outline) :
    c.SameFiles (c.declare path o).1 := by
  have hfunctions := SameFiles.foldl (SameFiles.addFunction c.units.size) o.functions
    (c, plainTable path o)
  exact hfunctions.trans (SameFiles.foldl (SameFiles.addClass c.units.size) o.classes _)

theorem addFile_eq (c : Codebase) (path : Path) (foreign : Bool) (o : Outline) :
    c.addFile path foreign o =
      { (c.declare path o).1 with
        units := c.units.push { id := c.units.size, path, foreign }
        tables := c.tables.push (c.declare path o).2
        unitByPath := c.unitByPath.set path c.units.size } := by
  have h := sameFiles_declare c path o
  rw [← h.tables, ← h.unitByPath]
  have hunits : c.units.push { id := c.units.size, path, foreign } =
      (c.declare path o).1.units.push { id := c.units.size, path, foreign } := by rw [h.units]
  rw [hunits]
  rfl

structure Lists (c : Codebase) (paths : List Path) : Prop where
  paths_eq : c.paths = paths
  size_tables : c.tables.size = paths.length
  unit_iff : ∀ path unit, c.unitByPath.get? path = some unit ↔ paths[unit]? = some path

theorem lists_empty : Lists {} [] := ⟨rfl, rfl, by simp⟩

theorem getElem?_concat_eq_some {paths : List Path} {path other : Path} {unit : UnitId} :
    (paths ++ [path])[unit]? = some other ↔
      paths[unit]? = some other ∨ unit = paths.length ∧ path = other := by
  rcases Nat.lt_trichotomy unit paths.length with hlt | heq | hgt
  · simp [List.getElem?_append_left hlt, Nat.ne_of_lt hlt]
  · simp [heq]
  · have hend : (paths ++ [path]).length ≤ unit := by
      rw [List.length_append, List.length_singleton]
      exact hgt
    rw [List.getElem?_eq_none hend, List.getElem?_eq_none (Nat.le_of_lt hgt)]
    simp [Nat.ne_of_gt hgt]

theorem Lists.addFile {c : Codebase} {paths : List Path} {path : Path} (h : c.Lists paths)
    (hfresh : path ∉ paths) (foreign : Bool) (o : Outline) :
    (c.addFile path foreign o).Lists (paths ++ [path]) := by
  have hsize : c.units.size = paths.length := by
    rw [← h.paths_eq, Codebase.paths, List.length_map, Array.length_toList]
  rw [addFile_eq]
  refine ⟨?_, by simp [h.size_tables], fun other unit => ?_⟩
  · have hpaths : c.units.toList.map (·.path) = paths := h.paths_eq
    simp [Codebase.paths, hpaths]
  · rw [Table.get?_set, hsize, getElem?_concat_eq_some]
    split
    · next hother =>
      subst hother
      have hmem : paths[unit]? ≠ some other := fun hget => hfresh (List.mem_of_getElem? hget)
      simp [hmem, eq_comm]
    · next hother => simp [h.unit_iff, Ne.symm hother]

end CallDiagram.Codebase
