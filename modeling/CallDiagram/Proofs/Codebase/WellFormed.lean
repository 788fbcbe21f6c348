import CallDiagram.Proofs.Renumbering.File

/-!
Well-formed codebases: all arrays grow in step, and every number that is stored anywhere leads to what
it was given out for. Adding a file keeps a codebase well formed.
-/

namespace CallDiagram.Codebase

/-- The numbers of files and declarations are their places, each path leads to its file, and whatever
is stored for a file belongs to that file. -/
structure WellFormed (c : Codebase) : Prop where
  size_tables : c.tables.size = c.units.size
  size_scopes : c.scopes.size = c.declarations.size
  unit_id : ∀ {u : UnitId} {x}, c.units[u]? = some x → x.id = u
  declaration_id : ∀ {i : DeclarationId} {x}, c.declarations[i]? = some x → x.id = i
  nodup_paths : c.paths.Nodup
  unitByPath : ∀ path u, c.unitByPath.get? path = some u ↔ c.paths[u]? = some path
  declarations : ∀ {i : DeclarationId} {x}, c.declarations[i]? = some x → x.unit < c.units.size
  classes : ∀ {k : ClassId} {e}, c.classes[k]? = some e → e.unit < c.units.size
  functions : ∀ {u : UnitId} {t n i}, c.tables[u]? = some t → t.functions.get? n = some i →
    ∃ x, c.declarations[i]? = some x ∧ x.unit = u
  classNames : ∀ {u : UnitId} {t n k}, c.tables[u]? = some t → t.classes.get? n = some k →
    ∃ e, c.classes[k]? = some e ∧ e.unit = u
  modules : ∀ {u : UnitId} {t source v}, c.tables[u]? = some t →
    t.modules.get? source = some v → v < c.units.size
  methods : ∀ {k : ClassId} {e key i}, c.classes[k]? = some e → e.methods.get? key = some i →
    ∃ x, c.declarations[i]? = some x ∧ x.unit = e.unit
  scopes : ∀ {i : DeclarationId} {x s k}, c.declarations[i]? = some x → c.scopes[i]? = some s →
    s.cls = some k → ∃ e, c.classes[k]? = some e ∧ e.unit = x.unit
  projectUnits : ∀ u ∈ c.projectUnits, u < c.units.size

section AddFile

variable {c : Codebase} {path : Path} {foreign : Bool} {o : Outline}

theorem getElem?_units_addFile (u : UnitId) : (c.addFile path foreign o).units[u]? =
    if u = c.units.size then some { id := u, path, foreign } else c.units[u]? := by
  rw [addFile_eq_drafts, Array.getElem?_push]
  split
  · next h => rw [h]
  · rfl

theorem getElem?_tables_addFile (u : UnitId) : (c.addFile path foreign o).tables[u]? =
    if u = c.tables.size then some (fileTable path o c.declarations.size c.classes.size)
    else c.tables[u]? := by
  rw [addFile_eq_drafts, Array.getElem?_push]

theorem getElem?_declarations_addFile (i : DeclarationId) :
    (c.addFile path foreign o).declarations[i]? =
      if i < c.declarations.size then c.declarations[i]?
      else (drafts c.units.size c.classes.size o)[i - c.declarations.size]?.map (·.1 i) := by
  rw [addFile_eq_drafts, addDrafts, Array.getElem?_append]
  split
  · rfl
  · next h =>
    rw [List.getElem?_toArray, List.getElem?_mapIdx, Nat.add_sub_of_le (Nat.le_of_not_lt h)]

theorem getElem?_scopes_addFile (i : DeclarationId) :
    (c.addFile path foreign o).scopes[i]? =
      if i < c.scopes.size then c.scopes[i]?
      else (drafts c.units.size c.classes.size o)[i - c.scopes.size]?.map Prod.snd := by
  rw [addFile_eq_drafts, addDrafts, Array.getElem?_append]
  split
  · rfl
  · rw [List.getElem?_toArray, List.getElem?_map]

theorem getElem?_classes_addFile (k : ClassId) :
    (c.addFile path foreign o).classes[k]? =
      if k < c.classes.size then c.classes[k]?
      else (classEntries c.units.size (c.declarations.size + o.functions.length)
        o.classes)[k - c.classes.size]? := by
  rw [addFile_eq_drafts, Array.getElem?_append]
  split
  · rfl
  · rw [List.getElem?_toArray]

end AddFile

def added (c : Codebase) (o : Outline) : Renumbering where
  unit u v := u = v ∧ u = c.units.size
  declaration i j := i = j ∧ ∃ k < declarationCount o, i = c.declarations.size + k
  cls i j := i = j ∧ ∃ k < o.classes.length, i = c.classes.size + k

theorem covers_added (c : Codebase) (o : Outline) : (c.added o).Covers c c o where
  unit := ⟨rfl, rfl⟩
  declaration k hk := ⟨rfl, k, hk, rfl⟩
  cls k hk := ⟨rfl, k, hk, rfl⟩

theorem rel_self {α : Type} {R : α → α → Prop} {o : Option α} {a : α} (h : Option.Rel R o o)
    (ha : o = some a) : R a a := by
  subst ha
  cases h with
  | some h => exact h

theorem rel_self_of_mem {α : Type} {R : α → α → Prop} {l : List α} (h : List.Forall₂ R l l) {a : α}
    (ha : a ∈ l) : R a a := List.forall₂_same.1 h a ha

namespace WellFormed

variable {c : Codebase} {path : Path} {foreign : Bool} {o : Outline}

theorem lists (h : c.WellFormed) : c.Lists c.paths where
  paths_eq := rfl
  size_tables := by rw [h.size_tables, paths, List.length_map, Array.length_toList]
  unit_iff := h.unitByPath

theorem empty : ({} : Codebase).WellFormed := by
  constructor <;> simp [paths]

theorem exists_new_declaration (path : Path) (foreign : Bool) {i : DeclarationId}
    (hi : ∃ k < declarationCount o, i = c.declarations.size + k) :
    ∃ x, (c.addFile path foreign o).declarations[i]? = some x ∧ x.unit = c.units.size := by
  obtain ⟨k, hk, rfl⟩ := hi
  rw [← @length_drafts c.units.size c.classes.size o] at hk
  have hdraft := rel_self_of_mem (covers_added c o).drafts (List.getElem_mem hk)
  refine ⟨_, ?_, (hdraft.declarations (c.declarations.size + k) 0).unit.2⟩
  simp [getElem?_declarations_addFile, List.getElem?_eq_getElem hk]

theorem exists_old_declaration {i : DeclarationId} {x : Declaration}
    (hx : c.declarations[i]? = some x) :
    (c.addFile path foreign o).declarations[i]? = some x := by
  rw [getElem?_declarations_addFile, if_pos (Array.getElem?_eq_some_iff.1 hx).1, hx]

theorem exists_new_class (path : Path) (foreign : Bool) {k : ClassId}
    (hk : ∃ j < o.classes.length, k = c.classes.size + j) :
    ∃ e, (c.addFile path foreign o).classes[k]? = some e ∧ e.unit = c.units.size := by
  obtain ⟨j, hj, rfl⟩ := hk
  rw [← @length_classEntries c.units.size (c.declarations.size + o.functions.length)] at hj
  have hentry := rel_self_of_mem (covers_added c o).classEntries (List.getElem_mem hj)
  refine ⟨_, ?_, hentry.unit.2⟩
  simp [getElem?_classes_addFile, List.getElem?_eq_getElem hj]

theorem exists_old_class {k : ClassId} {e : ClassEntry} (he : c.classes[k]? = some e) :
    (c.addFile path foreign o).classes[k]? = some e := by
  rw [getElem?_classes_addFile, if_pos (Array.getElem?_eq_some_iff.1 he).1, he]

theorem new_or_old_declaration {i : DeclarationId} {x : Declaration}
    (hx : (c.addFile path foreign o).declarations[i]? = some x) :
    c.declarations[i]? = some x ∨ c.declarations.size ≤ i ∧ ∃ draft,
      (drafts c.units.size c.classes.size o)[i - c.declarations.size]? = some draft ∧ x = draft.1 i := by
  rw [getElem?_declarations_addFile] at hx
  split at hx
  · exact .inl hx
  · next hi =>
    obtain ⟨draft, hdraft, rfl⟩ := Option.map_eq_some_iff.1 hx
    exact .inr ⟨Nat.le_of_not_lt hi, draft, hdraft, rfl⟩

theorem new_or_old_class {k : ClassId} {e : ClassEntry}
    (he : (c.addFile path foreign o).classes[k]? = some e) :
    c.classes[k]? = some e
      ∨ e ∈ classEntries c.units.size (c.declarations.size + o.functions.length) o.classes := by
  rw [getElem?_classes_addFile] at he
  split at he
  · exact .inl he
  · exact .inr (List.mem_of_getElem? he)

theorem new_or_old_table {u : UnitId} {table : FileTable}
    (ht : (c.addFile path foreign o).tables[u]? = some table) :
    c.tables[u]? = some table
      ∨ u = c.tables.size ∧ table = fileTable path o c.declarations.size c.classes.size := by
  rw [getElem?_tables_addFile] at ht
  split at ht
  · next hu => exact .inr ⟨hu, (Option.some.inj ht).symm⟩
  · exact .inl ht

theorem addFile (h : c.WellFormed) (hfresh : path ∉ c.paths) (foreign : Bool) (o : Outline) :
    (c.addFile path foreign o).WellFormed := by
  have hcovers := covers_added c o
  have hsize : (c.addFile path foreign o).units.size = c.units.size + 1 := by
    rw [addFile_eq_drafts, Array.size_push]
  have hlists := h.lists.addFile hfresh foreign o
  have hpaths : (c.addFile path foreign o).paths = c.paths ++ [path] := hlists.paths_eq
  constructor
  case size_tables =>
    rw [addFile_eq_drafts, Array.size_push, Array.size_push, h.size_tables]
  case size_scopes =>
    rw [addFile_eq_drafts]
    simp [addDrafts, h.size_scopes]
  case unit_id =>
    intro u x hx
    rw [getElem?_units_addFile] at hx
    split at hx
    · cases hx
      rfl
    · exact h.unit_id hx
  case declaration_id =>
    intro i x hx
    rcases new_or_old_declaration hx with hx | ⟨-, draft, hdraft, rfl⟩
    · exact h.declaration_id hx
    · exact id_of_mem_drafts (List.mem_of_getElem? hdraft) i
  case nodup_paths =>
    rw [hpaths, List.nodup_append]
    refine ⟨h.nodup_paths, by simp, ?_⟩
    rintro p hp q hq rfl
    exact hfresh (List.mem_singleton.1 hq ▸ hp)
  case unitByPath =>
    rw [hpaths]
    exact hlists.unit_iff
  case declarations =>
    intro i x hx
    rw [hsize]
    rcases new_or_old_declaration hx with hx | ⟨-, draft, hdraft, rfl⟩
    · exact Nat.lt_succ_of_lt (h.declarations hx)
    · have hunit := rel_self_of_mem hcovers.drafts (List.mem_of_getElem? hdraft)
      rw [(hunit.declarations i i).unit.2]
      exact Nat.lt_succ_self _
  case classes =>
    intro k e he
    rw [hsize]
    rcases new_or_old_class he with he | he
    · exact Nat.lt_succ_of_lt (h.classes he)
    · rw [(rel_self_of_mem hcovers.classEntries he).unit.2]
      exact Nat.lt_succ_self _
  case functions =>
    intro u t n i ht hi
    rcases new_or_old_table ht with ht | ⟨rfl, rfl⟩
    · obtain ⟨x, hx, hxu⟩ := h.functions ht hi
      exact ⟨x, exists_old_declaration hx, hxu⟩
    · rw [h.size_tables]
      exact exists_new_declaration path foreign (rel_self ((hcovers.fileTable path).functions n) hi).2
  case classNames =>
    intro u t n k ht hk
    rcases new_or_old_table ht with ht | ⟨rfl, rfl⟩
    · obtain ⟨e, he, heu⟩ := h.classNames ht hk
      exact ⟨e, exists_old_class he, heu⟩
    · rw [h.size_tables]
      exact exists_new_class path foreign (rel_self ((hcovers.fileTable path).classes n) hk).2
  case modules =>
    intro u t source v ht hv
    rw [hsize]
    rcases new_or_old_table ht with ht | ⟨-, rfl⟩
    · exact Nat.lt_succ_of_lt (h.modules ht hv)
    · cases hv
  case methods =>
    intro k e key i he hi
    rcases new_or_old_class he with he | he
    · obtain ⟨x, hx, hxe⟩ := h.methods he hi
      exact ⟨x, exists_old_declaration hx, hxe⟩
    · have hentry := rel_self_of_mem hcovers.classEntries he
      rw [hentry.unit.2]
      exact exists_new_declaration path foreign (rel_self (hentry.methods key) hi).2
  case scopes =>
    intro i x s k hx hs hk
    rw [getElem?_scopes_addFile, h.size_scopes] at hs
    rcases new_or_old_declaration hx with hx | ⟨hi, draft, hdraft, rfl⟩
    · rw [if_pos (Array.getElem?_eq_some_iff.1 hx).1] at hs
      obtain ⟨e, he, hex⟩ := h.scopes hx hs hk
      exact ⟨e, exists_old_class he, hex⟩
    · rw [if_neg (Nat.not_lt.2 hi), hdraft] at hs
      cases hs
      have hboth := rel_self_of_mem hcovers.drafts (List.mem_of_getElem? hdraft)
      rw [(hboth.declarations i i).unit.2]
      exact exists_new_class path foreign (rel_self hboth.scopes.cls hk).2
  case projectUnits =>
    intro u hu
    rw [addFile_eq_drafts] at hu
    rw [hsize]
    exact Nat.lt_succ_of_lt (h.projectUnits u hu)

end WellFormed

end CallDiagram.Codebase
