import CallDiagram.Proofs.Codebase.Load
import CallDiagram.Proofs.Codebase.WellFormed

namespace CallDiagram

abbrev Source := Path × Outline

namespace Codebase

def addSource (c : Codebase) (f : Source) : Codebase := c.addFile f.1 f.1.isForeign f.2

def gather (files : List Source) : Codebase := files.foldl addSource {}

/-- Whether everything in the arrays of a codebase is in those of another one, under its number. -/
structure Extends (c d : Codebase) : Prop where
  units : ∀ {u : UnitId} {x}, c.units[u]? = some x → d.units[u]? = some x
  tables : ∀ {u : UnitId} {t}, c.tables[u]? = some t → d.tables[u]? = some t
  declarations : ∀ {i : DeclarationId} {x}, c.declarations[i]? = some x → d.declarations[i]? = some x
  scopes : ∀ {i : DeclarationId} {s}, c.scopes[i]? = some s → d.scopes[i]? = some s
  classes : ∀ {k : ClassId} {e}, c.classes[k]? = some e → d.classes[k]? = some e

namespace Extends

variable {b c d : Codebase}

theorem refl (c : Codebase) : c.Extends c := ⟨id, id, id, id, id⟩

theorem trans (h : b.Extends c) (h' : c.Extends d) : b.Extends d where
  units hx := h'.units (h.units hx)
  tables ht := h'.tables (h.tables ht)
  declarations hx := h'.declarations (h.declarations hx)
  scopes hs := h'.scopes (h.scopes hs)
  classes he := h'.classes (h.classes he)

theorem addFile (c : Codebase) (path : Path) (foreign : Bool) (o : Outline) :
    c.Extends (c.addFile path foreign o) where
  units hx := by
    rw [getElem?_units_addFile, if_neg (Nat.ne_of_lt (Array.getElem?_eq_some_iff.1 hx).1), hx]
  tables ht := by
    rw [getElem?_tables_addFile, if_neg (Nat.ne_of_lt (Array.getElem?_eq_some_iff.1 ht).1), ht]
  declarations hx := WellFormed.exists_old_declaration hx
  scopes hs := by
    rw [getElem?_scopes_addFile, if_pos (Array.getElem?_eq_some_iff.1 hs).1, hs]
  classes he := WellFormed.exists_old_class he

theorem foldl_addSource (c : Codebase) (files : List Source) :
    c.Extends (files.foldl addSource c) := by
  induction files generalizing c with
  | nil => exact .refl c
  | cons f files ih => exact (addFile c f.1 f.1.isForeign f.2).trans (ih _)

end Extends

theorem gather_append (files more : List Source) :
    gather (files ++ more) = more.foldl addSource (gather files) := List.foldl_append

theorem gather_concat (files : List Source) (f : Source) :
    gather (files ++ [f]) = (gather files).addSource f := gather_append files [f]

theorem paths_gather (files : List Source) : (gather files).paths = files.map Prod.fst := by
  induction files using List.reverseRecOn with
  | nil => rfl
  | append_singleton files f ih =>
    rw [gather_concat, List.map_append, ← ih, addSource, addFile_eq]
    simp [paths]

theorem wellFormed_gather {files : List Source} (h : (files.map Prod.fst).Nodup) :
    (gather files).WellFormed := by
  induction files using List.reverseRecOn with
  | nil => exact .empty
  | append_singleton files f ih =>
    rw [List.map_append, List.nodup_append] at h
    obtain ⟨hfiles, -, hfresh⟩ := h
    have hnew : f.1 ∉ (gather files).paths := by
      rw [paths_gather]
      exact fun hmem => hfresh f.1 hmem f.1 (by simp) rfl
    rw [gather_concat]
    exact (ih hfiles).addFile hnew f.1.isForeign f.2

def gatheredBefore (files : List Source) (u : UnitId) : Codebase := gather (files.take u)

section Place

variable {files : List Source} {u : UnitId} {f : Source}

theorem extends_gather (h : files[u]? = some f) :
    ((gatheredBefore files u).addSource f).Extends (gather files) := by
  obtain ⟨hu, rfl⟩ := List.getElem?_eq_some_iff.1 h
  have hsplit : files = files.take u ++ [files[u]] ++ files.drop (u + 1) := by
    rw [List.take_append_getElem, List.take_append_drop]
  have hextends := Extends.foldl_addSource (gather (files.take u ++ [files[u]])) (files.drop (u + 1))
  rwa [← gather_append, ← hsplit, gather_concat] at hextends

theorem sizes_gatheredBefore (hfiles : (files.map Prod.fst).Nodup) (h : files[u]? = some f) :
    (gatheredBefore files u).WellFormed ∧ (gatheredBefore files u).units.size = u
      ∧ (gatheredBefore files u).tables.size = u := by
  have hnodup : ((files.take u).map Prod.fst).Nodup := by
    rw [List.map_take]
    exact hfiles.sublist (List.take_sublist u _)
  have hwf := wellFormed_gather hnodup
  have hsize : (gatheredBefore files u).units.size = u := by
    have hlength := congrArg List.length (paths_gather (files.take u))
    rw [paths, List.length_map, Array.length_toList, List.length_map, List.length_take] at hlength
    have hu := (List.getElem?_eq_some_iff.1 h).1
    rw [gatheredBefore, hlength]
    exact Nat.min_eq_left (Nat.le_of_lt hu)
  exact ⟨hwf, hsize, hwf.size_tables.trans hsize⟩

structure Placed (c b : Codebase) (u : UnitId) (f : Source) : Prop where
  unit : c.units[u]? = some { id := u, path := f.1, foreign := f.1.isForeign }
  table : ∃ modules, c.tables[u]? =
    some { fileTable f.1 f.2 b.declarations.size b.classes.size with modules }
  declarations : ∀ (k : Nat) draft, (drafts u b.classes.size f.2)[k]? = some draft →
    c.declarations[b.declarations.size + k]? = some (draft.1 (b.declarations.size + k))
  scopes : ∀ (k : Nat) draft, (drafts u b.classes.size f.2)[k]? = some draft →
    c.scopes[b.declarations.size + k]? = some draft.2
  classes : ∀ (k : Nat) e,
    (classEntries u (b.declarations.size + f.2.functions.length) f.2.classes)[k]? = some e →
    c.classes[b.classes.size + k]? = some e

theorem placed_gather (hfiles : (files.map Prod.fst).Nodup) (h : files[u]? = some f) :
    (gather files).Placed (gatheredBefore files u) u f := by
  obtain ⟨hwf, hunits, htables⟩ := sizes_gatheredBefore hfiles h
  have hextends := extends_gather h
  constructor
  case unit =>
    apply hextends.units
    rw [addSource, getElem?_units_addFile, if_pos hunits.symm]
  case table =>
    refine ⟨{}, hextends.tables ?_⟩
    rw [addSource, getElem?_tables_addFile, if_pos htables.symm]
    rfl
  case declarations =>
    intro k draft hdraft
    apply hextends.declarations
    simp [addSource, getElem?_declarations_addFile, hunits, hdraft]
  case scopes =>
    intro k draft hdraft
    apply hextends.scopes
    simp [addSource, getElem?_scopes_addFile, hwf.size_scopes, hunits, hdraft]
  case classes =>
    intro k e he
    apply hextends.classes
    simp [addSource, getElem?_classes_addFile, hunits, he]

end Place

section Linked

variable (find : Path → String → Option Path) (follow : Path → Outline → List String)
  (start : List Path) (files : List Source)

def linksOf (f : Source) : Table String Path := ⟨Loading.targets find f.1 (follow f.1 f.2)⟩

/-- The codebase of the given files, where the module names that `follow` lists lead to the files that
`find` tells, and those of `start` are the project's own. -/
def ofSources : Codebase :=
  let c := Loading.linked
    { codebase := gather files, links := files.map (linksOf find follow), seen := files.map Prod.fst }
  { c with projectUnits := start.filterMap c.unitByPath.get? }

variable {find follow start files} {u : UnitId} {f : Source}

theorem size_tables_ofSources (h : (files.map Prod.fst).Nodup) :
    (ofSources find follow start files).tables.size = files.length := by
  have hsize := (wellFormed_gather h).lists.size_tables
  rw [paths_gather, List.length_map] at hsize
  simp [ofSources, Loading.linked_eq, hsize]

theorem getElem?_tables_ofSources (h : files[u]? = some f) :
    (ofSources find follow start files).tables[u]? = (gather files).tables[u]?.map fun t =>
      { t with modules := Loading.unitsOf (gather files) (linksOf find follow f) } := by
  have hlinks : (files.map (linksOf find follow))[u]? = some (linksOf find follow f) := by
    rw [List.getElem?_map, h]
    rfl
  simp only [ofSources, Loading.linked_eq, Array.getElem?_map, List.getElem?_toArray]
  rw [← Array.getElem?_toList]
  cases ht : (gather files).tables.toList[u]? with
  | none => simp [List.zip, List.getElem?_zipWith, ht]
  | some t =>
    have hzip : ((gather files).tables.toList.zip (files.map (linksOf find follow)))[u]? =
        some (t, linksOf find follow f) := List.getElem?_zip_eq_some.2 ⟨ht, hlinks⟩
    rw [hzip]
    rfl

theorem exists_table_gather (h : (files.map Prod.fst).Nodup) {t : FileTable}
    (ht : (ofSources find follow start files).tables[u]? = some t) :
    ∃ f t', files[u]? = some f ∧ (gather files).tables[u]? = some t'
      ∧ t = { t' with modules := Loading.unitsOf (gather files) (linksOf find follow f) } := by
  have hu := (Array.getElem?_eq_some_iff.1 ht).1
  rw [size_tables_ofSources h] at hu
  have hf := List.getElem?_eq_getElem hu
  rw [getElem?_tables_ofSources hf] at ht
  obtain ⟨t', ht', rfl⟩ := Option.map_eq_some_iff.1 ht
  exact ⟨_, t', hf, ht', rfl⟩

theorem module?_ofSources (hfiles : (files.map Prod.fst).Nodup) (h : files[u]? = some f)
    {source : String} {v : UnitId} :
    (ofSources find follow start files).module? u source = some v ↔
      source ∈ follow f.1 f.2
        ∧ ∃ file, find f.1 source = some file ∧ (files.map Prod.fst)[v]? = some file := by
  obtain ⟨modules, htable⟩ := (placed_gather hfiles h).table
  rw [module?, getElem?_tables_ofSources h, htable, ← paths_gather,
    ← Loading.get?_unitsOf_targets (wellFormed_gather hfiles).lists]
  rfl

variable (find follow start) in
theorem placed_ofSources (hfiles : (files.map Prod.fst).Nodup) (h : files[u]? = some f) :
    (ofSources find follow start files).Placed (gatheredBefore files u) u f := by
  have hplaced := placed_gather hfiles h
  obtain ⟨modules, htable⟩ := hplaced.table
  refine ⟨hplaced.unit, ?_, hplaced.declarations, hplaced.scopes, hplaced.classes⟩
  rw [getElem?_tables_ofSources h, htable]
  exact ⟨_, rfl⟩

theorem paths_ofSources : (ofSources find follow start files).paths = files.map Prod.fst :=
  paths_gather files

theorem exists_source_of_unit (h : (files.map Prod.fst).Nodup) {x : SourceUnit}
    (hx : (ofSources find follow start files).units[u]? = some x) :
    ∃ f, files[u]? = some f ∧ x = { id := u, path := f.1, foreign := f.1.isForeign } := by
  have hpath : (ofSources find follow start files).paths[u]? = some x.path := by
    rw [paths, List.getElem?_map, Array.getElem?_toList, hx]
    rfl
  rw [paths_ofSources, List.getElem?_map] at hpath
  obtain ⟨f, hf, -⟩ := Option.map_eq_some_iff.1 hpath
  exact ⟨f, hf, Option.some.inj (hx.symm.trans (placed_ofSources find follow start h hf).unit)⟩

variable (find follow start) in
theorem wellFormed_ofSources (h : (files.map Prod.fst).Nodup) :
    (ofSources find follow start files).WellFormed := by
  have hwf := wellFormed_gather h
  have hpaths := paths_gather files
  have hsize : (gather files).units.size = files.length := by
    rw [← hwf.size_tables, hwf.lists.size_tables, hpaths, List.length_map]
  constructor
  case size_tables => exact (size_tables_ofSources h).trans hsize.symm
  case size_scopes => exact hwf.size_scopes
  case unit_id => exact hwf.unit_id
  case declaration_id => exact hwf.declaration_id
  case nodup_paths => exact hwf.nodup_paths
  case unitByPath => exact hwf.unitByPath
  case declarations => exact hwf.declarations
  case classes => exact hwf.classes
  case functions =>
    intro u t n i ht hi
    obtain ⟨f, t', -, ht', rfl⟩ := exists_table_gather h ht
    exact hwf.functions ht' hi
  case classNames =>
    intro u t n k ht hk
    obtain ⟨f, t', -, ht', rfl⟩ := exists_table_gather h ht
    exact hwf.classNames ht' hk
  case modules =>
    intro u t source v ht hv
    obtain ⟨f, t', hf, ht', rfl⟩ := exists_table_gather h ht
    obtain ⟨-, file, -, hfile⟩ := (Loading.get?_unitsOf_targets hwf.lists).1 hv
    have hv := (List.getElem?_eq_some_iff.1 hfile).1
    rw [hpaths, List.length_map, ← hsize] at hv
    exact hv
  case methods => exact hwf.methods
  case scopes => exact hwf.scopes
  case projectUnits =>
    intro u hu
    obtain ⟨path, -, hpath⟩ := List.mem_filterMap.1 hu
    have hu := (List.getElem?_eq_some_iff.1 ((hwf.unitByPath path u).1 hpath)).1
    rw [hpaths, List.length_map, ← hsize] at hu
    exact hu

end Linked

end Codebase

namespace Loading

variable {t : FileTree} {find : Path → String → Option Path} {state final : Loading}

def followed (path : Path) (o : Outline) : List String := o.followedSpecifiers path.isForeign

def Reads (find : Path → String → Option Path) (state final : Loading) (more : List Source) : Prop :=
  final.codebase = more.foldl Codebase.addSource state.codebase
    ∧ final.links = state.links ++ more.map (Codebase.linksOf find followed)

theorem Reads.trans {middle : Loading} {more rest : List Source} (h : Reads find state middle more)
    (h' : Reads find middle final rest) : Reads find state final (more ++ rest) := by
  refine ⟨?_, ?_⟩
  · rw [h'.1, h.1, List.foldl_append]
  · rw [h'.2, h.2, List.map_append, List.append_assoc]

theorem reads_add (next : List Path) (f : Source) :
    Reads find state (add find (state, next) f).1 [f] := by
  obtain ⟨path, o⟩ := f
  obtain ⟨fresh, heq, -⟩ := discover_eq (addAlone find state path o) next
    ((leads find path o).map Prod.snd)
  rw [add_eq, heq]
  exact ⟨rfl, rfl⟩

theorem reads_foldl_add (next : List Path) (layer : List Source) :
    Reads find state (layer.foldl (add find) (state, next)).1 layer := by
  induction layer generalizing state next with
  | nil => exact ⟨rfl, (List.append_nil _).symm⟩
  | cons f layer ih => exact (reads_add next f).trans (ih _)

theorem reads_readLayers {n : Nat} {ends : Path → String → Bool} {pending : List Path}
    (h : readLayers t ends find n state pending = .ok final) :
    ∃ more, Reads find state final more ∧ (∀ f ∈ more, Outline.ofFile t f.1 = .ok f.2)
      ∧ ∀ f ∈ more, ∀ name ∈ f.2.followedSpecifiers f.1.isForeign, ends f.1 name := by
  induction n generalizing state pending with
  | zero =>
    cases h
    exact ⟨[], ⟨rfl, (List.append_nil _).symm⟩, by simp, by simp⟩
  | succ n ih =>
    rw [readLayers] at h
    split at h
    · cases h
      exact ⟨[], ⟨rfl, (List.append_nil _).symm⟩, by simp, by simp⟩
    · obtain ⟨layer, hlayer, h⟩ := bind_eq_ok.1 h
      obtain ⟨more, hmore, houtlines, hends⟩ := ih h
      obtain ⟨-, hlayerOutlines, hlayerEnds⟩ := layer_of_readLayer hlayer
      exact ⟨layer ++ more, (reads_foldl_add [] layer).trans hmore,
        List.forall_mem_append.2 ⟨hlayerOutlines, houtlines⟩,
        List.forall_mem_append.2 ⟨hlayerEnds, hends⟩⟩

theorem paths_of_reads {start : List Path} {read files : List Source}
    (htracks : Tracks t find start state read []) (h : Reads find { seen := start } state files) :
    files.map Prod.fst = read.map Prod.fst := by
  have hgather : state.codebase = Codebase.gather files := h.1
  rw [← Codebase.paths_gather, ← hgather, htracks.files.paths_eq]

end Loading

namespace Codebase

variable {t : FileTree} {settings : Path} {p : Project} {c : Codebase}

/-- The files that have been read when every module name that `follow` lists has been followed, from
those of `start` on. -/
structure IsRead (t : FileTree) (find : Path → String → Option Path)
    (follow : Path → Outline → List String) (start : List Path) (files : List Source) : Prop where
  nodup : (files.map Prod.fst).Nodup
  outlines : ∀ f ∈ files, Outline.ofFile t f.1 = .ok f.2
  start : start ⊆ files.map Prod.fst
  next : ∀ f ∈ files, ∀ source ∈ follow f.1 f.2, ∀ file, find f.1 source = some file →
    file ∈ files.map Prod.fst

theorem IsRead.source_eq {t' : FileTree} {find find' : Path → String → Option Path}
    {follow follow' : Path → Outline → List String} {start start' : List Path}
    {files files' : List Source} {f g : Source} (h : IsRead t find follow start files)
    (h' : IsRead t' find' follow' start' files') (hf : f ∈ files) (hg : g ∈ files') (hpath : g.1 = f.1)
    (houtline : Outline.ofFile t f.1 = Outline.ofFile t' f.1) : g = f := by
  rw [h.outlines f hf, ← hpath, h'.outlines g hg] at houtline
  exact Prod.ext hpath (Except.ok.inj houtline).symm

theorem exists_sources_of_load (ht : t.root.isWellFormed) (h : load t settings = .ok c) :
    ∃ p files, Project.load t settings = .ok p
      ∧ IsRead t (p.find? t) Loading.followed p.paths files
      ∧ (∀ s, Loading.IsClosed t (p.find? t) p.paths s → ∀ f ∈ files, f.1 ∈ s)
      ∧ c = ofSources (p.find? t) Loading.followed p.paths files := by
  obtain ⟨p, hp, h⟩ := bind_eq_ok.1 h
  obtain ⟨state, hrun, h⟩ := bind_eq_ok.1 h
  cases h
  obtain ⟨read, htracks, hprefix⟩ := tracks_readLayers_paths (Project.nodup_files ht hp) hrun
  obtain ⟨files, hreads, houtlines, -⟩ := Loading.reads_readLayers hrun
  have hpaths := Loading.paths_of_reads htracks hreads
  refine ⟨p, files, hp, ⟨?_, houtlines, ?_, ?_⟩, ?_, ?_⟩
  · rw [hpaths]
    exact htracks.nodup_read
  · rw [hpaths]
    exact hprefix.subset
  · intro f hf source hsource file hfile
    have hclosed := (htracks.isLeast hprefix.subset).1
    rw [hpaths]
    refine hclosed.next f.1 ?_ f.2 (houtlines f hf) source hsource file hfile
    rw [Set.mem_ofPred_eq, ← hpaths]
    exact List.mem_map_of_mem hf
  · intro s hs f hf
    refine (htracks.isLeast hprefix.subset).2 hs ?_
    rw [Set.mem_ofPred_eq, ← hpaths]
    exact List.mem_map_of_mem hf
  · have hgather : state.codebase = gather files := hreads.1
    have hlinks : state.links = files.map (linksOf (p.find? t) Loading.followed) := hreads.2
    simp only [ofSources, Loading.linked_eq, hgather, hlinks]
    rfl

end Codebase

end CallDiagram
