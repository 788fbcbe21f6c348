import CallDiagram.Proofs.Codebase.Loading
import CallDiagram.Proofs.Module.Finder
import CallDiagram.Proofs.Project.Files

namespace CallDiagram

namespace Project

def paths (p : Project) : List Path := p.files.map Location.toPath

def find? (p : Project) (t : FileTree) : Path → String → Option Path :=
  (ModuleFinder.ofSettings p.root.toPath p.settings).find? t

theorem exists_of_load {t : FileTree} {path : Path} {root : Location} {settings : Settings}
    {paths : List Path}
    (h : ∃ p ∈ (load t path).toOption, p.root = root ∧ p.settings = settings ∧ p.paths = paths) :
    ∃ p, load t path = .ok p ∧ p.paths = paths
      ∧ p.find? t = (ModuleFinder.ofSettings root.toPath settings).find? t := by
  obtain ⟨p, hp, rfl, rfl, rfl⟩ := exists_ok_of_toOption h
  exact ⟨p, hp, rfl, rfl⟩

end Project

namespace Loading

variable {t : FileTree} {find : Path → String → Option Path} {start : List Path} {state : Loading}
  {read : List (Path × Outline)}

def unitsOf (c : Codebase) (links : Table String Path) : Table String UnitId :=
  ⟨links.entries.filterMap fun link =>
    (c.unitByPath.get? link.2).map fun unit => (link.1, unit)⟩

theorem linked_eq (state : Loading) :
    state.linked = { state.codebase with
      tables := (state.codebase.tables.toList.zip state.links).toArray.map fun (table, links) =>
        { table with modules := unitsOf state.codebase links } } := rfl

theorem mem_unitsOf {c : Codebase} {links : Table String Path} {name : String} {unit : UnitId} :
    (name, unit) ∈ (unitsOf c links).entries ↔
      ∃ path, (name, path) ∈ links.entries ∧ c.unitByPath.get? path = some unit := by
  rw [unitsOf, mem_filterMap_pair]
  simp

def targets (find : Path → String → Option Path) (path : Path) (names : List String) :
    List (String × Path) :=
  names.filterMap fun name => (find path name).map fun target => (name, target)

theorem get?_unitsOf_targets {c : Codebase} {paths : List Path} (h : c.Lists paths) {path : Path}
    {names : List String} {name : String} {unit : UnitId} :
    (unitsOf c ⟨targets find path names⟩).get? name = some unit ↔
      name ∈ names ∧ ∃ file, find path name = some file ∧ paths[unit]? = some file := by
  have hmem : ∀ unit, (name, unit) ∈ (unitsOf c ⟨targets find path names⟩).entries ↔
      name ∈ names ∧ ∃ file, find path name = some file ∧ paths[unit]? = some file := by
    intro unit
    simp only [mem_unitsOf, targets, mem_filterMap_pair, h.unit_iff]
    simp [and_assoc]
  rw [Table.get?_eq_some_iff, hmem]
  intro a b ha hb
  obtain ⟨-, file, hfile, hunit⟩ := (hmem a).1 ha
  obtain ⟨-, file', hfile', hunit'⟩ := (hmem b).1 hb
  rw [hfile] at hfile'
  cases hfile'
  rw [← h.unit_iff] at hunit hunit'
  exact Option.some.inj (hunit.symm.trans hunit')

theorem get?_unitsOf {path : Path} {o : Outline} {name : String} {unit : UnitId}
    (h : Tracks t find start state read []) :
    (unitsOf state.codebase ⟨leads find path o⟩).get? name = some unit ↔
      name ∈ o.followedSpecifiers path.isForeign
        ∧ ∃ file, find path name = some file ∧ (read.map Prod.fst)[unit]? = some file :=
  get?_unitsOf_targets h.files

theorem getElem?_linked {unit : UnitId} {path : Path} (h : Tracks t find start state read [])
    (hpath : (read.map Prod.fst)[unit]? = some path) :
    ∃ o table, Outline.ofFile t path = .ok o ∧ state.linked.tables[unit]? = some table
      ∧ table.modules = unitsOf state.codebase ⟨leads find path o⟩ := by
  rw [List.getElem?_map] at hpath
  obtain ⟨⟨path, o⟩, hr, rfl⟩ := Option.map_eq_some_iff.1 hpath
  have hsize : unit < state.codebase.tables.toList.length := by
    rw [Array.length_toList, h.files.size_tables, List.length_map]
    exact (List.getElem?_eq_some_iff.1 hr).1
  have hlinks : state.links[unit]? = some ⟨leads find path o⟩ := by
    rw [h.links, List.getElem?_map, hr]
    rfl
  have hzip : (state.codebase.tables.toList.zip state.links)[unit]? =
      some (state.codebase.tables.toList[unit], ⟨leads find path o⟩) :=
    List.getElem?_zip_eq_some.2 ⟨List.getElem?_eq_getElem hsize, hlinks⟩
  refine ⟨o, { state.codebase.tables.toList[unit] with
    modules := unitsOf state.codebase ⟨leads find path o⟩ }, h.outlines _ (List.mem_of_getElem? hr),
    ?_, rfl⟩
  rw [linked_eq, Array.getElem?_map, List.getElem?_toArray, hzip]
  rfl

end Loading

namespace Codebase

variable {t : FileTree} {settings : Path} {p : Project} {c : Codebase}

theorem mem_files_of_find? {path file : Path} {name : String}
    (h : p.find? t path name = some file) :
    file ∈ (t.root.files fun _ => false).map Location.toPath := by
  obtain ⟨place, contents, hat, rfl⟩ := ModuleFinder.find?_eq_some h
  exact List.mem_map_of_mem (Entry.mem_files_of_at? hat fun _ _ => rfl)

theorem tracks_start (hp : p.paths.Nodup) :
    Loading.Tracks t (p.find? t) p.paths { seen := p.paths } [] p.paths where
  files := lists_empty
  links := rfl
  outlines := by simp
  seen := .refl _
  nodup := hp
  known := by simp
  least _ hs := hs.start

theorem tracks_readLayers_paths {state : Loading} (hp : p.paths.Nodup)
    {ends : Path → String → Bool}
    (hrun : Loading.readLayers t ends (p.find? t) (layerLimit t) { seen := p.paths } p.paths = .ok state) :
    ∃ read, Loading.Tracks t (p.find? t) p.paths state read [] ∧ p.paths <+: read.map Prod.fst := by
  have hlimit : layerLimit t = ((t.root.files fun _ => false).map Location.toPath).length + 1 := by
    rw [List.length_map, layerLimit]
  exact Loading.tracks_readLayers (tracks_start hp) (fun _ _ _ => mem_files_of_find?) (List.prefix_refl _)
    (by rw [hlimit, List.length_nil]; omega) hrun

theorem tracks_ofProject (hp : p.paths.Nodup) (h : ofProject t p = .ok c) :
    ∃ state read, Loading.Tracks t (p.find? t) p.paths state read []
      ∧ p.paths <+: read.map Prod.fst ∧ c.units = state.linked.units
      ∧ c.tables = state.linked.tables := by
  obtain ⟨state, hrun, h⟩ := bind_eq_ok.1 h
  cases h
  obtain ⟨read, hread, hprefix⟩ := tracks_readLayers_paths hp hrun
  exact ⟨state, read, hread, hprefix, rfl, rfl⟩

theorem isClosed_places (ht : t.root.isWellFormed) (hp : Project.load t settings = .ok p) :
    Loading.IsClosed t (p.find? t) p.paths {path | ∃ l, t.IsPlace l ∧ l.toPath = path} := by
  constructor
  · intro path hpath
    obtain ⟨l, hl, rfl⟩ := List.mem_map.1 hpath
    exact ⟨l, Project.isPlace_of_mem_files ht hp hl, rfl⟩
  · intro path _ o _ name _ file hfile
    obtain ⟨place, contents, hat, rfl⟩ := ModuleFinder.find?_eq_some hfile
    exact ⟨place, ⟨_, hat, rfl⟩, rfl⟩

theorem readText_of_ofFile {path : Path} {o : Outline} (h : Outline.ofFile t path = .ok o) :
    ∃ text, t.readText path = .ok text := by
  obtain ⟨text, htext, -⟩ := bind_eq_ok.1 h
  exact ⟨text, mapError_eq_ok.1 htext⟩

/-- The files of a loaded codebase are the least set that holds those of the project and, with each
file, all that the file leads to. Each is there once, under its canonical path and behind those of the
project, and its module names lead to exactly the files that they stand for. -/
theorem load_isLeast (ht : t.root.isWellFormed) (h : load t settings = .ok c) :
    ∃ p, Project.load t settings = .ok p
      ∧ IsLeast {s | Loading.IsClosed t (p.find? t) p.paths s} {path | path ∈ c.paths}
      ∧ c.paths.Nodup ∧ p.paths <+: c.paths
      ∧ (∀ path ∈ c.paths, t.canonicalize path = .ok path)
      ∧ ∀ (unit : UnitId) (path : Path), c.paths[unit]? = some path →
          ∃ (o : Outline) (table : FileTable), Outline.ofFile t path = .ok o
            ∧ c.tables[unit]? = some table
            ∧ ∀ (name : String) (target : UnitId), table.modules.get? name = some target ↔
              name ∈ o.followedSpecifiers path.isForeign
                ∧ ∃ file, p.find? t path name = some file ∧ c.paths[target]? = some file := by
  obtain ⟨p, hp, h⟩ := bind_eq_ok.1 h
  obtain ⟨state, read, htracks, hprefix, hunits, htables⟩ :=
    tracks_ofProject (Project.nodup_files ht hp) h
  have hpaths : c.paths = read.map Prod.fst := by
    rw [paths, hunits]
    exact htracks.files.paths_eq
  rw [hpaths, htables]
  refine ⟨p, hp, htracks.isLeast hprefix.subset, htracks.nodup_read, hprefix, ?_, ?_⟩
  · intro path hpath
    obtain ⟨l, hl, rfl⟩ := htracks.least _ (isClosed_places ht hp) path (htracks.mem_read.1 hpath)
    obtain ⟨o, -, ho⟩ := htracks.ofFile_of_mem_read hpath
    obtain ⟨text, htext⟩ := readText_of_ofFile ho
    exact FileTree.canonicalize_toPath ht hl htext
  · intro unit path hpath
    obtain ⟨o, table, ho, htable, hmodules⟩ := Loading.getElem?_linked htracks hpath
    refine ⟨o, table, ho, htable, fun name target => ?_⟩
    rw [hmodules, Loading.get?_unitsOf htracks]

def twoFiles : FileTree where
  top := [("tsconfig.json", .file (.text "\x7b\"files\":[\"a.ts\"]\x7d")),
    ("a.ts", .file (.text "export * from './b';")), ("b.ts", .file (.text "export * from './a';"))]

theorem twoFiles_load :
    ∃ (c : Codebase) (p : Project), load twoFiles ⟨"tsconfig.json"⟩ = .ok c
      ∧ c.paths = [⟨"/a.ts"⟩, ⟨"/b.ts"⟩]
      ∧ IsLeast {s | Loading.IsClosed twoFiles (p.find? twoFiles) p.paths s}
        {path | path ∈ c.paths} := by
  have hload : (load twoFiles ⟨"tsconfig.json"⟩).toOption.map paths = some [⟨"/a.ts"⟩, ⟨"/b.ts"⟩] := by
    decide +kernel
  obtain ⟨c, hc, hpaths⟩ := Option.map_eq_some_iff.1 hload
  have hok : load twoFiles ⟨"tsconfig.json"⟩ = .ok c := by
    cases h : load twoFiles ⟨"tsconfig.json"⟩ with
    | error e => rw [h] at hc; cases hc
    | ok d => rw [h] at hc; exact congrArg Except.ok (Option.some.inj hc)
  obtain ⟨p, -, hleast, -⟩ := load_isLeast (by decide) hok
  exact ⟨c, p, hok, hpaths, hleast⟩

end Codebase

end CallDiagram
