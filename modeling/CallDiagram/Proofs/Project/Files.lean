import CallDiagram.Project.Load
import CallDiagram.Proofs.Failure
import CallDiagram.Proofs.FileTree.Canonical
import CallDiagram.Proofs.Text.Order
import Mathlib.Data.List.Nodup

namespace CallDiagram.Project

variable {t : FileTree} {root l : Location} {settings : Settings} {path : Path} {p : Project}

theorem isPlace_of_mem_listed {names : List String} {places : List Location}
    (h : listed t root names = .ok places) (hl : l ∈ places) : t.IsPlace l := by
  obtain ⟨name, -, hlocate⟩ := (mem_of_mapM_eq_ok h).1 hl
  exact FileTree.isPlace_of_locate (Location.isAbsolute_join root name) (mapError_eq_ok.1 hlocate)

theorem isPlace_of_mem_selected {included excluded : List Glob} (ht : t.root.isWellFormed)
    (hl : l ∈ selected t root included excluded) : t.IsPlace l := by
  rw [selected] at hl
  split at hl
  · cases hl
  · split at hl
    · cases hl
    · next directory hat =>
      obtain ⟨way, hway, rfl⟩ := List.mem_map.1 hl
      have hwf := (Entry.isWellFormed_at? ht hat).2
      obtain ⟨contents, hfile⟩ := Entry.at?_of_mem_files hwf (List.mem_filter.1 hway).1
      exact ⟨.file contents, by rw [Entry.at?_append, hat]; exact hfile, rfl⟩

theorem isPlace_of_mem_collect {places : List Location} (ht : t.root.isWellFormed)
    (h : collect t root settings = .ok places) (hl : l ∈ places) : t.IsPlace l := by
  obtain ⟨files, hfiles, h⟩ := bind_eq_ok.1 h
  split at h
  · cases h
    exact isPlace_of_mem_listed hfiles hl
  · obtain ⟨included, -, h⟩ := bind_eq_ok.1 h
    obtain ⟨excluded, -, h⟩ := bind_eq_ok.1 h
    cases h
    cases List.mem_append.1 hl with
    | inl hl => exact isPlace_of_mem_listed hfiles hl
    | inr hl => exact isPlace_of_mem_selected ht hl

theorem mem_sortPlaces {places : List Location} : l ∈ sortPlaces places ↔ l ∈ places := by
  rw [sortPlaces, mem_dropRepeats, List.mem_mergeSort]

theorem nodup_sortPlaces (places : List Location) : (sortPlaces places).Nodup :=
  nodup_dropRepeats lexLe_antisymm (List.pairwise_mergeSort lexLe_trans lexLe_total places)

theorem exists_collect_of_load (h : load t path = .ok p) :
    ∃ places, collect t p.root p.settings = .ok places ∧ p.files = sortPlaces places := by
  obtain ⟨place, -, h⟩ := bind_eq_ok.1 h
  obtain ⟨settings, -, h⟩ := bind_eq_ok.1 h
  obtain ⟨places, hplaces, h⟩ := bind_eq_ok.1 h
  cases h
  exact ⟨places, hplaces, rfl⟩

theorem load_of_sorted {place : Location} {places : List Location} (hplace : t.locate path = .ok place)
    (hsettings : Settings.load t place.toPath = .ok settings)
    (hplaces : collect t place.dropLast settings = .ok places)
    (hsorted : places.Pairwise fun l m => lexLe l m) :
    load t path = .ok ⟨place.dropLast, settings, dropRepeats places⟩ := by
  simp only [load, hplace, Except.mapError, bind, Except.bind, hsettings, hplaces, sortPlaces,
    List.mergeSort_of_pairwise hsorted]
  rfl

theorem isPlace_of_mem_files (ht : t.root.isWellFormed) (h : load t path = .ok p) (hl : l ∈ p.files) :
    t.IsPlace l := by
  obtain ⟨places, hplaces, hfiles⟩ := exists_collect_of_load h
  rw [hfiles, mem_sortPlaces] at hl
  exact isPlace_of_mem_collect ht hplaces hl

theorem nodup_files (ht : t.root.isWellFormed) (h : load t path = .ok p) :
    (p.files.map Location.toPath).Nodup := by
  obtain ⟨places, -, hfiles⟩ := exists_collect_of_load h
  have hnodup : p.files.Nodup := hfiles ▸ nodup_sortPlaces places
  apply hnodup.map_on
  intro l hl m hm heq
  exact Location.toPath_inj ((isPlace_of_mem_files ht h hl).isName ht)
    ((isPlace_of_mem_files ht h hm).isName ht) heq

end CallDiagram.Project
