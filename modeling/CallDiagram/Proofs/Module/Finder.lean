import CallDiagram.Proofs.FileTree.Canonical
import CallDiagram.Proofs.Module.Attempt

namespace CallDiagram.ModuleFinder

variable {t : FileTree} {f : ModuleFinder} {base directory path : Path} {name : String}

theorem inDirectory?_isFile {resolve : Path → Attempt}
    (hresolve : ∀ base path, resolve base = some (some path) → t.isFile path)
    (h : inDirectory? t resolve directory = some (some path)) : t.isFile path := by
  obtain ⟨entry, hentry, hpath⟩ := inDirectory?_eq_some_iff.1 h
  rcases Option.or_eq_some_iff.1 hpath with rfl | ⟨-, hindex⟩
  · obtain ⟨-, target, -, -, -, htarget⟩ := firstFound_eq_file_iff.1 hentry
    exact hresolve target path htarget
  · exact List.find?_some hindex

theorem resolveWithin_isFile {n : Nat} (h : resolveWithin t n base = some (some path)) :
    t.isFile path := by
  induction n generalizing base path with
  | zero => cases h
  | succ n ih =>
    by_cases hopens : Opens t base
    · rw [resolveWithin_of_opens hopens] at h
      exact inDirectory?_isFile (fun _ _ => ih) h
    · rw [resolveWithin_of_not_opens hopens] at h
      exact List.find?_some (Option.some.inj h)

theorem resolveFile?_isFile (h : resolveFile? t base = some path) : t.isFile path :=
  resolveWithin_isFile (Option.join_eq_some_iff.1 h)

theorem resolveDirectory?_isFile (h : resolveDirectory? t directory = some path) : t.isFile path :=
  inDirectory?_isFile (fun _ _ => resolveWithin_isFile) (Option.join_eq_some_iff.1 h)

theorem byAlias?_isFile (h : f.byAlias? t name = some path) : t.isFile path := by
  rcases Option.or_eq_some_iff.1 h with hpattern | ⟨-, hbase⟩
  · obtain ⟨⟨pattern, targets⟩, -, hmatch⟩ := List.exists_of_findSome?_eq_some hpattern
    obtain ⟨text, -, htargets⟩ := Option.bind_eq_some_iff.1 hmatch
    obtain ⟨target, -, hfound⟩ := List.exists_of_findSome?_eq_some htargets
    exact resolveFile?_isFile hfound
  · obtain ⟨base, -, hfound⟩ := Option.bind_eq_some_iff.1 hbase
    exact resolveFile?_isFile hfound

theorem byPackage?_isFile (h : byPackage? t directory name = some path) : t.isFile path := by
  obtain ⟨⟨package, inside⟩, -, habove⟩ := Option.bind_eq_some_iff.1 h
  obtain ⟨above, -, hhome⟩ := List.exists_of_findSome?_eq_some habove
  obtain ⟨home, -, hfound⟩ := List.exists_of_findSome?_eq_some hhome
  cases inside with
  | some way => exact resolveFile?_isFile hfound
  | none => exact resolveDirectory?_isFile hfound

def search? (f : ModuleFinder) (t : FileTree) (directory : Path) (name : String) : Option Path :=
  if isFileName name then resolveFile? t (directory.join name)
  else (f.byAlias? t name).or (byPackage? t directory name)

theorem search?_isFile (h : f.search? t directory name = some path) : t.isFile path := by
  rw [search?] at h
  split at h
  · exact resolveFile?_isFile h
  · rcases Option.or_eq_some_iff.1 h with halias | ⟨-, hpackage⟩
    · exact byAlias?_isFile halias
    · exact byPackage?_isFile hpackage

theorem find?_eq_some {importer : Path} (h : f.find? t importer name = some path) :
    ∃ place contents, t.root.at? place = some (.file contents) ∧ place.toPath = path := by
  obtain ⟨found, hfound, hcanonical⟩ := Option.bind_eq_some_iff.1 h
  obtain ⟨place, contents, hplace, hat⟩ := FileTree.locate_of_isFile (search?_isFile hfound)
  rw [FileTree.canonicalize, hplace] at hcanonical
  exact ⟨place, contents, hat, Option.some.inj hcanonical⟩

end CallDiagram.ModuleFinder
