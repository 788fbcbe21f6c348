import CallDiagram.Proofs.Module.Candidate
import CallDiagram.Proofs.Module.PackageName
import CallDiagram.Proofs.Path.Ancestors

namespace CallDiagram.ModuleFinder

open PackageName (Reads)
open CallDiagram.Path (IsAbove)

variable {t : FileTree} {home above directory file : Path} {name package types : String}
  {inside : Option String} {found found' : Option Path} {n : Nat}

inductive Yields (t : FileTree) (home : Path) : Option String → Option Path → Prop
  | absent {inside : Option String} : t.isDirectory home = false → Yields t home inside none
  | way {text : String} {found : Option Path} :
      t.isDirectory home → Finds t (home.join text) found → Yields t home (some text) found
  | whole {found : Option Path} : t.isDirectory home → FindsIn t home found → Yields t home none found

def installed (above : Path) : Path := above.join Path.dependencyDirectory

/-- What a directory supplies for a package out of those that are installed in it. -/
inductive Supplies (t : FileTree) (package types : String) (inside : Option String) (above : Path) :
    Option Path → Prop
  | absent : t.isDirectory (installed above) = false → Supplies t package types inside above none
  | own {file : Path} : t.isDirectory (installed above) →
      Yields t ((installed above).join package) inside (some file) →
      Supplies t package types inside above (some file)
  | types {found : Option Path} : t.isDirectory (installed above) →
      Yields t ((installed above).join package) inside none →
      Yields t (((installed above).join "@types").join types) inside found →
      Supplies t package types inside above found

theorem Yields.unique (h : Yields t home inside found) (h' : Yields t home inside found') :
    found = found' := by
  cases h with
  | absent hnot =>
    cases h' with
    | absent => rfl
    | way hhome | whole hhome => rw [hnot] at hhome; cases hhome
  | way hhome hfinds =>
    cases h' with
    | absent hnot => rw [hnot] at hhome; cases hhome
    | way _ hfinds' => exact hfinds.unique hfinds'
  | whole hhome hfinds =>
    cases h' with
    | absent hnot => rw [hnot] at hhome; cases hhome
    | whole _ hfinds' => exact hfinds.unique hfinds'

theorem Supplies.unique (h : Supplies t package types inside above found)
    (h' : Supplies t package types inside above found') : found = found' := by
  cases h with
  | absent hnot =>
    cases h' with
    | absent => rfl
    | own hthere | types hthere => rw [hnot] at hthere; cases hthere
  | own hthere hown =>
    cases h' with
    | absent hnot => rw [hnot] at hthere; cases hthere
    | own _ hown' => exact hown.unique hown'
    | types _ hown' => cases hown.unique hown'
  | types hthere hown htypes =>
    cases h' with
    | absent hnot => rw [hnot] at hthere; cases hthere
    | own _ hown' => cases hown.unique hown'
    | types _ _ htypes' => exact htypes.unique htypes'

section FirstFound

variable {α β : Type} (resolve : α → Attempt)

theorem firstFound_singleton (place : α) : firstFound resolve [place] = resolve place := by
  rw [firstFound]
  rcases resolve place with _ | _ | file <;> rfl

theorem firstFound_append (l m : List α) : firstFound resolve (l ++ m) =
    (firstFound resolve l).bind fun
      | some file => some (some file)
      | none => firstFound resolve m := by
  induction l with
  | nil => rfl
  | cons place l ih =>
    rw [List.cons_append, firstFound, firstFound, ih]
    rcases resolve place with _ | _ | file <;> rfl

theorem firstFound_flatMap (places : β → List α) (l : List β) :
    firstFound resolve (l.flatMap places) = firstFound (fun b => firstFound resolve (places b)) l := by
  induction l with
  | nil => rfl
  | cons b l ih =>
    rw [List.flatMap_cons, firstFound_append, ih]
    rcases hb : firstFound resolve (places b) with _ | _ | file <;> simp [firstFound, hb]

end FirstFound

def startIn (inside : Option String) (home : Path) : Start :=
  match inside with
  | some way => .file (home.join way)
  | none => .directory home

def packageStarts (t : FileTree) (directory : Path) (name : String) : List Start :=
  ((PackageName.split? name).map fun (package, inside) =>
    directory.ancestors.flatMap fun above =>
      (packageDirectories t package above).map (startIn inside)).getD []

def EndsByPackage (t : FileTree) (directory : Path) (name : String) : Prop :=
  ∃ n found, firstFound (Start.resolveWithin t n) (packageStarts t directory name) = some found

theorem yields_of_firstFound
    (h : firstFound (Start.resolveWithin t n) (([home].filter t.isDirectory).map (startIn inside)) =
      some found) : Yields t home inside found := by
  cases hhome : t.isDirectory home with
  | false =>
    rw [List.filter_cons_of_neg (by simp [hhome])] at h
    obtain rfl : none = found := Option.some.inj h
    exact .absent hhome
  | true =>
    rw [List.filter_cons_of_pos hhome, List.filter_nil, List.map_singleton, firstFound_singleton] at h
    cases inside with
    | some text => exact .way hhome ⟨n, h⟩
    | none => exact .whole hhome ⟨n, h⟩

theorem supplies_of_firstFound
    (h : firstFound (Start.resolveWithin t n) ((packageDirectories t package above).map (startIn inside)) =
      some found) : Supplies t package (PackageName.typesOf package) inside above found := by
  have hhomes : packageDirectories t package above = if t.isDirectory (installed above) then
      [(installed above).join package,
        ((installed above).join "@types").join (PackageName.typesOf package)].filter t.isDirectory
    else [] := rfl
  rw [hhomes] at h
  split at h
  next hthere =>
    rw [← List.singleton_append, List.filter_append, List.map_append, firstFound_append] at h
    obtain ⟨own, hown, hrest⟩ := Option.bind_eq_some_iff.1 h
    cases own with
    | some file =>
      obtain rfl : some file = found := Option.some.inj hrest
      exact .own hthere (yields_of_firstFound hown)
    | none => exact .types hthere (yields_of_firstFound hown) (yields_of_firstFound hrest)
  next hnot =>
    obtain rfl : none = found := Option.some.inj h
    exact .absent (by simpa using hnot)

theorem byPackage?_eq (t : FileTree) (directory : Path) (name : String) :
    byPackage? t directory name = (packageStarts t directory name).findSome? (Start.resolve? t) := by
  rw [byPackage?, packageStarts]
  cases PackageName.split? name with
  | none => rfl
  | some parts =>
    obtain ⟨package, inside⟩ := parts
    simp only [Option.bind_some, Option.map_some, Option.getD_some, findSome?_flatMap, List.findSome?_map,
      Function.comp_def]
    cases inside <;> simp only [startIn, Start.resolve?]

theorem byPackage?_of_firstFound
    (h : firstFound (Start.resolveWithin t n) (packageStarts t directory name) = some found) :
    byPackage? t directory name = found := by
  rw [byPackage?_eq]
  exact findSome?_of_firstFound (fun _ _ => Start.resolve?_of_resolveWithin) h

/-- The nearest directory above that supplies a file, or nothing if there is none. -/
def Nearest (directory : Path) (supplies : Path → Option Path → Prop) : Option Path → Prop
  | some file => ∃ k above, IsAbove directory k above ∧ supplies above (some file)
      ∧ ∀ j < k, ∀ nearer, IsAbove directory j nearer → supplies nearer none
  | none => ∀ k above, IsAbove directory k above → supplies above none

theorem nearest_of_firstFound {resolve : Path → Attempt} {supplies : Path → Option Path → Prop}
    (hresolve : ∀ above found, resolve above = some found → supplies above found)
    (h : firstFound resolve directory.ancestors = some found) : Nearest directory supplies found := by
  cases found with
  | none =>
    intro k above habove
    refine hresolve above none (firstFound_eq_none_iff.1 h above ?_)
    exact List.mem_of_getElem? (Path.getElem?_ancestors.2 habove)
  | some file =>
    obtain ⟨before, above, after, heq, hbefore, habove⟩ := firstFound_eq_file_iff.1 h
    refine ⟨before.length, above, Path.getElem?_ancestors.1 (by simp [heq]), hresolve above _ habove, ?_⟩
    intro j hj nearer hnearer
    refine hresolve nearer none (hbefore nearer ?_)
    have hget := Path.getElem?_ancestors.2 hnearer
    rw [heq, List.getElem?_append_left hj] at hget
    exact List.mem_of_getElem? hget

theorem Nearest.unique {supplies : Path → Option Path → Prop}
    (hunique : ∀ above found found', supplies above found → supplies above found' → found = found')
    (h : Nearest directory supplies found) (h' : Nearest directory supplies found') : found = found' := by
  cases found with
  | none =>
    cases found' with
    | none => rfl
    | some file =>
      obtain ⟨k, above, habove, hfile, -⟩ := h'
      exact hunique above _ _ (h k above habove) hfile
  | some file =>
    obtain ⟨k, above, habove, hfile, hnearer⟩ := h
    cases found' with
    | none => exact hunique above _ _ hfile (h' k above habove)
    | some file' =>
      obtain ⟨k', above', habove', hfile', hnearer'⟩ := h'
      rcases Nat.lt_trichotomy k k' with hlt | rfl | hlt
      · cases hunique above _ _ hfile (hnearer' k hlt above habove)
      · have hsame := (Path.getElem?_ancestors.2 habove).symm.trans (Path.getElem?_ancestors.2 habove')
        obtain rfl := Option.some.inj hsame
        exact hunique above _ _ hfile hfile'
      · cases hunique above' _ _ hfile' (hnearer k' hlt above' habove')

theorem head?_ne_slash (h : isFileName name = false) : name.toList.head? ≠ some '/' := by
  intro hhead
  obtain ⟨rest, hrest⟩ := List.head?_eq_some_iff.1 hhead
  rw [isFileName, hrest] at h
  simp at h

/-- What a package specifier comes to, when the search ends: the file that the nearest directory above
supplies for the package, and nothing if none supplies a file. -/
theorem byPackage?_nearest (hname : isFileName name = false) (hends : EndsByPackage t directory name) :
    (∀ file, byPackage? t directory name = some file ↔ ∃ package types inside,
        Reads name package types inside ∧ Nearest directory (Supplies t package types inside) (some file))
      ∧ (byPackage? t directory name = none ↔ ∀ package types inside,
        Reads name package types inside → Nearest directory (Supplies t package types inside) none) := by
  obtain ⟨n, found, hn⟩ := hends
  have hfound : byPackage? t directory name = found := byPackage?_of_firstFound hn
  have hnearest : ∀ package types inside, Reads name package types inside →
      Nearest directory (Supplies t package types inside) found := by
    intro package types inside hreads
    obtain ⟨hsplit, rfl⟩ := PackageName.split?_of_reads (head?_ne_slash hname) hreads
    rw [packageStarts, hsplit, Option.map_some, Option.getD_some, firstFound_flatMap] at hn
    exact nearest_of_firstFound (fun above found => supplies_of_firstFound) hn
  have hunique : ∀ package types inside found', Reads name package types inside →
      Nearest directory (Supplies t package types inside) found' → found = found' :=
    fun package types inside found' hreads hother =>
      (hnearest _ _ _ hreads).unique (fun _ _ _ h h' => h.unique h') hother
  -- a name that cannot be read is searched for nowhere
  have hunread : (¬ ∃ package types inside, Reads name package types inside) → found = none := by
    intro hnone
    cases hsplit : PackageName.split? name with
    | none =>
      rw [packageStarts, hsplit] at hn
      exact (Option.some.inj hn).symm
    | some parts => exact absurd (PackageName.exists_reads (by rw [hsplit]; simp)) hnone
  rw [hfound]
  constructor
  · intro file
    constructor
    · rintro rfl
      by_cases hread : ∃ package types inside, Reads name package types inside
      · obtain ⟨package, types, inside, hreads⟩ := hread
        exact ⟨package, types, inside, hreads, hnearest _ _ _ hreads⟩
      · cases hunread hread
    · rintro ⟨package, types, inside, hreads, hfile⟩
      exact hunique _ _ _ _ hreads hfile
  · constructor
    · rintro rfl package types inside hreads
      exact hnearest _ _ _ hreads
    · intro hall
      by_cases hread : ∃ package types inside, Reads name package types inside
      · obtain ⟨package, types, inside, hreads⟩ := hread
        exact hunique _ _ _ _ hreads (hall _ _ _ hreads)
      · exact hunread hread

def emptyPackages : FileTree where
  top := [("src", .directory [("node_modules", .directory [("@s", .directory [("lib", .directory [])])])]),
    ("node_modules", .directory [("@s", .directory [("lib", .directory [("notes.md", .file (.text ""))])]),
      ("@types", .directory [("s__lib", .directory [("index.d.ts", .file (.text ""))])])])]

theorem emptyPackages_hide_nothing :
    isFileName "@s/lib" = false ∧ EndsByPackage emptyPackages ⟨"/src"⟩ "@s/lib"
      ∧ byPackage? emptyPackages ⟨"/src"⟩ "@s/lib" = some ⟨"/node_modules/@types/s__lib/index.d.ts"⟩
      ∧ ∃ package types inside, Reads "@s/lib" package types inside
        ∧ Nearest ⟨"/src"⟩ (Supplies emptyPackages package types inside)
          (some ⟨"/node_modules/@types/s__lib/index.d.ts"⟩) := by
  have hname : isFileName "@s/lib" = false := by decide +kernel
  have hsearch : firstFound (Start.resolveWithin emptyPackages 1)
      (packageStarts emptyPackages ⟨"/src"⟩ "@s/lib") =
        some (some ⟨"/node_modules/@types/s__lib/index.d.ts"⟩) := by decide +kernel
  have hends : EndsByPackage emptyPackages ⟨"/src"⟩ "@s/lib" := ⟨1, _, hsearch⟩
  have hfound := byPackage?_of_firstFound hsearch
  exact ⟨hname, hends, hfound, ((byPackage?_nearest hname hends).1 _).1 hfound⟩

end CallDiagram.ModuleFinder
