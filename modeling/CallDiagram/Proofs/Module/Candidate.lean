import CallDiagram.Proofs.Module.Finder
import CallDiagram.Proofs.Module.Reentry

namespace CallDiagram.ModuleFinder

variable {t : FileTree} {base directory path : Path} {found : Option Path} {way : List Nat} {n : Nat}

mutual

/-- What may be the file that `base` stands for, and its position among all that may be. -/
inductive Candidate (t : FileTree) : Path → List Nat → Path → Prop
  | source {base : Path} {extension ending : String} {i : Nat} :
    base.extension? = some extension → extension ∈ scriptExtensions → sourceExtensions[i]? = some ending →
      Candidate t base [0, i] (base.withoutExtension.withSuffix ending)
  | itself {base : Path} {extension : String} {dialect : Dialect} :
    base.extension? = some extension → Dialect.ofExtension? extension = some dialect →
      Candidate t base [1, 0] base
  | extended {base : Path} {ending : String} {i : Nat} :
    Dialect.moduleExtensions[i]? = some ending → Candidate t base [2, i] (base.withSuffix ending)
  | inside {base path : Path} {way : List Nat} :
    t.isDirectory base → CandidateIn t base way path → Candidate t base (3 :: way) path

inductive CandidateIn (t : FileTree) : Path → List Nat → Path → Prop
  | entry {directory path : Path} {m : Manifest} {entry : String} {i : Nat} {way : List Nat} :
    Manifest.read? t directory = some m → [m.types, m.typings, m.main][i]? = some (some entry) →
      (directory.join entry).sameAs directory = false → Candidate t (directory.join entry) way path →
        CandidateIn t directory (i :: way) path
  | index {directory : Path} {name : String} {i : Nat} :
    indexFiles[i]? = some name → CandidateIn t directory [3, i] (directory.join name)

end

/-- The first of some candidates that is a file, or nothing when none is. -/
def FirstFile (t : FileTree) (C : List Nat → Path → Prop) : Option Path → Prop
  | some path => ∃ way, C way path ∧ t.isFile path
      ∧ ∀ earlier < way, ∀ other, C earlier other → t.isFile other = false
  | none => ∀ way path, C way path → t.isFile path = false

section FirstFile

variable {C D : List Nat → Path → Prop} {first rest : Option Path} {k : Nat}

theorem FirstFile.congr (h : ∀ way path, D way path ↔ C way path) (hfirst : FirstFile t C found) :
    FirstFile t D found := by
  rwa [show D = C from funext fun way => funext fun path => propext (h way path)]

def FromBranch (k : Nat) (C : List Nat → Path → Prop) (way : List Nat) (path : Path) : Prop :=
  ∃ i rest, way = i :: rest ∧ k ≤ i ∧ C (i :: rest) path

theorem FirstFile.branch (hfirst : FirstFile t (fun way => C (k :: way)) first)
    (hrest : first = none → FirstFile t (FromBranch (k + 1) C) rest) :
    FirstFile t (FromBranch k C) (first.or rest) := by
  cases first with
  | some path =>
    obtain ⟨way, hway, hfile, hearlier⟩ := hfirst
    refine ⟨k :: way, ⟨k, way, rfl, le_rfl, hway⟩, hfile, ?_⟩
    rintro _ hlt other ⟨i, before, rfl, hk, hother⟩
    rcases List.cons_lt_cons_iff.1 hlt with hi | ⟨rfl, hbefore⟩
    · exact absurd hi (Nat.not_lt.2 hk)
    · exact hearlier before hbefore other hother
  | none =>
    have hlater := hrest rfl
    have hsplit : ∀ {i before other}, k ≤ i → C (i :: before) other →
        t.isFile other = false ∨ FromBranch (k + 1) C (i :: before) other := by
      intro i before other hk hother
      rcases Nat.eq_or_lt_of_le hk with rfl | hk
      · exact .inl (hfirst before other hother)
      · exact .inr ⟨i, before, rfl, hk, hother⟩
    cases rest with
    | some path =>
      obtain ⟨_, ⟨i, way, rfl, hi, hway⟩, hfile, hearlier⟩ := hlater
      refine ⟨i :: way, ⟨i, way, rfl, Nat.le_of_succ_le hi, hway⟩, hfile, ?_⟩
      rintro _ hlt other ⟨j, before, rfl, hj, hother⟩
      exact (hsplit hj hother).elim id fun h => hearlier _ hlt other h
    | none =>
      rintro _ other ⟨i, before, rfl, hi, hother⟩
      exact (hsplit hi hother).elim id fun h => hlater _ other h

theorem FirstFile.of_fromBranch (hnil : ∀ path, ¬ C [] path) (h : FirstFile t (FromBranch 0 C) found) :
    FirstFile t C found := by
  refine h.congr fun way path => ⟨fun hway => ?_, fun ⟨i, before, heq, _, hway⟩ => heq ▸ hway⟩
  cases way with
  | nil => exact absurd hway (hnil path)
  | cons i before => exact ⟨i, before, rfl, Nat.zero_le i, hway⟩

theorem FirstFile.none_of_forall_not (h : ∀ way path, ¬ C way path) : FirstFile t C none :=
  fun way path hway => absurd hway (h way path)

theorem firstFile_find? (l : List Path) :
    FirstFile t (fun way path => ∃ i, way = [i] ∧ l[i]? = some path) (l.find? t.isFile) := by
  cases hfind : l.find? t.isFile with
  | none =>
    rintro _ path ⟨i, rfl, hi⟩
    simpa using List.find?_eq_none.1 hfind path (List.mem_of_getElem? hi)
  | some path =>
    obtain ⟨hfile, i, hi, rfl, hbefore⟩ := List.find?_eq_some_iff_getElem.1 hfind
    refine ⟨[i], ⟨i, rfl, List.getElem?_eq_getElem hi⟩, hfile, ?_⟩
    rintro _ hlt other ⟨j, rfl, hj⟩
    obtain hji | ⟨-, hnil⟩ := List.cons_lt_cons_iff.1 hlt
    · obtain ⟨hjl, rfl⟩ := List.getElem?_eq_some_iff.1 hj
      simpa using hbefore j hji
    · exact absurd hnil (List.not_lt_nil _)

theorem firstFile_firstFound {α : Type} {resolve : α → Attempt} {order : α → List Nat → Path → Prop}
    (hresolve : ∀ place found, resolve place = some found → FirstFile t (order place) found)
    {slots : List (Option α)} (hC : ∀ i slot, slots[i]? = some slot → ∀ way path,
      C ((k + i) :: way) path ↔ ∃ place, slot = some place ∧ order place way path)
    (hfound : firstFound resolve (slots.filterMap id) = some first)
    (hrest : first = none → FirstFile t (FromBranch (k + slots.length) C) rest) :
    FirstFile t (FromBranch k C) (first.or rest) := by
  induction slots generalizing k with
  | nil =>
    obtain rfl : none = first := Option.some.inj hfound
    exact hrest rfl
  | cons slot slots ih =>
    have hlater : ∀ i slot, slots[i]? = some slot → ∀ way path,
        C ((k + 1 + i) :: way) path ↔ ∃ place, slot = some place ∧ order place way path := by
      intro i slot hslot
      rw [Nat.add_assoc, Nat.add_comm 1]
      exact hC (i + 1) slot hslot
    have hlast : first = none → FirstFile t (FromBranch (k + 1 + slots.length) C) rest := by
      rwa [Nat.add_assoc, Nat.add_comm 1]
    have hslot := hC 0 slot rfl
    cases slot with
    | none =>
      have hnone : FirstFile t (fun way => C (k :: way)) none :=
        .none_of_forall_not fun way path h => by simpa using (hslot way path).1 h
      exact hnone.branch fun _ => ih hlater hfound hlast
    | some place =>
      obtain ⟨own, hown, hothers⟩ := Option.bind_eq_some_iff.1 hfound
      have hplace : FirstFile t (fun way => C (k :: way)) own :=
        (hresolve place own hown).congr fun way path => by simpa using hslot way path
      cases own with
      | some file =>
        obtain rfl : some file = first := Option.some.inj hothers
        exact hplace.branch fun h => by cases h
      | none => exact hplace.branch fun _ => ih hlater hothers hlast

end FirstFile

section Order

def entrySlots (t : FileTree) (directory : Path) : List (Option Path) :=
  let entries := ((Manifest.read? t directory).map fun m => [m.types, m.typings, m.main]).getD
    [none, none, none]
  entries.map fun slot => slot.bind fun entry =>
    if (directory.join entry).sameAs directory then none else some (directory.join entry)

theorem length_entrySlots (t : FileTree) (directory : Path) : (entrySlots t directory).length = 3 := by
  rw [entrySlots, List.length_map]
  cases Manifest.read? t directory <;> rfl

theorem entryTargets_eq (t : FileTree) (directory : Path) :
    entryTargets t directory = (entrySlots t directory).filterMap id := by
  rw [entryTargets, entrySlots]
  cases Manifest.read? t directory with
  | none => rfl
  | some m =>
    simp only [Option.map_some, Option.getD_some, Manifest.entryPoints, List.map_filterMap,
      List.filter_filterMap, List.filterMap_map]
    congr 1
    funext slot
    cases slot with
    | none => rfl
    | some entry => cases h : (directory.join entry).sameAs directory <;> simp [h]

theorem candidateIn_entry_iff {slot : Option Path} {i : Nat}
    (hslot : (entrySlots t directory)[i]? = some slot) :
    CandidateIn t directory (i :: way) path ↔ ∃ target, slot = some target ∧ Candidate t target way path := by
  have hi : i < 3 := length_entrySlots t directory ▸ (List.getElem?_eq_some_iff.1 hslot).1
  rw [entrySlots, List.getElem?_map] at hslot
  constructor
  · intro h
    cases h with
    | entry hread hentry hskip hpath =>
      simp only [hread, Option.map_some, Option.getD_some, hentry, Option.bind_some, hskip,
        Bool.false_eq_true, if_false, Option.some.injEq] at hslot
      exact ⟨_, hslot.symm, hpath⟩
    | index => exact absurd hi (Nat.lt_irrefl 3)
  · rintro ⟨target, rfl, hpath⟩
    obtain ⟨entry, hentry, htarget⟩ := Option.map_eq_some_iff.1 hslot
    obtain ⟨text, rfl, htext⟩ := Option.bind_eq_some_iff.1 htarget
    cases hread : Manifest.read? t directory with
    | none =>
      rw [hread] at hentry
      simpa using List.mem_of_getElem? hentry
    | some m =>
      rw [hread] at hentry
      split at htext
      · cases htext
      · next hskip =>
        obtain rfl := Option.some.inj htext
        exact .entry hread hentry (by simpa using hskip) hpath

theorem candidateIn_index_iff :
    CandidateIn t directory (3 :: way) path ↔
      ∃ i, way = [i] ∧ (indexFiles.map directory.join)[i]? = some path := by
  constructor
  · intro h
    cases h with
    | entry _ hentry => exact absurd (List.getElem?_eq_some_iff.1 hentry).1 (Nat.lt_irrefl 3)
    | index hname => exact ⟨_, rfl, by simp [hname]⟩
  · rintro ⟨i, rfl, hi⟩
    rw [List.getElem?_map] at hi
    obtain ⟨name, hname, rfl⟩ := Option.map_eq_some_iff.1 hi
    exact .index hname

theorem not_candidateIn_of_three_lt {i : Nat} (hi : 3 < i) : ¬ CandidateIn t directory (i :: way) path := by
  intro h
  cases h with
  | entry _ hentry =>
    exact absurd (List.getElem?_eq_some_iff.1 hentry).1 (Nat.not_lt.2 (Nat.le_of_lt hi))
  | index => exact absurd hi (Nat.lt_irrefl 3)

theorem firstFile_inDirectory? {resolve : Path → Attempt}
    (hresolve : ∀ target found, resolve target = some found → FirstFile t (Candidate t target) found)
    (h : inDirectory? t resolve directory = some found) : FirstFile t (CandidateIn t directory) found := by
  obtain ⟨entry, hentry, rfl⟩ := inDirectory?_eq_some_iff.1 h
  have hindex : FirstFile t (fun way => CandidateIn t directory (3 :: way))
      ((indexFiles.map directory.join).find? t.isFile) :=
    (firstFile_find? _).congr fun _ _ => candidateIn_index_iff
  have hnothing : FirstFile t (FromBranch 4 (CandidateIn t directory)) none :=
    .none_of_forall_not fun way path ⟨i, rest, _, hi, hpath⟩ => not_candidateIn_of_three_lt hi hpath
  refine .of_fromBranch (fun path hpath => by cases hpath) ?_
  refine firstFile_firstFound hresolve
    (fun i slot hslot way path => by rw [Nat.zero_add]; exact candidateIn_entry_iff hslot)
    (entryTargets_eq t directory ▸ hentry) fun _ => ?_
  rw [length_entrySlots, ← Option.or_none (o := List.find? _ _)]
  exact hindex.branch fun _ => hnothing

theorem candidate_source_iff :
    Candidate t base (0 :: way) path ↔ ∃ i, way = [i]
      ∧ (if base.extension?.isSome && scriptExtensions.contains (base.extension?.getD "") then
          sourceExtensions.map base.withoutExtension.withSuffix else [])[i]? = some path := by
  constructor
  · intro h
    cases h with
    | source hextension hscript hending =>
      exact ⟨_, rfl, by simp [hextension, hscript, hending]⟩
  · rintro ⟨i, rfl, hi⟩
    split at hi
    · next hscript =>
      obtain ⟨hsome, hcontains⟩ := Bool.and_eq_true_iff.1 hscript
      obtain ⟨extension, hextension⟩ := Option.isSome_iff_exists.1 hsome
      rw [hextension] at hcontains
      rw [List.getElem?_map] at hi
      obtain ⟨ending, hending, rfl⟩ := Option.map_eq_some_iff.1 hi
      exact .source hextension (List.contains_iff_mem.1 hcontains) hending
    · simp at hi

theorem candidate_itself_iff :
    Candidate t base (1 :: way) path ↔ ∃ i, way = [i]
      ∧ (if (base.extension?.bind Dialect.ofExtension?).isSome then [base] else [])[i]? = some path := by
  constructor
  · intro h
    cases h with
    | itself hextension hdialect => exact ⟨0, rfl, by simp [hextension, hdialect]⟩
  · rintro ⟨i, rfl, hi⟩
    split at hi
    · next hknown =>
      obtain ⟨dialect, hdialect⟩ := Option.isSome_iff_exists.1 hknown
      obtain ⟨extension, hextension, hdialect⟩ := Option.bind_eq_some_iff.1 hdialect
      obtain ⟨hlt, rfl⟩ := List.getElem?_eq_some_iff.1 hi
      obtain rfl : i = 0 := Nat.lt_one_iff.1 hlt
      exact .itself hextension hdialect
    · simp at hi

theorem candidate_extended_iff :
    Candidate t base (2 :: way) path ↔
      ∃ i, way = [i] ∧ (Dialect.moduleExtensions.map base.withSuffix)[i]? = some path := by
  constructor
  · intro h
    cases h with
    | extended hending => exact ⟨_, rfl, by simp [hending]⟩
  · rintro ⟨i, rfl, hi⟩
    rw [List.getElem?_map] at hi
    obtain ⟨ending, hending, rfl⟩ := Option.map_eq_some_iff.1 hi
    exact .extended hending

theorem candidate_inside_iff :
    Candidate t base (3 :: way) path ↔ t.isDirectory base ∧ CandidateIn t base way path :=
  ⟨fun h => by cases h with | inside hdirectory hpath => exact ⟨hdirectory, hpath⟩,
    fun ⟨hdirectory, hpath⟩ => .inside hdirectory hpath⟩

theorem firstFile_resolveWithin (h : resolveWithin t n base = some found) :
    FirstFile t (Candidate t base) found := by
  induction n generalizing base found with
  | zero => cases h
  | succ n ih =>
    obtain ⟨inner, rfl, hinner⟩ : ∃ inner, found = ((candidates base).find? t.isFile).or inner
        ∧ ((candidates base).find? t.isFile = none →
            FirstFile t (fun way => Candidate t base (3 :: way)) inner) := by
      by_cases hopens : Opens t base
      · rw [resolveWithin_of_opens hopens] at h
        refine ⟨found, by rw [hopens.1, Option.none_or], fun _ => ?_⟩
        exact (firstFile_inDirectory? (fun _ _ => ih) h).congr fun way path =>
          candidate_inside_iff.trans (and_iff_right hopens.2)
      · rw [resolveWithin_of_not_opens hopens] at h
        refine ⟨none, by rw [Option.or_none, Option.some.inj h], fun hnone => ?_⟩
        exact .none_of_forall_not fun way path hpath =>
          hopens ⟨hnone, (candidate_inside_iff.1 hpath).1⟩
    have hnothing : FirstFile t (FromBranch 4 (Candidate t base)) none :=
      .none_of_forall_not fun way path ⟨i, rest, _, hi, hpath⟩ => by cases hpath <;> omega
    rw [candidates, List.find?_append, List.find?_append] at hinner ⊢
    rw [Option.or_assoc, Option.or_assoc]
    refine .of_fromBranch (fun path hpath => by cases hpath) ?_
    refine ((firstFile_find? _).congr fun _ _ => candidate_source_iff).branch fun hsource => ?_
    refine ((firstFile_find? _).congr fun _ _ => candidate_itself_iff).branch fun hitself => ?_
    refine ((firstFile_find? _).congr fun _ _ => candidate_extended_iff).branch fun hextended => ?_
    rw [← Option.or_none (o := inner)]
    exact (hinner (by rw [hsource, hitself, hextended]; rfl)).branch fun _ => hnothing

end Order

section Start

def Start.Candidate (t : FileTree) : Start → List Nat → Path → Prop
  | .file base => ModuleFinder.Candidate t base
  | .directory home => CandidateIn t home

def Start.resolve? (t : FileTree) : Start → Option Path
  | .file base => resolveFile? t base
  | .directory home => resolveDirectory? t home

variable {f : ModuleFinder} {importer : Path} {name : String}

theorem findSome?_flatMap {α β γ : Type} (g : β → Option γ) (h : α → List β) (l : List α) :
    (l.flatMap h).findSome? g = l.findSome? fun a => (h a).findSome? g := by
  induction l with
  | nil => rfl
  | cons a l ih =>
    rw [List.flatMap_cons, List.findSome?_append, ih, List.findSome?_cons]
    cases (h a).findSome? g <;> rfl

theorem find?_eq (f : ModuleFinder) (t : FileTree) (importer : Path) (name : String) :
    f.find? t importer name = ((f.starts t importer name).findSome? (Start.resolve? t)).bind fun path =>
      (t.canonicalize path).toOption := by
  rw [find?, starts]
  congr 1
  split
  · simp [Start.resolve?]
  · rw [List.findSome?_append, List.findSome?_append, findSome?_flatMap, byAlias?, byPattern?, byPackage?]
    congr 2
    · congr 1
      funext (pattern, targets)
      dsimp only
      cases ModulePattern.match? pattern name with
      | none => rfl
      | some text =>
        simp only [Option.bind_some, Option.map_some, Option.getD_some, List.findSome?_map,
          Function.comp_def, Start.resolve?]
    · cases f.base? with
      | none => rfl
      | some base => simp [Start.resolve?]
    · cases PackageName.split? name with
      | none => rfl
      | some parts =>
        obtain ⟨package, inside⟩ := parts
        simp only [Option.bind_some, Option.map_some, Option.getD_some, findSome?_flatMap,
          List.findSome?_map, Function.comp_def]
        cases inside <;> simp only [Start.resolve?]

def Ends (f : ModuleFinder) (t : FileTree) (importer : Path) (name : String) : Prop :=
  ∃ n found, firstFound (Start.resolveWithin t n) (f.starts t importer name) = some found

theorem Start.resolve?_of_resolveWithin {start : Start} (h : start.resolveWithin t n = some found) :
    start.resolve? t = found := by
  cases start with
  | file base => exact resolveFile?_of_finds ⟨n, h⟩
  | directory home => exact resolveDirectory?_of_findsIn ⟨n, h⟩

theorem findSome?_of_firstFound {α : Type} {resolve : α → Attempt} {g : α → Option Path} {l : List α}
    (hg : ∀ place found, resolve place = some found → g place = found)
    (h : firstFound resolve l = some found) : l.findSome? g = found := by
  induction l with
  | nil => exact Option.some.inj h
  | cons place l ih =>
    obtain ⟨own, hown, hothers⟩ := Option.bind_eq_some_iff.1 h
    rw [List.findSome?_cons, hg place own hown]
    cases own with
    | some file => exact Option.some.inj hothers
    | none => exact ih hothers

theorem Start.firstFile {start : Start} (h : start.resolveWithin t n = some found) :
    FirstFile t (start.Candidate t) found := by
  cases start with
  | file base => exact firstFile_resolveWithin h
  | directory home => exact firstFile_inDirectory? (fun _ _ => firstFile_resolveWithin) h

def Names (f : ModuleFinder) (t : FileTree) (importer : Path) (name : String) :
    List Nat → Path → Prop
  | [], _ => False
  | i :: way, path => ∃ start, (f.starts t importer name)[i]? = some start ∧ start.Candidate t way path

theorem firstFile_starts
    (h : firstFound (Start.resolveWithin t n) (f.starts t importer name) = some found) :
    FirstFile t (f.Names t importer name) found := by
  have hslots : ((f.starts t importer name).map some).filterMap id = f.starts t importer name := by
    simp [List.filterMap_map]
  have hnothing : FirstFile t (FromBranch (0 + ((f.starts t importer name).map some).length)
      (f.Names t importer name)) none := by
    refine .none_of_forall_not fun way path ⟨i, rest, _, hi, start, hstart, _⟩ => ?_
    have := (List.getElem?_eq_some_iff.1 hstart).1
    rw [List.length_map] at hi
    omega
  refine .of_fromBranch (fun path hpath => hpath) ?_
  rw [← Option.or_none (o := found)]
  refine firstFile_firstFound (fun start found => Start.firstFile) (fun i slot hslot way path => ?_)
    (hslots.symm ▸ h) fun _ => hnothing
  rw [List.getElem?_map] at hslot
  obtain ⟨start, hstart, rfl⟩ := Option.map_eq_some_iff.1 hslot
  rw [Nat.zero_add]
  constructor
  · rintro ⟨start', hstart', hpath⟩
    obtain rfl : start = start' := Option.some.inj (hstart.symm.trans hstart')
    exact ⟨start, rfl, hpath⟩
  · rintro ⟨start', heq, hpath⟩
    obtain rfl := Option.some.inj heq
    exact ⟨start, hstart, hpath⟩

/-- A search that ends finds the canonical path of the first candidate that is a file, and nothing only
when no candidate is one. -/
theorem find?_firstFile (h : f.Ends t importer name) :
    (∀ path, f.find? t importer name = some path →
        ∃ file, FirstFile t (f.Names t importer name) (some file) ∧ t.canonicalize file = .ok path
          ∧ ∃ place contents, t.root.at? place = some (.file contents) ∧ place.toPath = path)
      ∧ (f.find? t importer name = none ↔ FirstFile t (f.Names t importer name) none) := by
  obtain ⟨n, found, hn⟩ := h
  have hfirst := firstFile_starts hn
  have hfind : f.find? t importer name = found.bind fun path => (t.canonicalize path).toOption := by
    rw [find?_eq, findSome?_of_firstFound (fun _ _ => Start.resolve?_of_resolveWithin) hn]
  cases found with
  | none =>
    refine ⟨fun path hpath => ?_, fun _ => hfirst, fun _ => hfind⟩
    rw [hfind] at hpath
    cases hpath
  | some file =>
    obtain ⟨way, hway, hfile, -⟩ := id hfirst
    obtain ⟨place, contents, hplace, hat⟩ := FileTree.locate_of_isFile hfile
    have hcanonical : t.canonicalize file = .ok place.toPath := by rw [FileTree.canonicalize, hplace]; rfl
    have hsome : f.find? t importer name = some place.toPath := by
      rw [hfind, Option.bind_some, hcanonical]
      rfl
    constructor
    · intro path hpath
      obtain rfl : place.toPath = path := Option.some.inj (hsome.symm.trans hpath)
      exact ⟨file, hfirst, hcanonical, place, contents, hat, rfl⟩
    · rw [hsome]
      refine ⟨fun hnone => ?_, fun hnone => ?_⟩
      · cases hnone
      · rw [hnone way file hway] at hfile
        cases hfile

def namedLikeSources : FileTree where
  top := [("main.ts", .file (.text "")), ("lib.ts", .directory []),
    ("lib", .directory [("main.tsx", .file (.text "")), ("index.ts", .file (.text "")),
      ("package.json", .file (.text "\x7b\"types\":\"typed\",\"main\":\"./main.js\"\x7d"))])]

def relativeOnly : ModuleFinder where
  base? := none
  patterns := []
  projectRoot := ⟨"/"⟩

theorem find?_namedLikeSources :
    relativeOnly.Ends namedLikeSources ⟨"/main.ts"⟩ "./lib"
      ∧ relativeOnly.find? namedLikeSources ⟨"/main.ts"⟩ "./lib" = some ⟨"/lib/main.tsx"⟩
      ∧ ∃ file, FirstFile namedLikeSources (relativeOnly.Names namedLikeSources ⟨"/main.ts"⟩ "./lib") (some file)
        ∧ namedLikeSources.canonicalize file = .ok ⟨"/lib/main.tsx"⟩ := by
  have hends : relativeOnly.Ends namedLikeSources ⟨"/main.ts"⟩ "./lib" :=
    ⟨2, some ⟨"/./lib/./main.tsx"⟩, by decide +kernel⟩
  have hfind : relativeOnly.find? namedLikeSources ⟨"/main.ts"⟩ "./lib" = some ⟨"/lib/main.tsx"⟩ := by
    decide +kernel
  obtain ⟨file, hfile, hcanonical, -⟩ := (find?_firstFile hends).1 _ hfind
  exact ⟨hends, hfind, file, hfile, hcanonical⟩

end Start

end CallDiagram.ModuleFinder
