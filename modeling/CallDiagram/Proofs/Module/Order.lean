import CallDiagram.Proofs.Module.Candidate
import CallDiagram.Proofs.Module.Pattern
import CallDiagram.Proofs.Settings.Sorted

/-!
The order in which the patterns of the settings are tried for a module name, and what the name stands for.
Patterns are sorted by how much stands before their star and otherwise stay in the order of their texts.
That one without a star comes first rests on both: it is as long as the name, and it is the start of any
other that is as specific.
-/

namespace CallDiagram

theorem pairwise_mergeSort_of_pairwise {α : Type} {le : α → α → Bool} {r : α → α → Prop} {l : List α}
    (htrans : ∀ a b c, le a b → le b c → le a c) (htotal : ∀ a b, le a b || le b a) (h : l.Pairwise r) :
    (l.mergeSort le).Pairwise fun a b => le a b ∧ (le b a → r a b) := by
  have hsorted := List.pairwise_mergeSort (List.zipIdxLE_trans htrans) (List.zipIdxLE_total htotal) l.zipIdx
  have hperm := List.mergeSort_perm l.zipIdx (List.zipIdxLE le)
  have hnodup : ((l.zipIdx.mergeSort (List.zipIdxLE le)).map Prod.snd).Nodup := by
    rw [(hperm.map _).nodup_iff, List.zipIdx_map_snd]
    exact List.nodup_range'
  rw [← List.mergeSort_zipIdx, List.pairwise_map]
  refine (hsorted.and (List.pairwise_map.1 hnodup)).imp_of_mem ?_
  rintro ⟨a, i⟩ ⟨b, j⟩ ha hb ⟨hle, hne⟩
  have ha' : l[i]? = some a := List.mem_zipIdx_iff_getElem?.1 (hperm.mem_iff.1 ha)
  have hb' : l[j]? = some b := List.mem_zipIdx_iff_getElem?.1 (hperm.mem_iff.1 hb)
  obtain ⟨hi, rfl⟩ := List.getElem?_eq_some_iff.1 ha'
  obtain ⟨hj, rfl⟩ := List.getElem?_eq_some_iff.1 hb'
  rw [List.zipIdxLE] at hle
  split at hle
  · next hab =>
    refine ⟨hab, fun hba => ?_⟩
    rw [if_pos hba, decide_eq_true_eq] at hle
    exact List.pairwise_iff_getElem.1 h i j hi hj (Nat.lt_of_le_of_ne hle hne)
  · cases hle

namespace ModulePattern

variable {p q name : String} {cs before after : List Char}

/-- Whether `p` is tried before `q` where both match a name: a pattern without a star before those with
one, and of these the one with more before its star, or else the one that is first by its text. -/
def Precedes (p q : String) : Prop :=
  '*' ∈ q.toList ∧ ('*' ∉ p.toList ∨ specificity q < specificity p ∨ specificity q = specificity p ∧ p < q)

theorem isSome_match?_of_not_mem (h : '*' ∉ p.toList) : (match? p name).isSome ↔ p = name := by
  rw [Option.isSome_iff_exists]
  simp [match?_of_not_mem h]

theorem specificity_of_not_mem (h : '*' ∉ p.toList) : specificity p = p.utf8ByteSize := by
  rw [specificity, splitAtStar_of_not_mem h, String.ofList_toList]

theorem exists_split (hstar : '*' ∈ p.toList) (h : (match? p name).isSome) :
    ∃ before after rest, p.toList = before ++ '*' :: after ∧ name.toList = before ++ rest
      ∧ specificity p = (String.ofList before).utf8ByteSize := by
  obtain ⟨before, after, hp, hbefore⟩ := List.eq_append_cons_of_mem hstar
  obtain ⟨text, htext⟩ := Option.isSome_iff_exists.1 h
  rw [match?_eq_some, hp, matchChars?_append hbefore, List.append_assoc] at htext
  exact ⟨before, after, text.toList ++ after, hp, htext, by rw [specificity, hp, splitAtStar_append hbefore]⟩

theorem lt_append_cons (cs : List Char) (c : Char) (ds : List Char) : cs < cs ++ c :: ds := by
  induction cs with
  | nil => exact .nil
  | cons d cs ih => exact .cons ih

/-- A pattern without a star is as specific as a pattern for the same name can be. One with a star that
is as specific goes on behind the name, so it comes later by its text. -/
theorem precedes_of_specificity_le (hp : (match? p name).isSome) (hq : (match? q name).isSome)
    (hle : specificity q ≤ specificity p) (hlt : specificity p ≤ specificity q → p < q) : Precedes p q := by
  by_cases hstar : '*' ∈ q.toList
  · refine ⟨hstar, .inr ?_⟩
    rcases Nat.lt_or_eq_of_le hle with hless | heq
    · exact .inl hless
    · exact .inr ⟨heq, hlt (Nat.le_of_eq heq.symm)⟩
  · obtain rfl : q = name := (isSome_match?_of_not_mem hstar).1 hq
    rw [specificity_of_not_mem hstar] at hle hlt
    by_cases hstar' : '*' ∈ p.toList
    · obtain ⟨before, after, rest, hsplit, hname, hsize⟩ := exists_split hstar' hp
      have hwhole : q = String.ofList before ++ String.ofList rest := by
        rw [← String.ofList_append, ← hname, String.ofList_toList]
      have hrest : rest = [] := by
        rw [hsize, hwhole, String.utf8ByteSize_append] at hle
        have hzero : (String.ofList rest).utf8ByteSize = 0 := by omega
        exact String.ofList_eq_empty_iff.1 (String.utf8ByteSize_eq_zero_iff.1 hzero)
      have hless : q < p := by
        rw [String.lt_iff, hname, hsplit, hrest, List.append_nil]
        exact lt_append_cons _ _ _
      have hsame : specificity p ≤ q.utf8ByteSize := by
        rw [hsize, hwhole, String.utf8ByteSize_append]
        exact Nat.le_add_right _ _
      exact absurd hless (String.lt_asymm (hlt hsame))
    · obtain rfl : p = q := (isSome_match?_of_not_mem hstar').1 hp
      rw [specificity_of_not_mem hstar] at hlt
      exact absurd (hlt (Nat.le_refl _)) (String.lt_irrefl p)

end ModulePattern

namespace ModuleFinder

open Settings (directoryOf)

variable {settings : Settings} {f : ModuleFinder} {t : FileTree} {root importer directory path file : Path}
  {found : Option Path} {name : String}

def matching (f : ModuleFinder) (name : String) : List (String × List String) :=
  f.patterns.filter fun p => (ModulePattern.match? p.1 name).isSome

def pairs (f : ModuleFinder) (name : String) : List (String × String) :=
  (f.matching name).flatMap fun (pattern, targets) => targets.map fun target => (pattern, target)

def targetPath (f : ModuleFinder) (name : String) : String × String → Path
  | (pattern, target) => (f.base?.getD f.projectRoot).join
      (ModulePattern.fill target ((ModulePattern.match? pattern name).getD ""))

/-- The path that a name leads to, if any: from the importing directory for the name of a file, and else
from the first pair that leads to a file. Only where no pair does, the base directory counts, and
only where there is nothing either, the packages do. -/
inductive Denotes (f : ModuleFinder) (t : FileTree) (directory : Path) (name : String) : Option Path → Prop
  | file : isFileName name → Denotes f t directory name (resolveFile? t (directory.join name))
  | pattern {before after : List (String × String)} {pair : String × String} {path : Path} :
    isFileName name = false → f.pairs name = before ++ pair :: after →
      (∀ earlier ∈ before, resolveFile? t (f.targetPath name earlier) = none) →
        resolveFile? t (f.targetPath name pair) = some path → Denotes f t directory name (some path)
  | base {base path : Path} :
    isFileName name = false → (∀ pair ∈ f.pairs name, resolveFile? t (f.targetPath name pair) = none) →
      f.base? = some base → resolveFile? t (base.join name) = some path →
        Denotes f t directory name (some path)
  | package :
    isFileName name = false → (∀ pair ∈ f.pairs name, resolveFile? t (f.targetPath name pair) = none) →
      (∀ base, f.base? = some base → resolveFile? t (base.join name) = none) →
        Denotes f t directory name (byPackage? t directory name)

theorem byPattern?_eq (f : ModuleFinder) (t : FileTree) (name : String) :
    f.byPattern? t name = (f.pairs name).findSome? fun pair => resolveFile? t (f.targetPath name pair) := by
  rw [byPattern?, pairs, findSome?_flatMap, matching]
  induction f.patterns with
  | nil => rfl
  | cons p patterns ih =>
    obtain ⟨pattern, targets⟩ := p
    rw [List.findSome?_cons, ih, List.filter_cons]
    cases hmatch : ModulePattern.match? pattern name with
    | none => simp only [hmatch, Option.bind_none, Option.isSome_none, Bool.false_eq_true, if_false]
    | some text =>
      simp only [Option.bind_some, Option.isSome_some, if_true, List.findSome?_cons, List.findSome?_map,
        Function.comp_def, targetPath, hmatch, Option.getD_some]

theorem search?_of_isFileName (h : isFileName name) :
    f.search? t directory name = resolveFile? t (directory.join name) := if_pos h

theorem search?_of_bare (h : isFileName name = false) :
    f.search? t directory name =
      ((f.pairs name).findSome? fun pair => resolveFile? t (f.targetPath name pair)).or
        ((f.base?.bind fun base => resolveFile? t (base.join name)).or (byPackage? t directory name)) := by
  rw [search?, h, byAlias?, byPattern?_eq, ← Option.or_assoc]
  exact if_neg Bool.false_ne_true

theorem search?_of_denotes (h : f.Denotes t directory name found) : f.search? t directory name = found := by
  cases h with
  | file hname => exact search?_of_isFileName hname
  | @pattern before after pair path hname hpairs hbefore hpair =>
    have hfirst : ((f.pairs name).findSome? fun pair => resolveFile? t (f.targetPath name pair)) = some path :=
      List.findSome?_eq_some_iff.2 ⟨before, pair, after, hpairs, hpair, hbefore⟩
    rw [search?_of_bare hname, hfirst, Option.some_or]
  | @base base path hname hpairs hbase hfile =>
    rw [search?_of_bare hname, List.findSome?_eq_none_iff.2 hpairs, Option.none_or, hbase, Option.bind_some,
      hfile, Option.some_or]
  | package hname hpairs hbase =>
    rw [search?_of_bare hname, List.findSome?_eq_none_iff.2 hpairs, Option.none_or,
      Option.bind_eq_none_iff.2 hbase, Option.none_or]

theorem denotes_search? (f : ModuleFinder) (t : FileTree) (directory : Path) (name : String) :
    f.Denotes t directory name (f.search? t directory name) := by
  cases hname : isFileName name with
  | true => exact search?_of_isFileName hname ▸ .file hname
  | false =>
    rw [search?_of_bare hname]
    cases hpattern : (f.pairs name).findSome? fun pair => resolveFile? t (f.targetPath name pair) with
    | some path =>
      obtain ⟨before, pair, after, hpairs, hpair, hbefore⟩ := List.findSome?_eq_some_iff.1 hpattern
      exact .pattern hname hpairs hbefore hpair
    | none =>
      have hpairs := List.findSome?_eq_none_iff.1 hpattern
      rw [Option.none_or]
      cases hbelow : f.base?.bind fun base => resolveFile? t (base.join name) with
      | some path =>
        obtain ⟨base, hbase, hfile⟩ := Option.bind_eq_some_iff.1 hbelow
        exact .base hname hpairs hbase hfile
      | none =>
        rw [Option.none_or]
        exact .package hname hpairs (Option.bind_eq_none_iff.1 hbelow)

theorem denotes_iff : f.Denotes t directory name found ↔ f.search? t directory name = found :=
  ⟨search?_of_denotes, fun h => h ▸ denotes_search? f t directory name⟩

theorem find?_eq_search? : f.find? t importer name =
    (f.search? t (directoryOf importer) name).bind fun path => (t.canonicalize path).toOption := rfl

theorem find?_eq_some_iff : f.find? t importer name = some file ↔
    ∃ path, f.Denotes t (directoryOf importer) name (some path) ∧ t.canonicalize path = .ok file := by
  rw [find?_eq_search?, Option.bind_eq_some_iff]
  refine exists_congr fun path => and_congr denotes_iff.symm ?_
  cases t.canonicalize path <;> simp [Except.toOption]

theorem find?_eq_none_iff : f.find? t importer name = none ↔ f.Denotes t (directoryOf importer) name none := by
  rw [find?_eq_search?, denotes_iff]
  cases hsearch : f.search? t (directoryOf importer) name with
  | none => simp
  | some path =>
    obtain ⟨place, contents, hplace, hat⟩ := FileTree.locate_of_isFile (search?_isFile hsearch)
    have hcanonical : t.canonicalize path = .ok place.toPath := by rw [FileTree.canonicalize, hplace]; rfl
    simp [hcanonical, Except.toOption]

theorem pairwise_patterns (hsorted : settings.IsSorted) (root : Path) :
    (ofSettings root settings).patterns.Pairwise fun p q =>
      ModulePattern.specificity q.1 ≤ ModulePattern.specificity p.1
        ∧ (ModulePattern.specificity p.1 ≤ ModulePattern.specificity q.1 → p.1 < q.1) := by
  refine (pairwise_mergeSort_of_pairwise ?_ ?_ (List.pairwise_map.1 hsorted)).imp fun h => ?_
  · exact fun _ _ _ hpq hqr => decide_eq_true (Nat.le_trans (of_decide_eq_true hqr) (of_decide_eq_true hpq))
  · exact fun p q => by simpa using Nat.le_total (ModulePattern.specificity q.1) _
  · exact ⟨of_decide_eq_true h.1, fun hle => h.2 (decide_eq_true hle)⟩

theorem pairwise_matching (hsorted : settings.IsSorted) (root : Path) (name : String) :
    ((ofSettings root settings).matching name).Pairwise fun p q => ModulePattern.Precedes p.1 q.1 :=
  ((pairwise_patterns hsorted root).filter _).imp_of_mem fun hp hq h =>
    ModulePattern.precedes_of_specificity_le (List.mem_filter.1 hp).2 (List.mem_filter.1 hq).2 h.1 h.2

theorem pairwise_matching_of_load {place : Path} (h : Settings.load t place = .ok settings) (root : Path)
    (name : String) :
    ((ofSettings root settings).matching name).Pairwise fun p q => ModulePattern.Precedes p.1 q.1 :=
  pairwise_matching (Settings.isSorted_load h) root name

/-- The patterns of the settings that match a name are tried in their order of precedence, in all settings
that list them by their texts and so in all that can be loaded: one without a star is the name itself and
comes first. What the name stands for follows from the first pair of a pattern and a target that leads to
a file, then from the base directory, and then from the packages; for the name of a file, from none of
them. -/
theorem find?_by_precedence (settings : Settings) (root : Path)
    (t : FileTree) (importer : Path) (name : String) :
    ((ofSettings root settings).matching name).Perm
        (settings.paths.filter fun p => (ModulePattern.match? p.1 name).isSome)
      ∧ (settings.IsSorted →
        ((ofSettings root settings).matching name).Pairwise fun p q => ModulePattern.Precedes p.1 q.1)
      ∧ (∀ (u : FileTree) (place : Path), Settings.load u place = .ok settings →
        ((ofSettings root settings).matching name).Pairwise fun p q => ModulePattern.Precedes p.1 q.1)
      ∧ (∀ p ∈ (ofSettings root settings).matching name, '*' ∉ p.1.toList → p.1 = name)
      ∧ (∀ file, (ofSettings root settings).find? t importer name = some file ↔
          ∃ path, (ofSettings root settings).Denotes t (directoryOf importer) name (some path)
            ∧ t.canonicalize path = .ok file)
      ∧ ((ofSettings root settings).find? t importer name = none ↔
          (ofSettings root settings).Denotes t (directoryOf importer) name none) := by
  refine ⟨(List.mergeSort_perm _ _).filter _, fun h => pairwise_matching h root name,
    fun _ _ h => pairwise_matching_of_load h root name, fun p hp hstar => ?_,
    fun file => find?_eq_some_iff, find?_eq_none_iff⟩
  exact (ModulePattern.isSome_match?_of_not_mem hstar).1 (List.mem_filter.1 hp).2

def exactFirst : Settings where
  paths := [("@app/*", ["src/*"]), ("l*", ["index*"]), ("lib", ["gone", "own/lib"]), ("lib*", ["index*"])]

def exactTree : FileTree where
  top := [("main.ts", .file (.text "")), ("index.ts", .file (.text "")),
    ("tsconfig.json", .file (.text
      "\x7b\"compilerOptions\": \x7b\"paths\": \x7b\"lib*\": [\"index*\"], \"lib\": [\"gone\", \"own/lib\"],
        \"l*\": [\"index*\"], \"@app/*\": [\"src/*\"]\x7d\x7d\x7d")),
    ("own", .directory [("lib.ts", .file (.text ""))])]

theorem ofSettings_exactFirst : ofSettings ⟨"/"⟩ exactFirst =
    ⟨none, [("@app/*", ["src/*"]), ("lib", ["gone", "own/lib"]), ("lib*", ["index*"]), ("l*", ["index*"])],
      ⟨"/"⟩⟩ := by
  have happ : ModulePattern.specificity "@app/*" = 5 := by decide +kernel
  have hstart : ModulePattern.specificity "l*" = 1 := by decide +kernel
  have hexact : ModulePattern.specificity "lib" = 3 := by decide +kernel
  have hstar : ModulePattern.specificity "lib*" = 3 := by decide +kernel
  simp [ofSettings, exactFirst, List.mergeSort, happ, hstart, hexact, hstar]

theorem load_exactTree : Settings.load exactTree ⟨"/tsconfig.json"⟩ = .ok exactFirst := by
  have hload : ∃ s ∈ (Settings.load exactTree ⟨"/tsconfig.json"⟩).toOption, s = exactFirst := by
    decide +kernel
  obtain ⟨s, hs, rfl⟩ := exists_ok_of_toOption hload
  exact hs

theorem exactFirst_find? :
    exactFirst.IsSorted
      ∧ Settings.load exactTree ⟨"/tsconfig.json"⟩ = .ok exactFirst
      ∧ ((ofSettings ⟨"/"⟩ exactFirst).matching "lib").map Prod.fst = ["lib", "lib*", "l*"]
      ∧ ((ofSettings ⟨"/"⟩ exactFirst).matching "lib").Pairwise (fun p q => ModulePattern.Precedes p.1 q.1)
      ∧ (ofSettings ⟨"/"⟩ exactFirst).find? exactTree ⟨"/main.ts"⟩ "lib" = some ⟨"/own/lib.ts"⟩
      ∧ ∃ path, (ofSettings ⟨"/"⟩ exactFirst).Denotes exactTree (directoryOf ⟨"/main.ts"⟩) "lib" (some path)
        ∧ exactTree.canonicalize path = .ok ⟨"/own/lib.ts"⟩ := by
  have hsorted : exactFirst.IsSorted := by decide +kernel
  have hfind : (ofSettings ⟨"/"⟩ exactFirst).find? exactTree ⟨"/main.ts"⟩ "lib" = some ⟨"/own/lib.ts"⟩ := by
    rw [ofSettings_exactFirst]
    decide +kernel
  obtain ⟨-, -, hload, -, hsome, -⟩ := find?_by_precedence exactFirst ⟨"/"⟩ exactTree ⟨"/main.ts"⟩ "lib"
  refine ⟨hsorted, load_exactTree, ?_, hload _ _ load_exactTree, hfind, (hsome _).1 hfind⟩
  rw [ofSettings_exactFirst]
  decide +kernel

def starredName : Settings where
  paths := [("a*", ["x"]), ("a*b", ["y"])]

def starredTree : FileTree where
  top := [("main.ts", .file (.text "")), ("x.ts", .file (.text "")), ("y.ts", .file (.text ""))]

theorem ofSettings_starredName : ofSettings ⟨"/"⟩ starredName = ⟨none, starredName.paths, ⟨"/"⟩⟩ := by
  rw [ofSettings, List.mergeSort_of_pairwise (by decide +kernel)]
  rfl

/-- A pattern with a star has no precedence over others for a name that is equal to it. -/
theorem starred_not_first :
    starredName.IsSorted ∧ isFileName "a*b" = false
      ∧ ((ofSettings ⟨"/"⟩ starredName).matching "a*b").map Prod.fst = ["a*", "a*b"]
      ∧ (ofSettings ⟨"/"⟩ starredName).find? starredTree ⟨"/main.ts"⟩ "a*b" = some ⟨"/x.ts"⟩
      ∧ (ModuleFinder.mk none [("a*b", ["y"])] ⟨"/"⟩).find? starredTree ⟨"/main.ts"⟩ "a*b"
        = some ⟨"/y.ts"⟩ := by
  rw [ofSettings_starredName]
  decide +kernel

end ModuleFinder

end CallDiagram
