import CallDiagram.Proofs.Lookup.Derivable
import CallDiagram.Proofs.Renumbering.Shared

namespace CallDiagram

@[simp] theorem mem_sortStrings {s : String} {ss : List String} : s ∈ sortStrings ss ↔ s ∈ ss := by
  rw [sortStrings, mem_dropRepeats, List.mem_mergeSort]

namespace Outline

variable {o : Outline} {source : String}

theorem mem_moduleSpecifiers : source ∈ o.moduleSpecifiers ↔
    (∃ b ∈ o.imports, b.source = source) ∨ ∃ e ∈ o.exports, e.source? = some source := by
  simp [moduleSpecifiers]

theorem mem_forwardedSpecifiers : source ∈ o.forwardedSpecifiers ↔
    (∃ e ∈ o.exports, e.source? = some source)
      ∨ ∃ b ∈ o.imports, (∃ e ∈ o.exports, e.localName? = some b.name) ∧ b.source = source := by
  simp [forwardedSpecifiers, and_assoc]

theorem forwarded_subset_module : o.forwardedSpecifiers ⊆ o.moduleSpecifiers := by
  intro source hsource
  rw [mem_moduleSpecifiers]
  rcases mem_forwardedSpecifiers.1 hsource with hexport | ⟨b, hb, -, heq⟩
  · exact .inr hexport
  · exact .inl ⟨b, hb, heq⟩

theorem forwarded_subset_followed (foreign : Bool) :
    o.forwardedSpecifiers ⊆ o.followedSpecifiers foreign := by
  cases foreign with
  | false => exact forwarded_subset_module
  | true => exact List.Subset.refl _

theorem followed_subset_module (foreign : Bool) : o.followedSpecifiers foreign ⊆ o.moduleSpecifiers := by
  cases foreign with
  | false => exact List.Subset.refl _
  | true => exact forwarded_subset_module

end Outline

namespace Codebase

inductive ConsultsHere (c : Codebase) : Query → String → Prop
  | import {u n b} : c.declaredIn u n = [] → c.import? u n = some b →
      ConsultsHere c (.name u n) b.source
  | local {u n inner source} : .local n inner ∈ c.exportsOf u → ConsultsHere c (.name u inner) source →
      ConsultsHere c (.exported u n) source
  | named {u n inner source} : .named n inner source ∈ c.exportsOf u →
      ConsultsHere c (.exported u n) source
  | namespace {u n source} : .namespace n source ∈ c.exportsOf u → ConsultsHere c (.exported u n) source
  | all {u n source} : .all source ∈ c.exportsOf u → n ≠ Outline.defaultName →
      ConsultsHere c (.exported u n) source

/-- The module names that are consulted, and in which file, in the course of a search: where it starts,
and in all that it asks on its way. -/
inductive Consults (c : Codebase) : Query → UnitId → String → Prop
  | here {u n source} : ConsultsHere c (.name u n) source → Consults c (.name u n) u source
  | lookup {u n found later v m source} :
      c.named (c.exportedWithin c.searchLimit) u n [] = some (found, later) → (v, m) ∈ later →
      ConsultsHere c (.exported v m) source → Consults c (.name u n) v source
  | exported {u n found later v m source} :
      c.exportedWithin c.searchLimit u n [] = some (found, later) → (v, m) ∈ later →
      ConsultsHere c (.exported v m) source → Consults c (.exported u n) v source

section Consults

variable {c b : Codebase} {u v : UnitId} {n source : String} {f : Source}

theorem passesOn_of_consultsHere (h : c.ConsultsHere (.exported u n) source) : c.PassesOn u source := by
  cases h with
  | «local» he h =>
    cases h with
    | «import» _ hb => exact .inr ⟨n, _, _, he, hb, rfl⟩
  | named he => exact .inl ⟨_, he, rfl⟩
  | «namespace» he => exact .inl ⟨_, he, rfl⟩
  | all he _ => exact .inl ⟨_, he, rfl⟩

theorem passesOn_of_consults {q : Query} (h : c.Consults q v source) :
    c.PassesOn v source ∨ ∃ n, q = .name v n := by
  cases h with
  | here _ => exact .inr ⟨_, rfl⟩
  | lookup _ _ h => exact .inl (passesOn_of_consultsHere h)
  | exported _ _ h => exact .inl (passesOn_of_consultsHere h)

theorem Placed.exportsOf_eq (h : c.Placed b u f) : c.exportsOf u = f.2.exports := by
  obtain ⟨modules, ht⟩ := h.table
  rw [exportsOf, ht]
  rfl

theorem Placed.mem_imports {i : ImportBinding} (h : c.Placed b u f) (hi : c.import? u n = some i) :
    i ∈ f.2.imports ∧ i.name = n := by
  obtain ⟨modules, ht⟩ := h.table
  rw [import?, ht] at hi
  obtain ⟨j, hj, heq⟩ := List.mem_map.1 (Table.mem_entries_of_get? hi)
  cases heq
  exact ⟨hj, rfl⟩

theorem Placed.mem_forwardedSpecifiers (h : c.Placed b u f) (hsource : c.PassesOn u source) :
    source ∈ f.2.forwardedSpecifiers := by
  rw [Outline.mem_forwardedSpecifiers]
  rcases hsource with ⟨e, he, hsource⟩ | ⟨x, n, i, he, hi, rfl⟩
  · rw [h.exportsOf_eq] at he
    exact .inl ⟨e, he, hsource⟩
  · rw [h.exportsOf_eq] at he
    obtain ⟨hmem, rfl⟩ := h.mem_imports hi
    exact .inr ⟨i, hmem, ⟨_, he, rfl⟩, rfl⟩

end Consults

/-- Whether a renumbering pairs the files of two codebases by their paths, and what is declared in them
with its equal. -/
structure PairedBy (r : Renumbering) (c d : Codebase) : Prop where
  oneToOne : r.IsOneToOne
  unit : ∀ u v, r.unit u v ↔ ∃ path, c.paths[u]? = some path ∧ d.paths[v]? = some path
  declarations : ∀ {i j}, r.declaration i j →
    ∃ x y, c.declarations[i]? = some x ∧ d.declarations[j]? = some y ∧ r.Declarations x y
  classes : ∀ {k l}, r.cls k l →
    ∃ e e', c.classes[k]? = some e ∧ d.classes[l]? = some e' ∧ r.Classes e e'

def allSpecifiers (_ : Path) (o : Outline) : List String := o.moduleSpecifiers

section Loaded

open Renumbering
open List (Forall₂)

variable {t : FileTree} {find : Path → String → Option Path} {start : List Path}
  {files files' : List Source}

theorem subset_of_followed (hread : IsRead t find Loading.followed start files)
    (hleast : ∀ s, Loading.IsClosed t find start s → ∀ f ∈ files, f.1 ∈ s)
    (hread' : IsRead t find allSpecifiers start files') : files ⊆ files' := by
  have hclosed : Loading.IsClosed t find start {path | path ∈ files'.map Prod.fst} := by
    constructor
    · exact fun path hpath => hread'.start hpath
    · intro path hpath o ho source hsource file hfile
      obtain ⟨f, hf, rfl⟩ := List.mem_map.1 hpath
      rw [hread'.outlines f hf] at ho
      cases ho
      exact hread'.next f hf source (Outline.followed_subset_module _ hsource) file hfile
  intro f hf
  obtain ⟨f', hf', heq⟩ := List.mem_map.1 (hleast _ hclosed f hf)
  obtain rfl := hread.source_eq hread' hf hf' heq rfl
  exact hf'

theorem modules_followed (hread : IsRead t find Loading.followed start files)
    (hread' : IsRead t find allSpecifiers start files') (hsub : files ⊆ files') {u v : UnitId}
    {f : Source} (hu : files[u]? = some f) (hv : files'[v]? = some f) {source : String}
    (hsource : source ∈ f.2.followedSpecifiers f.1.isForeign) :
    (shared files files' fun _ => True).Modules (ofSources find Loading.followed start files)
      (ofSources find allSpecifiers start files') u v source := by
  refine modules_shared hread.nodup hread'.nodup hu hv ?_ (fun _ => rfl) fun _ file hfile => ?_
  · exact ⟨fun h => Outline.followed_subset_module _ h, fun _ => hsource⟩
  · obtain ⟨g, hg, rfl⟩ :=
      List.mem_map.1 (hread.next f (List.mem_of_getElem? hu) source hsource file hfile)
    exact ⟨g, trivial, rfl, hg, hsub hg⟩

theorem files_followed (hread : IsRead t find Loading.followed start files)
    (hread' : IsRead t find allSpecifiers start files') (hsub : files ⊆ files') :
    (shared files files' fun _ => True).Files (ofSources find Loading.followed start files)
      (ofSources find allSpecifiers start files') := by
  refine files_shared hread.nodup hread'.nodup ?_
  rintro u v ⟨f, -, hu, hv⟩ source hsource
  have hplaced := placed_ofSources find Loading.followed start hread.nodup hu
  exact modules_followed hread hread' hsub hu hv
    (Outline.forwarded_subset_followed _ (hplaced.mem_forwardedSpecifiers hsource))

theorem pairedBy_shared {follow follow' : Path → Outline → List String}
    (hread : IsRead t find follow start files) (hread' : IsRead t find follow' start files') :
    PairedBy (shared files files' fun _ => True) (ofSources find follow start files)
      (ofSources find follow' start files') where
  oneToOne := isOneToOne_shared hread.nodup hread'.nodup
  unit u v := by
    simp only [paths_ofSources, List.getElem?_map, Option.map_eq_some_iff]
    constructor
    · rintro ⟨f, -, hu, hv⟩
      exact ⟨f.1, ⟨f, hu, rfl⟩, f, hv, rfl⟩
    · rintro ⟨path, ⟨f, hu, rfl⟩, g, hv, heq⟩
      obtain rfl :=
        hread.source_eq hread' (List.mem_of_getElem? hu) (List.mem_of_getElem? hv) heq rfl
      exact ⟨g, trivial, hu, hv⟩
  declarations := declarations_shared hread.nodup hread'.nodup
  classes := classes_shared hread.nodup hread'.nodup

/-- A lookup from a file of the project consults a dependency only for module names that names are
passed on from, and so do the exports of a file that it finds. Both find the same when all module names
of the dependencies are followed too. -/
theorem load_followed {settings : Path} {c : Codebase} (ht : t.root.isWellFormed)
    (h : load t settings = .ok c) :
    ∃ p, Project.load t settings = .ok p
      ∧ (∀ u x n, c.units[u]? = some x → x.foreign = false →
          ∀ q, q = .name u n ∨ (∃ w m, .module w ∈ c.lookup u n ∧ q = .exported w m) →
          ∀ v y source, c.Consults q v source → c.units[v]? = some y → y.foreign = true →
            ∃ o, Outline.ofFile t y.path = .ok o ∧ source ∈ o.forwardedSpecifiers)
      ∧ ∀ files, IsRead t (p.find? t) allSpecifiers p.paths files →
          let d := ofSources (p.find? t) allSpecifiers p.paths files
          ∃ r, PairedBy r c d ∧ c.paths ⊆ d.paths
            ∧ ∀ u v x n, r.unit u v → c.units[u]? = some x → x.foreign = false →
              Forall₂ r.Symbols (c.lookup u n) (d.lookup v n)
                ∧ ∀ w w' m, .module w ∈ c.lookup u n → r.unit w w' →
                  Forall₂ r.Symbols (c.exported w m) (d.exported w' m) := by
  obtain ⟨p, read, hp, hread, hleast, rfl⟩ := exists_sources_of_load ht h
  refine ⟨p, hp, ?_, ?_⟩
  · intro u x n hx hlocal q hq v y source hconsults hy hforeign
    obtain ⟨f, hv, rfl⟩ := exists_source_of_unit hread.nodup hy
    have hpassedOn : (ofSources (p.find? t) Loading.followed p.paths read).PassesOn v source := by
      rcases passesOn_of_consults hconsults with hpassedOn | ⟨m, rfl⟩
      · exact hpassedOn
      · -- The search starts in the dependency, and not in a file of the project.
        rcases hq with hq | ⟨w, m, -, hq⟩
        · cases hq
          rw [hx] at hy
          cases hy
          rw [hlocal] at hforeign
          cases hforeign
        · cases hq
    exact ⟨f.2, hread.outlines f (List.mem_of_getElem? hv),
      (placed_ofSources _ _ _ hread.nodup hv).mem_forwardedSpecifiers hpassedOn⟩
  · intro files hread' d
    have hsub := subset_of_followed hread hleast hread'
    have hfiles := files_followed hread hread' hsub
    refine ⟨_, pairedBy_shared hread hread', ?_, ?_⟩
    · rw [paths_ofSources, paths_ofSources]
      exact List.map_subset _ hsub
    · intro u v x n huv hx hlocal
      refine ⟨hfiles.lookup huv fun b hb => ?_, fun w w' m _ hw => hfiles.exported hw m⟩
      obtain ⟨f, -, hu, hv⟩ := huv
      have hplaced := placed_ofSources (p.find? t) Loading.followed p.paths hread.nodup hu
      rw [hplaced.unit] at hx
      cases hx
      have hlocal : f.1.isForeign = false := hlocal
      refine modules_followed hread hread' hsub hu hv ?_
      rw [hlocal]
      exact Outline.mem_moduleSpecifiers.2 (.inl ⟨b, (hplaced.mem_imports hb).1, rfl⟩)

def dependent : FileTree where
  top := [("tsconfig.json", .file (.text "\x7b\"files\":[\"main.ts\"]\x7d")),
    ("main.ts", .file (.text "import \x7b f \x7d from 'lib';")),
    ("node_modules", .directory [("lib", .directory [
      ("index.ts", .file (.text
        "import \x7b g \x7d from './g';\nexport function f() \x7b g(); \x7d")),
      ("g.ts", .file (.text "export function g() \x7b\x7d"))])])]

def dependentPaths : List Path :=
  [⟨"/main.ts"⟩, ⟨"/node_modules/lib/index.ts"⟩, ⟨"/node_modules/lib/g.ts"⟩]

def sourcesOf (t : FileTree) (paths : List Path) : List Source :=
  paths.filterMap fun path => (Outline.ofFile t path).toOption.map fun o => (path, o)

theorem isRead_sourcesOf {follow : Path → Outline → List String} {paths : List Path}
    (hnodup : ((sourcesOf t paths).map Prod.fst).Nodup)
    (hstart : start ⊆ (sourcesOf t paths).map Prod.fst)
    (hnext : (sourcesOf t paths).all fun f => (follow f.1 f.2).all fun source =>
      (find f.1 source).all ((sourcesOf t paths).map Prod.fst).contains) :
    IsRead t find follow start (sourcesOf t paths) where
  nodup := hnodup
  outlines f hf := by
    obtain ⟨path, -, heq⟩ := List.mem_filterMap.1 hf
    obtain ⟨o, ho, rfl⟩ := Option.map_eq_some_iff.1 heq
    cases hfile : Outline.ofFile t path with
    | error e => rw [hfile] at ho; cases ho
    | ok o' => rw [hfile] at ho; cases ho; rfl
  start := hstart
  next f hf source hsource file hfile := by
    have hall := List.all_eq_true.1 (List.all_eq_true.1 hnext f hf) source hsource
    rw [hfile] at hall
    exact List.contains_iff_mem.1 hall

theorem dependent_followed :
    ∃ (c : Codebase) (p : Project) (r : Renumbering) (v : UnitId),
      load dependent ⟨"tsconfig.json"⟩ = .ok c ∧ Project.load dependent ⟨"tsconfig.json"⟩ = .ok p
      ∧ r.unit 0 v ∧ c.lookup 0 "f" ≠ []
      ∧ Forall₂ r.Symbols (c.lookup 0 "f") ((ofSources (p.find? dependent) allSpecifiers p.paths
          (sourcesOf dependent dependentPaths)).lookup v "f") := by
  have hload : ∃ c ∈ (load dependent ⟨"tsconfig.json"⟩).toOption,
      c.paths[0]? = some ⟨"/main.ts"⟩ ∧ (c.units[0]?).map (·.foreign) = some false
        ∧ c.lookup 0 "f" ≠ [] := by
    decide +kernel
  obtain ⟨c, hc, hpath, hforeign, hfound⟩ := exists_ok_of_toOption hload
  obtain ⟨x, hx, hlocal⟩ := Option.map_eq_some_iff.1 hforeign
  have hproject : ∃ p ∈ (Project.load dependent ⟨"tsconfig.json"⟩).toOption,
      p.root = [] ∧ p.settings = { files := some ["main.ts"] } ∧ p.paths = [⟨"/main.ts"⟩] := by
    decide +kernel
  obtain ⟨p, hp, hpaths, hfind⟩ := Project.exists_of_load hproject
  have hread : IsRead dependent (p.find? dependent) allSpecifiers p.paths
      (sourcesOf dependent dependentPaths) := by
    rw [hpaths, hfind]
    exact isRead_sourcesOf (by decide +kernel) (by decide +kernel) (by decide +kernel)
  obtain ⟨q, hq, -, hsame⟩ := load_followed (by decide) hc
  obtain rfl : p = q := Except.ok.inj (hp.symm.trans hq)
  obtain ⟨r, hpaired, hsub, hsame⟩ := hsame _ hread
  obtain ⟨v, hv⟩ := List.getElem?_of_mem (hsub (List.mem_of_getElem? hpath))
  have hunit : r.unit 0 v := (hpaired.unit 0 v).2 ⟨_, hpath, hv⟩
  exact ⟨c, p, r, v, hc, hp, hunit, hfound, (hsame 0 v x "f" hunit hx hlocal).1⟩

end Loaded

end Codebase

end CallDiagram
