import CallDiagram.Proofs.Codebase.Locate
import CallDiagram.Proofs.Renumbering.Agree
import CallDiagram.Proofs.Renumbering.Shared

namespace CallDiagram

/-- Whether the files `s` are the same in two trees, and their module names stand for the same files,
which are in `s` again. -/
structure FileTree.SameWithin (s : Set Path) (t t' : FileTree)
    (find find' : Path → String → Option Path) : Prop where
  outlines : ∀ path ∈ s, Outline.ofFile t path = Outline.ofFile t' path
  targets : ∀ path ∈ s, ∀ o, Outline.ofFile t path = .ok o →
    ∀ source ∈ o.followedSpecifiers path.isForeign, find path source = find' path source
  closed : ∀ path ∈ s, ∀ o, Outline.ofFile t path = .ok o →
    ∀ source ∈ o.followedSpecifiers path.isForeign, ∀ file, find path source = some file → file ∈ s

structure Project.Holds (p : Project) (t : FileTree) (settings file path : Path) : Prop where
  wellFormed : t.root.isWellFormed
  project : Project.load t settings = .ok p
  loaded : ∃ c, Codebase.load t settings = .ok c
  canonical : t.canonicalize file = .ok path
  mem : path ∈ p.paths

namespace Renumbering

open Codebase

inductive Outcomes (r : Renumbering) :
    Except Failure DeclarationId → Except Failure DeclarationId → Prop
  | ok {i j} : r.declaration i j → Outcomes r (.ok i) (.ok j)
  | error {e} : Outcomes r (.error e) (.error e)

namespace Codebases

variable {r : Renumbering} {c d : Codebase} {t t' : FileTree} {table table' : FileTable} {file : Path}

theorem ownMethod? (h : r.Codebases c d) {k l : ClassId} (hkl : r.cls k l) (name : String) :
    Option.Rel r.declaration (c.ownMethod? k name) (d.ownMethod? l name) := by
  obtain ⟨e, e', he, he', hentry⟩ := h.classes hkl
  simp only [Codebase.ownMethod?, he, he', Option.bind_some]
  rcases rel_cases (hentry.methods (name, false)) with ⟨hnone, hnone'⟩ | ⟨i, j, hi, hj, hij⟩
  · rw [hnone, hnone']
    exact hentry.methods (name, true)
  · rw [hi, hj]
    exact .some hij

theorem locate (h : r.Codebases c d) (hc : c.projectTable? t file = some table)
    (hd : d.projectTable? t' file = some table') (htables : r.Tables table table')
    (entry : EntryPoint) : r.Outcomes (c.locate t file entry) (d.locate t' file entry) := by
  simp only [Codebase.locate, hc, hd]
  cases entry with
  | function name =>
    rcases rel_cases (htables.functions name) with ⟨hnone, hnone'⟩ | ⟨i, j, hi, hj, hij⟩
    · simp only [hnone, hnone']
      exact .error
    · simp only [hi, hj]
      exact .ok hij
  | method cls name =>
    rcases rel_cases (htables.classes cls) with ⟨hnone, hnone'⟩ | ⟨k, l, hk, hl, hkl⟩
    · simp only [hnone, hnone']
      exact .error
    · simp only [hk, hl]
      rcases rel_cases (h.ownMethod? hkl name) with ⟨hnone, hnone'⟩ | ⟨i, j, hi, hj, hij⟩
      · simp only [hnone, hnone']
        exact .error
      · simp only [hi, hj]
        exact .ok hij

end Codebases

section Loaded

variable {t t' : FileTree} {find find' : Path → String → Option Path} {start start' : List Path}
  {files files' : List Source} {s : Set Path}

theorem codebases_within (hread : IsRead t find Loading.followed start files)
    (hread' : IsRead t' find' Loading.followed start' files') (hs : t.SameWithin s t' find find') :
    (shared files files' fun f => f.1 ∈ s).Codebases (ofSources find Loading.followed start files)
      (ofSources find' Loading.followed start' files') := by
  refine codebases_shared hread.nodup hread'.nodup ?_
  rintro u v ⟨f, hf, hu, hv⟩ source
  have hmem := List.mem_of_getElem? hu
  have houtline := hread.outlines f hmem
  refine modules_shared hread.nodup hread'.nodup hu hv Iff.rfl
    (hs.targets f.1 hf f.2 houtline source) fun hsource file hfile => ?_
  have hwithin := hs.closed f.1 hf f.2 houtline source hsource file hfile
  obtain ⟨g, hg, rfl⟩ := List.mem_map.1 (hread.next f hmem source hsource file hfile)
  rw [hs.targets f.1 hf f.2 houtline source hsource] at hfile
  obtain ⟨g', hg', hsame⟩ := List.mem_map.1
    (hread'.next f (List.mem_of_getElem? hv) source hsource g.1 hfile)
  -- Both have read the file, and found the same in it.
  obtain rfl := hread.source_eq hread' hg hg' hsame (hs.outlines g.1 hwithin)
  exact ⟨g', hwithin, rfl, hg, hg'⟩

end Loaded

end Renumbering

namespace Codebase

open Renumbering

theorem run_eq_of_outcomes {r : Renumbering} {c d : Codebase} {t t' : FileTree} {request : Request}
    {settings : Path} (h : r.Codebases c d) (hc : load t request.settings = .ok c)
    (hd : load t' settings = .ok d)
    (houtcomes : ∀ entry, r.Outcomes (c.locate t request.file entry) (d.locate t' request.file entry)) :
    request.run t = { request with settings }.run t' := by
  simp only [Request.run, hc, hd]
  cases EntryPoint.parse request.target with
  | error e => rfl
  | ok entry =>
    have houtcome := houtcomes entry
    simp only [bind, Except.bind]
    generalize c.locate t request.file entry = found at houtcome
    generalize d.locate t' request.file entry = found' at houtcome
    cases houtcome with
    | error => rfl
    | ok hij => simp only [h.resolvers.drawing_eq hij]

/-- A declaration of a file calls, reaches and draws the same in two codebases that agree on files which
lead to no others, with that file among them. And a diagram is the same for two projects with that file
if all that the file reaches is the same in both. -/
theorem diagram_of_reachable :
    (∀ (c d : Codebase) (s : Set UnitId), c.WellFormed → AgreeOn s c d → c.ClosedUnderModules s →
      ∀ (root : DeclarationId) (x : Declaration), c.declarations[root]? = some x → x.unit ∈ s →
        (∀ site, c.definitions root site = d.definitions root site)
          ∧ c.resolver.trace root = d.resolver.trace root
          ∧ ∀ options,
            (c.resolver.drawing root options).render = (d.resolver.drawing root options).render)
    ∧ ∀ (t t' : FileTree) (request : Request) (settings path : Path) (p p' : Project) (s : Set Path),
        p.Holds t request.settings request.file path → p'.Holds t' settings request.file path →
        path ∈ s → t.SameWithin s t' (p.find? t) (p'.find? t') →
        request.run t = { request with settings }.run t' := by
  constructor
  · intro c d s hc hagree hs root x hx hunit
    obtain ⟨hdefinitions, htrace, hdrawing⟩ := same_inside hc hagree hs ⟨rfl, x, hx, hunit⟩
    exact ⟨hdefinitions, htrace, fun options => by rw [hdrawing]⟩
  · intro t t' request settings path p p' s hp hp' hs hsame
    obtain ⟨c, hc⟩ := hp.loaded
    obtain ⟨d, hd⟩ := hp'.loaded
    obtain ⟨q, files, hq, hread, -, rfl⟩ := exists_sources_of_load hp.wellFormed hc
    obtain ⟨q', files', hq', hread', -, rfl⟩ := exists_sources_of_load hp'.wellFormed hd
    obtain rfl : p = q := Except.ok.inj (hp.project.symm.trans hq)
    obtain rfl : p' = q' := Except.ok.inj (hp'.project.symm.trans hq')
    have h := codebases_within hread hread' hsame
    -- The file of the request is read by both.
    obtain ⟨f, hf, rfl⟩ := List.mem_map.1 (hread.start hp.mem)
    obtain ⟨f', hf', hff'⟩ := List.mem_map.1 (hread'.start hp'.mem)
    obtain rfl := hread.source_eq hread' hf hf' hff' (hsame.outlines f.1 hs)
    obtain ⟨u, hu⟩ := List.getElem?_of_mem hf
    obtain ⟨v, hv⟩ := List.getElem?_of_mem hf'
    obtain ⟨table, table', htable, htable', htables⟩ := h.tables ⟨f', hs, hu, hv⟩
    have hfile := (projectTable?_ofSources hread.nodup hu hp.canonical hp.mem).trans htable
    have hfile' := (projectTable?_ofSources hread'.nodup hv hp'.canonical hp'.mem).trans htable'
    exact run_eq_of_outcomes h hc hd fun entry => h.locate hfile hfile' htables entry

def recursion : Source :=
  (⟨"/a.ts"⟩, { functions := [
    { name := some "a", line := 1, body := { callSites := [⟨.name "a", 1⟩] } }] })

def bystander : Source :=
  (⟨"/c.ts"⟩, { functions := [{ name := some "c", line := 1, body := {} }] })

def unlinked (files : List Source) : Codebase := ofSources (fun _ _ => none) (fun _ _ => []) [] files

def neighbours : FileTree where
  top := [("one.json", .file (.text "\x7b\"files\":[\"a.ts\"]\x7d")),
    ("two.json", .file (.text "\x7b\"files\":[\"a.ts\",\"c.ts\"]\x7d")),
    ("a.ts", .file (.text "import \x7b b \x7d from './b';\nexport function a() \x7b b(); \x7d")),
    ("b.ts", .file (.text "export function b() \x7b\x7d")),
    ("c.ts", .file (.text "export function c() \x7b\x7d"))]

theorem agreeOn_bystander : AgreeOn {0} (unlinked [recursion]) (unlinked [recursion, bystander]) where
  units := by
    rintro u rfl
    rfl
  tables := by
    rintro u rfl
    refine rel_of_eq ?_ fun t _ => .refl t
    rw [unlinked, unlinked, getElem?_tables_ofSources (f := recursion) rfl,
      getElem?_tables_ofSources (f := recursion) rfl]
    rfl
  declarations := by
    rintro (_ | i) x hx -
    · exact ⟨hx, rel_of_eq rfl fun scope _ => .refl scope⟩
    · cases hx
  classes := by
    intro k e he
    cases he

theorem neighbours_project {settings : Path} {place : Location} {names : List String}
    {places : List Location} (hplace : neighbours.locate settings = .ok place)
    (hsettings : Settings.load neighbours place.toPath = .ok { files := some names })
    (hplaces : Project.collect neighbours [] { files := some names } = .ok places)
    (hsorted : places.Pairwise fun l m => lexLe l m) (hroot : place.dropLast = [])
    (hload : (ofProject neighbours ⟨[], { files := some names }, dropRepeats places⟩).toOption.isSome)
    (hmem : ["a.ts"] ∈ places) :
    ∃ p, Project.Holds p neighbours settings ⟨"a.ts"⟩ ⟨"/a.ts"⟩
      ∧ p.find? neighbours = (ModuleFinder.ofSettings ⟨"/"⟩ {}).find? neighbours := by
  have hproject := Project.load_of_sorted hplace hsettings (hroot.symm ▸ hplaces) hsorted
  rw [hroot] at hproject
  obtain ⟨c, hc⟩ := Option.isSome_iff_exists.1 hload
  obtain ⟨c, hc, -⟩ := exists_ok_of_toOption ⟨c, hc, rfl⟩
  refine ⟨_, ⟨by decide, hproject, ⟨c, ?_⟩, by decide, ?_⟩, rfl⟩
  · rw [load, hproject]
    exact hc
  · exact List.mem_map.2 ⟨["a.ts"], mem_dropRepeats.2 hmem, by decide⟩

theorem closedUnderModules_recursion : (unlinked [recursion]).ClosedUnderModules {0} := by
  rintro u rfl source v hv
  cases ((module?_ofSources (by decide) rfl).1 hv).1

theorem neighbours_diagram :
    (unlinked [recursion]).resolver.trace 0 = (unlinked [recursion, bystander]).resolver.trace 0
      ∧ Request.run { file := ⟨"a.ts"⟩, target := "a", settings := ⟨"one.json"⟩ } neighbours
        = Request.run { file := ⟨"a.ts"⟩, target := "a", settings := ⟨"two.json"⟩ } neighbours
      ∧ (Request.run { file := ⟨"a.ts"⟩, target := "a", settings := ⟨"one.json"⟩ }
          neighbours).toOption.isSome := by
  obtain ⟨p, hp, hfind⟩ := @neighbours_project ⟨"one.json"⟩ ["one.json"] ["a.ts"] [["a.ts"]]
    (by decide +kernel) (by decide +kernel) (by decide +kernel) (by decide) rfl (by decide +kernel)
    (by decide)
  obtain ⟨p', hp', hfind'⟩ := @neighbours_project ⟨"two.json"⟩ ["two.json"] ["a.ts", "c.ts"]
    [["a.ts"], ["c.ts"]] (by decide +kernel) (by decide +kernel) (by decide +kernel) (by decide) rfl
    (by decide +kernel) (by decide)
  refine ⟨?_, ?_, by decide +kernel⟩
  · obtain ⟨-, htrace, -⟩ := diagram_of_reachable.1 (unlinked [recursion])
      (unlinked [recursion, bystander]) {0} (wellFormed_ofSources _ _ _ (by decide)) agreeOn_bystander
      closedUnderModules_recursion 0 _ rfl rfl
    exact htrace
  · refine diagram_of_reachable.2 neighbours neighbours _ _ _ p p' Set.univ hp hp' trivial ?_
    exact ⟨fun _ _ => rfl, fun _ _ _ _ _ _ => by rw [hfind, hfind'], fun _ _ _ _ _ _ _ _ => trivial⟩

end Codebase

end CallDiagram
