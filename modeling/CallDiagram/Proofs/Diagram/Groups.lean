import CallDiagram.Codebase.Member
import CallDiagram.Proofs.Codebase.Sources
import CallDiagram.Proofs.Diagram.Keys
import CallDiagram.Proofs.Path.Relative

namespace CallDiagram

/-- Each file has a path of its own, which is absolute and goes straight to its place. -/
structure Resolver.HasPlaces (r : Resolver) : Prop where
  place : ∀ {u : UnitId} {x}, r.units[u]? = some x →
    ∃ l : Location, (∀ name ∈ l, Entry.isName name) ∧ x.path = l.toPath
  distinct : ∀ {u v : UnitId} {x y}, r.units[u]? = some x → r.units[v]? = some y → x.path = y.path → u = v

theorem Codebase.hasPlaces_of_load {t : FileTree} {settings : Path} {c : Codebase}
    (ht : t.root.isWellFormed) (h : load t settings = .ok c) : c.resolver.HasPlaces := by
  obtain ⟨p, files, hp, hread, hleast, hc⟩ := exists_sources_of_load ht h
  have hpaths : c.paths = files.map Prod.fst := by rw [hc, paths_ofSources]
  have hpath : ∀ {u : UnitId} {x : SourceUnit}, c.units[u]? = some x → c.paths[u]? = some x.path := by
    intro u x hx
    rw [paths, List.getElem?_map, Array.getElem?_toList, hx]
    rfl
  constructor
  case place =>
    intro u x hx
    have hmem := List.mem_of_getElem? (hpath hx)
    rw [hpaths] at hmem
    obtain ⟨f, hf, hfx⟩ := List.mem_map.1 hmem
    obtain ⟨l, hl, heq⟩ := hleast _ (isClosed_places ht hp) f hf
    exact ⟨l, hl.isName ht, (heq.trans hfx).symm⟩
  case distinct =>
    intro u v x y hx hy hsame
    have hu := hpath hx
    refine (List.getElem?_inj (List.getElem?_eq_some_iff.1 hu).1 (hpaths ▸ hread.nodup)).1 ?_
    rw [hu, hpath hy, hsame]

namespace Naming

variable {n : Naming} {u v : UnitId} {x y : SourceUnit}

/-- The local file in the directory of the root's file that is named like the mark of the root's group. -/
def IsNamesake (n : Naming) (u : UnitId) : Prop :=
  ∃ x y above name, n.resolver.units[n.current]? = some x ∧ n.resolver.units[u]? = some y
    ∧ y.foreign = false ∧ x.path.names = above ++ [name] ∧ y.path.names = above ++ [Group.currentFile]

section Group

theorem group?_current (homit : n.options.omitFileNames = false) : n.group? n.current = some .current := by
  rw [group?, if_pos rfl, homit]
  rfl

theorem group?_local (homit : n.options.omitFileNames = false) (hu : u ≠ n.current)
    (hx : n.resolver.units[u]? = some x) (hlocal : x.foreign = false) :
    n.group? u = some (.file (Path.relative n.directory x.path)) := by
  simp [group?, hu, hx, hlocal, homit]

theorem group?_cases {group : Group} (homit : n.options.omitFileNames = false) (h : n.group? u = some group) :
    u = n.current ∧ group = .current
      ∨ u ≠ n.current ∧ ∃ x, n.resolver.units[u]? = some x
        ∧ (x.foreign = false ∧ group = .file (Path.relative n.directory x.path)
          ∨ x.foreign = true ∧ group = .package x.path.package) := by
  by_cases hu : u = n.current
  · subst hu
    rw [group?_current homit] at h
    cases h
    exact .inl ⟨rfl, rfl⟩
  · refine .inr ⟨hu, ?_⟩
    cases hx : n.resolver.units[u]? with
    | none => simp [group?, hu, hx] at h
    | some x =>
      refine ⟨x, rfl, ?_⟩
      cases hforeign : x.foreign with
      | false =>
        rw [group?_local homit hu hx hforeign] at h
        cases h
        exact .inl ⟨rfl, rfl⟩
      | true =>
        simp only [group?, if_neg hu, hx, hforeign, if_true] at h
        split at h
        · cases h
        · cases h
          exact .inr ⟨rfl, rfl⟩

theorem text_file_inj {p q : String} (h : (Group.file p).text = (Group.file q).text) : p = q := by
  cases Group.text_eq_iff.1 h
  rfl

theorem not_package_prefix {group : Group} (package : String) (h : ∀ p, group ≠ .package p) :
    ¬ (Group.package package).text.toList <+: group.text.toList := by
  rintro ⟨rest, hrest⟩
  rw [Group.toList_text_package] at hrest
  have hhead := congrArg List.head? hrest
  cases group with
  | unnamed => cases hhead
  | current => cases hhead
  | file path => simp [Group.text, Group.dependencies, Path.dependencyDirectory, Text.Quoted.encode] at hhead
  | package name => exact h name rfl

end Group

section Places

theorem directory_cases (hr : n.resolver.HasPlaces) :
    (n.directory = ⟨""⟩ ∧ ∀ x, n.resolver.units[n.current]? = some x → x.path.names = [])
      ∨ ∃ x above name, n.resolver.units[n.current]? = some x ∧ n.directory = Location.toPath above
        ∧ (∀ other ∈ above ++ [name], Entry.isName other) ∧ x.path.names = above ++ [name] := by
  cases hx : n.resolver.units[n.current]? with
  | none =>
    refine .inl ⟨?_, fun _ h => absurd h (by simp)⟩
    rw [directory, hx]
  | some x =>
    obtain ⟨l, hl, hpath⟩ := hr.place hx
    have hnames : x.path.names = l := by rw [hpath, Location.names_toPath hl]
    have hdirectory : n.directory = l.toPath.parent.getD ⟨""⟩ := by
      rw [directory, hx]
      exact congrArg (fun p : Path => p.parent.getD ⟨""⟩) hpath
    rcases List.eq_nil_or_concat' l with rfl | ⟨above, name, rfl⟩
    · refine .inl ⟨hdirectory, fun x' hx' => ?_⟩
      cases hx'
      exact hnames
    · refine .inr ⟨x, above, name, rfl, ?_, hl, hnames⟩
      rw [hdirectory, Location.parent_toPath hl]
      rfl

theorem components_directory (hr : n.resolver.HasPlaces) :
    n.directory.components = [] ∨ n.directory.components.head? = some .root := by
  rcases directory_cases hr with ⟨hnone, -⟩ | ⟨x, above, name, -, hdirectory, hnames, -⟩
  · exact .inl (by rw [hnone]; rfl)
  · refine .inr ?_
    rw [hdirectory, Location.components_toPath fun other hother => hnames other (List.mem_append_left _ hother)]
    rfl

theorem eq_of_relative_eq (hr : n.resolver.HasPlaces) (hx : n.resolver.units[u]? = some x)
    (hy : n.resolver.units[v]? = some y)
    (h : Path.relative n.directory x.path = Path.relative n.directory y.path) : u = v := by
  obtain ⟨l, hl, hpath⟩ := hr.place hx
  obtain ⟨m, hm, hpath'⟩ := hr.place hy
  rw [hpath, hpath'] at h
  refine hr.distinct hx hy ?_
  rw [hpath, hpath', Path.relative_inj (components_directory hr) hl hm h]

theorem relative_eq_currentFile_iff (hr : n.resolver.HasPlaces) (hy : n.resolver.units[u]? = some y)
    (hlocal : y.foreign = false) :
    Path.relative n.directory y.path = Group.currentFile ↔ n.IsNamesake u := by
  obtain ⟨l, hl, hpath⟩ := hr.place hy
  have hnames : y.path.names = l := by rw [hpath, Location.names_toPath hl]
  rcases directory_cases hr with ⟨hnone, hroot⟩ | ⟨x, above, name, hx, hdirectory, habove, hxnames⟩
  · refine iff_of_false (fun heq => ?_) ?_
    · have hhead := Path.head?_relative_nowhere hl
      rw [← hnone, ← hpath, heq] at hhead
      cases hhead
    · rintro ⟨x, -, above, name, hx, -, -, hxnames, -⟩
      rw [hroot x hx] at hxnames
      simp at hxnames
  · have hmark : ∀ other ∈ above ++ [Group.currentFile], Entry.isName other := by
      intro other hother
      rcases List.mem_append.1 hother with hother | hother
      · exact habove other (List.mem_append_left _ hother)
      · obtain rfl := List.mem_singleton.1 hother
        decide
    have hchild := Path.relative_child hmark
    constructor
    · intro heq
      rw [hpath, hdirectory, ← hchild] at heq
      have hroot := components_directory hr
      rw [hdirectory] at hroot
      refine ⟨x, y, above, name, hx, hy, hlocal, hxnames, ?_⟩
      rw [hnames]
      exact Path.relative_inj hroot hl hmark heq
    · rintro ⟨x', y', above', name', hx', hy', -, hxnames', hynames'⟩
      cases hx.symm.trans hx'
      cases hy.symm.trans hy'
      obtain ⟨rfl, -⟩ := List.append_inj' (hxnames.symm.trans hxnames') rfl
      rw [hpath, hdirectory, ← hnames, hynames', hchild]

theorem text_eq_current_iff {group : Group} (hr : n.resolver.HasPlaces) (homit : n.options.omitFileNames = false)
    (hu : u ≠ n.current) (h : n.group? u = some group) :
    group.text = Group.current.text ↔ n.IsNamesake u := by
  rcases group?_cases homit h with ⟨heq, -⟩ | ⟨-, x, hx, ⟨hlocal, rfl⟩ | ⟨hforeign, rfl⟩⟩
  · exact absurd heq hu
  · rw [← relative_eq_currentFile_iff hr hx hlocal]
    exact ⟨text_file_inj, congrArg Text.quote⟩
  · refine iff_of_false (fun heq => ?_) ?_
    · exact absurd (Group.text_eq_iff.1 heq) (by simp [Group.segments])
    · rintro ⟨-, y, -, -, -, hy, hlocal, -⟩
      cases hx.symm.trans hy
      rw [hlocal] at hforeign
      cases hforeign

theorem group?_text_eq_iff (hr : n.resolver.HasPlaces) (homit : n.options.omitFileNames = false) (huv : u ≠ v)
    (hx : n.resolver.units[u]? = some x) (hy : n.resolver.units[v]? = some y) (hxlocal : x.foreign = false)
    (hylocal : y.foreign = false) :
    (n.group? u).map Group.text = (n.group? v).map Group.text ↔
      u = n.current ∧ n.IsNamesake v ∨ v = n.current ∧ n.IsNamesake u := by
  by_cases hu : u = n.current
  · subst hu
    have hv : v ≠ n.current := Ne.symm huv
    have hgroup := group?_local homit hv hy hylocal
    rw [group?_current homit, hgroup, Option.map_some, Option.map_some, Option.some.injEq, eq_comm,
      text_eq_current_iff hr homit hv hgroup]
    simp [hv]
  · have hgroup := group?_local homit hu hx hxlocal
    by_cases hv : v = n.current
    · subst hv
      rw [group?_current homit, hgroup, Option.map_some, Option.map_some, Option.some.injEq,
        text_eq_current_iff hr homit hu hgroup]
      simp [hu]
    · refine iff_of_false (fun heq => huv ?_) (by simp [hu, hv])
      rw [hgroup, group?_local homit hv hy hylocal, Option.map_some, Option.map_some, Option.some.injEq] at heq
      exact eq_of_relative_eq hr hx hy (text_file_inj heq)

end Places

theorem identifier?_eq_iff {d e : DeclarationId} {a b : Declaration} (hr : n.resolver.HasPlaces)
    (homit : n.options.omitFileNames = false) (hd : n.resolver.declarations[d]? = some a)
    (he : n.resolver.declarations[e]? = some b) (hne : a.unit ≠ b.unit)
    (hx : n.resolver.units[a.unit]? = some x) (hy : n.resolver.units[b.unit]? = some y)
    (hxlocal : x.foreign = false) (hylocal : y.foreign = false) :
    n.identifier? d = n.identifier? e ↔ n.segments d = n.segments e
      ∧ (a.unit = n.current ∧ n.IsNamesake b.unit ∨ b.unit = n.current ∧ n.IsNamesake a.unit) := by
  have hnamed : ∀ {d : DeclarationId} {a : Declaration} {x : SourceUnit},
      n.resolver.declarations[d]? = some a → n.resolver.units[a.unit]? = some x → x.foreign = false →
        n.groupOf? d = n.group? a.unit ∧ (n.identifier? d).isSome := by
    intro d a x hd hx hlocal
    have hgroup : n.groupOf? d = n.group? a.unit := by rw [groupOf?, hd, Option.bind_some]
    refine ⟨hgroup, ?_⟩
    rw [isSome_identifier?, hgroup]
    by_cases hu : a.unit = n.current
    · rw [hu, group?_current homit]
      rfl
    · rw [group?_local homit hu hx hlocal]
      rfl
  obtain ⟨hgroup, hi⟩ := hnamed hd hx hxlocal
  obtain ⟨hgroup', hj⟩ := hnamed he hy hylocal
  obtain ⟨i, hi⟩ := Option.isSome_iff_exists.1 hi
  obtain ⟨j, hj⟩ := Option.isSome_iff_exists.1 hj
  rw [hi, hj, Option.some.injEq, identifier_eq_iff hi hj, hgroup, hgroup',
    group?_text_eq_iff hr homit hne hx hy hxlocal hylocal, and_comm]

/-- With groups for files, the groups of local files differ from each other and from those of packages,
but for the root's own file and its namesake, so no other two local files have a node in common. -/
theorem local_files_apart (n : Naming) (hr : n.resolver.HasPlaces) (homit : n.options.omitFileNames = false) :
    (∀ (u v : UnitId) x y, u ≠ v → n.resolver.units[u]? = some x → n.resolver.units[v]? = some y →
      x.foreign = false → y.foreign = false →
        ((n.group? u).map Group.text = (n.group? v).map Group.text ↔
          u = n.current ∧ n.IsNamesake v ∨ v = n.current ∧ n.IsNamesake u))
    ∧ (n.group? n.current = some .current ∧ ∀ (u : UnitId) group, u ≠ n.current → n.group? u = some group →
        (group.text = Group.current.text ↔ n.IsNamesake u))
    ∧ (∀ (u : UnitId) group package, n.group? u = some group →
        (u = n.current ∨ ∃ x, n.resolver.units[u]? = some x ∧ x.foreign = false) →
          ¬ (Group.package package).text.toList <+: group.text.toList)
    ∧ ∀ (d e : DeclarationId) a b x y, n.resolver.declarations[d]? = some a →
        n.resolver.declarations[e]? = some b → a.unit ≠ b.unit → n.resolver.units[a.unit]? = some x →
        n.resolver.units[b.unit]? = some y → x.foreign = false → y.foreign = false →
          (n.identifier? d = n.identifier? e ↔ n.segments d = n.segments e
            ∧ (a.unit = n.current ∧ n.IsNamesake b.unit ∨ b.unit = n.current ∧ n.IsNamesake a.unit)) := by
  refine ⟨fun u v x y huv hx hy => group?_text_eq_iff hr homit huv hx hy,
    ⟨group?_current homit, fun u group => text_eq_current_iff hr homit⟩, ?_,
    fun d e a b x y hd he hne hx hy => identifier?_eq_iff hr homit hd he hne hx hy⟩
  intro u group package hgroup hlocal
  refine not_package_prefix package fun p hp => ?_
  subst hp
  rcases group?_cases homit hgroup with ⟨-, heq⟩ | ⟨hu, x, hx, ⟨-, heq⟩ | ⟨hforeign, -⟩⟩
  · cases heq
  · cases heq
  · rcases hlocal with hcurrent | ⟨y, hy, hylocal⟩
    · exact hu hcurrent
    · cases hx.symm.trans hy
      rw [hylocal] at hforeign
      cases hforeign

def beside : Naming := ofRoot
  { declarations := #[
      { id := 0, name := some "f", container := none, kind := .function, unit := 0, line := 1, callSites := [] },
      { id := 1, name := some "f", container := none, kind := .function, unit := 1, line := 1, callSites := [] },
      { id := 2, name := some "f", container := none, kind := .function, unit := 2, line := 1, callSites := [] }]
    units := #[⟨0, ⟨"/src/main.ts"⟩, false⟩, ⟨1, ⟨"/src/Current File"⟩, false⟩, ⟨2, ⟨"/Current File"⟩, false⟩]
    definitions := fun _ _ => [] } 0 {}

theorem hasPlaces_beside : beside.resolver.HasPlaces where
  place := by
    rintro (_ | _ | _ | u) x hx
    · cases hx
      exact ⟨["src", "main.ts"], by decide, by decide⟩
    · cases hx
      exact ⟨["src", "Current File"], by decide, by decide⟩
    · cases hx
      exact ⟨["Current File"], by decide, by decide⟩
    · cases hx
  distinct := by
    rintro (_ | _ | _ | u) (_ | _ | _ | v) x y hx hy h <;> cases hx <;> cases hy <;>
      first | rfl | exact absurd h (by decide)

theorem beside_nodes :
    beside.identifier? 0 = beside.identifier? 1 ∧ beside.identifier? 0 ≠ beside.identifier? 2
      ∧ beside.identifier? 1 ≠ beside.identifier? 2 := by
  obtain ⟨-, -, -, hsame⟩ := local_files_apart beside hasPlaces_beside rfl
  have hnamesake : beside.IsNamesake 1 :=
    ⟨_, _, ["src"], "main.ts", rfl, rfl, rfl, by decide, by decide⟩
  have hother : ¬ beside.IsNamesake 2 := by
    rintro ⟨x, y, above, name, hx, hy, -, habove, hmark⟩
    cases hx
    cases hy
    have hlength := congrArg List.length habove
    have hlength' := congrArg List.length hmark
    rw [List.length_append] at hlength hlength'
    exact absurd (hlength.trans hlength'.symm) (by decide)
  refine ⟨?_, fun heq => ?_, fun heq => ?_⟩
  · exact (hsame 0 1 _ _ _ _ rfl rfl (by decide) rfl rfl rfl rfl).2
      ⟨by decide +kernel, .inl ⟨rfl, hnamesake⟩⟩
  · obtain ⟨-, ⟨-, h⟩ | ⟨h, -⟩⟩ := (hsame 0 2 _ _ _ _ rfl rfl (by decide) rfl rfl rfl rfl).1 heq
    · exact hother h
    · exact absurd h (by decide)
  · obtain ⟨-, ⟨h, -⟩ | ⟨h, -⟩⟩ := (hsame 1 2 _ _ _ _ rfl rfl (by decide) rfl rfl rfl rfl).1 heq
    · exact absurd h (by decide)
    · exact absurd h (by decide)

def twins : FileTree where
  top := [("tsconfig.json", .file (.text "\x7b\"files\":[\"main.ts\"]\x7d")),
    ("main.ts", .file (.text
      "import \x7b f as g \x7d from './link';\nexport function f() \x7b g(); \x7d")),
    ("link.ts", .link "Current File"), ("Current File", .file (.text "export function f() \x7b\x7d"))]

/-- Where a link leads to a file named like the mark beside the file of the root, the two files have one
group, and their functions one node. -/
theorem twins_share_node :
    ∃ c n, Codebase.load twins ⟨"tsconfig.json"⟩ = .ok c ∧ n = ofRoot c.resolver 0 {} ∧ c.resolver.HasPlaces
      ∧ c.units = #[⟨0, ⟨"/main.ts"⟩, false⟩, ⟨1, ⟨"/Current File"⟩, false⟩]
      ∧ (c.declarations.toList.map fun d => (d.unit, d.name)) = [(0, some "f"), (1, some "f")]
      ∧ (n.group? 0).map Group.text = some "\"Current File\""
      ∧ (n.group? 1).map Group.text = some "\"Current File\""
      ∧ n.identifier? 0 = some "\"Current File\".\"f()\""
      ∧ n.identifier? 1 = some "\"Current File\".\"f()\"" := by
  have hload : ∃ c ∈ (Codebase.load twins ⟨"tsconfig.json"⟩).toOption,
      c.units = #[⟨0, ⟨"/main.ts"⟩, false⟩, ⟨1, ⟨"/Current File"⟩, false⟩]
      ∧ (c.declarations.toList.map fun d => (d.unit, d.name)) = [(0, some "f"), (1, some "f")]
      ∧ ((ofRoot c.resolver 0 {}).group? 0).map Group.text = some "\"Current File\""
      ∧ ((ofRoot c.resolver 0 {}).group? 1).map Group.text = some "\"Current File\""
      ∧ (ofRoot c.resolver 0 {}).identifier? 0 = some "\"Current File\".\"f()\""
      ∧ (ofRoot c.resolver 0 {}).identifier? 1 = some "\"Current File\".\"f()\"" := by
    decide +kernel
  obtain ⟨c, hc, hsame⟩ := exists_ok_of_toOption hload
  exact ⟨c, _, hc, rfl, Codebase.hasPlaces_of_load (by decide) hc, hsame⟩

end Naming

end CallDiagram
