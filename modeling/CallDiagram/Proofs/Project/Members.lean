import CallDiagram.Proofs.Path.Location
import CallDiagram.Proofs.Project.Files

namespace CallDiagram

def Dialect.sourceExtensions : List String := ["ts", "mts", "cts", "tsx"]

theorem Dialect.isProjectSource_ofExtension? {ext : String} :
    (∃ dialect, ofExtension? ext = some dialect ∧ dialect.isProjectSource) ↔
      String.ofList (ext.toList.map Char.toLower) ∈ sourceExtensions := by
  unfold ofExtension?
  split <;> simp_all [sourceExtensions, isProjectSource]

namespace Project

variable {t : FileTree} {root l way : Location} {settings : Settings} {path : Path}

def UsesPatterns (settings : Settings) : Prop := settings.included.isSome ∨ settings.files = none

structure Selects (t : FileTree) (root : Location) (settings : Settings) (way : Location) : Prop where
  patterns : UsesPatterns settings
  below : way ≠ []
  file : ∃ contents, t.root.at? (root ++ way) = some (.file contents)
  entered : ∀ name ∈ root.getLast?.toList ++ way.dropLast, name ≠ "node_modules" ∧ name ≠ ".git"
  source : ∃ ext, (root ++ way).toPath.extension? = some ext
    ∧ String.ofList (ext.toList.map Char.toLower) ∈ Dialect.sourceExtensions
  included : ∃ globs, Glob.compile (settings.included.getD ["**/*"]) = .ok globs
    ∧ Glob.anyMatch globs (Text.unpieces '/' way)
  excluded : ∃ globs, Glob.compile (settings.excluded.getD ["node_modules"]) = .ok globs
    ∧ Glob.anyMatch globs (Text.unpieces '/' way) = false

theorem isSkipped_eq_false {name : String} :
    isSkipped name = false ↔ name ≠ "node_modules" ∧ name ≠ ".git" := by
  simp [isSkipped, versionControl, Path.dependencyDirectory]

theorem isSource_iff : isSource l ↔ ∃ ext, l.toPath.extension? = some ext
    ∧ String.ofList (ext.toList.map Char.toLower) ∈ Dialect.sourceExtensions := by
  simp only [← Dialect.isProjectSource_ofExtension?, isSource, Dialect.ofPath?]
  cases l.toPath.extension? with
  | none => simp
  | some ext =>
    simp only [Option.bind_some, Option.some.injEq, exists_eq_left']
    cases Dialect.ofExtension? ext <;> simp

theorem isSource_append (hnames : ∀ name ∈ root ++ way, Entry.isName name) (hway : way ≠ []) :
    isSource (root ++ way) ↔ isSource way := by
  rw [List.forall_mem_append] at hnames
  rw [isSource_iff, isSource_iff, Location.extension?_toPath_append hnames.1 hnames.2 hway]

theorem ne_nil_of_isSource (h : isSource way) : way ≠ [] := by
  rintro rfl
  exact absurd h (by decide)

theorem mem_selected {included excluded : List Glob} (ht : t.root.isWellFormed) :
    l ∈ selected t root included excluded ↔ ∃ way, l = root ++ way
      ∧ (∃ contents, t.root.at? (root ++ way) = some (.file contents))
      ∧ (∀ name ∈ root.getLast?.toList ++ way.dropLast, isSkipped name = false)
      ∧ isSource way
      ∧ Glob.anyMatch included (Text.unpieces '/' way)
      ∧ Glob.anyMatch excluded (Text.unpieces '/' way) = false := by
  have hlast : (root.getLast?.map isSkipped).getD false = false ↔
      ∀ name ∈ root.getLast?.toList, isSkipped name = false := by
    cases root.getLast? <;> simp
  simp only [List.forall_mem_append, ← hlast, Entry.at?_append]
  rw [selected]
  split
  · next hskip => simp [hskip]
  · next hskip =>
    rw [Bool.not_eq_true] at hskip
    cases hat : t.root.at? root with
    | none => simp
    | some directory =>
      have hwf := (Entry.isWellFormed_at? ht hat).2
      simp only [List.mem_map, List.mem_filter, Entry.mem_files_iff hwf, Bool.and_eq_true,
        Bool.not_eq_true', Option.bind_some, hskip, true_and]
      constructor
      · rintro ⟨way, ⟨⟨hfile, hentered⟩, ⟨hsource, hin⟩, hex⟩, rfl⟩
        exact ⟨way, rfl, hfile, hentered, hsource, hin, hex⟩
      · rintro ⟨way, rfl, hfile, hentered, hsource, hin, hex⟩
        exact ⟨way, ⟨⟨hfile, hentered⟩, ⟨hsource, hin⟩, hex⟩, rfl⟩

theorem exists_listed_iff {names : List String} :
    (∃ places, listed t root names = .ok places) ↔
      ∀ name ∈ names, ∃ l, t.locate (root.toPath.join name) = .ok l := by
  rw [listed, exists_mapM_iff]
  simp only [mapError_eq_ok]

theorem mem_listed {names : List String} {places : List Location}
    (h : listed t root names = .ok places) :
    l ∈ places ↔ ∃ name ∈ names, t.locate (root.toPath.join name) = .ok l := by
  rw [mem_of_mapM_eq_ok h]
  simp only [mapError_eq_ok]

theorem onlyFiles_eq_false :
    (settings.files.isSome && settings.included.isNone) = false ↔ UsesPatterns settings := by
  rw [UsesPatterns]
  cases settings.files <;> cases settings.included <;> simp

theorem collect_eq_listed (h : ¬ UsesPatterns settings) :
    collect t root settings = listed t root (settings.files.getD []) := by
  rw [← onlyFiles_eq_false, Bool.not_eq_false] at h
  rw [collect, h]
  exact bind_pure _

theorem collect_eq_ok {places : List Location} (h : UsesPatterns settings) :
    collect t root settings = .ok places ↔
      ∃ files, listed t root (settings.files.getD []) = .ok files
        ∧ ∃ included, Glob.compile (settings.included.getD ["**/*"]) = .ok included
        ∧ ∃ excluded, Glob.compile (settings.excluded.getD ["node_modules"]) = .ok excluded
        ∧ places = files ++ selected t root included excluded := by
  rw [← onlyFiles_eq_false] at h
  rw [collect, h, bind_eq_ok]
  simp only [Bool.false_eq_true, if_false, bind_eq_ok]
  refine exists_congr fun files => and_congr_right fun _ => exists_congr fun included =>
    and_congr_right fun _ => exists_congr fun excluded => and_congr_right fun _ => ?_
  exact ⟨fun h => (Except.ok.inj h).symm, fun h => congrArg Except.ok h.symm⟩

theorem exists_collect_iff :
    (∃ places, collect t root settings = .ok places) ↔
      (∀ name ∈ settings.files.getD [], ∃ l, t.locate (root.toPath.join name) = .ok l)
        ∧ (UsesPatterns settings →
          (∃ globs, Glob.compile (settings.included.getD ["**/*"]) = .ok globs)
            ∧ ∃ globs, Glob.compile (settings.excluded.getD ["node_modules"]) = .ok globs) := by
  rw [← exists_listed_iff]
  by_cases h : UsesPatterns settings
  · simp only [collect_eq_ok h, h, forall_const]
    constructor
    · rintro ⟨_, files, hfiles, included, hin, excluded, hex, rfl⟩
      exact ⟨⟨files, hfiles⟩, ⟨included, hin⟩, excluded, hex⟩
    · rintro ⟨⟨files, hfiles⟩, ⟨included, hin⟩, excluded, hex⟩
      exact ⟨_, files, hfiles, included, hin, excluded, hex, rfl⟩
  · rw [collect_eq_listed h]
    exact (and_iff_left fun hpatterns => absurd hpatterns h).symm

theorem selects_iff {included excluded : List Glob} (ht : t.root.isWellFormed)
    (h : UsesPatterns settings)
    (hin : Glob.compile (settings.included.getD ["**/*"]) = .ok included)
    (hex : Glob.compile (settings.excluded.getD ["node_modules"]) = .ok excluded) :
    l ∈ selected t root included excluded ↔
      ∃ way, l = root ++ way ∧ Selects t root settings way := by
  rw [mem_selected ht]
  refine exists_congr fun way => and_congr_right fun _ => ?_
  constructor
  · rintro ⟨⟨contents, hfile⟩, hentered, hsource, hmatch, hfree⟩
    have hnames := (Entry.isWellFormed_at? ht hfile).1
    have hne := ne_nil_of_isSource hsource
    exact {
      patterns := h
      below := hne
      file := ⟨contents, hfile⟩
      entered := fun name hname => isSkipped_eq_false.1 (hentered name hname)
      source := isSource_iff.1 ((isSource_append hnames hne).2 hsource)
      included := ⟨included, hin, hmatch⟩
      excluded := ⟨excluded, hex, hfree⟩ }
  · intro hselects
    obtain ⟨contents, hfile⟩ := hselects.file
    have hnames := (Entry.isWellFormed_at? ht hfile).1
    obtain ⟨globs, hglobs, hmatch⟩ := hselects.included
    obtain rfl : globs = included := Except.ok.inj (hglobs.symm.trans hin)
    obtain ⟨globs', hglobs', hfree⟩ := hselects.excluded
    obtain rfl : globs' = excluded := Except.ok.inj (hglobs'.symm.trans hex)
    exact ⟨⟨contents, hfile⟩, fun name hname => isSkipped_eq_false.2 (hselects.entered name hname),
      (isSource_append hnames hselects.below).1 (isSource_iff.2 hselects.source), hmatch, hfree⟩

theorem mem_collect {places : List Location} (ht : t.root.isWellFormed)
    (h : collect t root settings = .ok places) :
    l ∈ places ↔ (∃ name ∈ settings.files.getD [], t.locate (root.toPath.join name) = .ok l)
      ∨ ∃ way, l = root ++ way ∧ Selects t root settings way := by
  by_cases hpatterns : UsesPatterns settings
  · obtain ⟨files, hfiles, included, hin, excluded, hex, rfl⟩ := (collect_eq_ok hpatterns).1 h
    rw [List.mem_append, mem_listed hfiles, selects_iff ht hpatterns hin hex]
  · rw [collect_eq_listed hpatterns] at h
    rw [mem_listed h]
    exact (or_iff_left fun ⟨_, _, hselects⟩ => hpatterns hselects.patterns).symm

theorem pairwise_sortPlaces (places : List Location) : (sortPlaces places).Pairwise (· < ·) := by
  have hle : (sortPlaces places).Pairwise fun l m => lexLe l m :=
    (List.pairwise_mergeSort lexLe_trans lexLe_total places).sublist (dropRepeats_sublist _)
  exact hle.imp₂ (fun _ _ => lt_of_lexLe) (nodup_sortPlaces places)

theorem load_eq_ok {place : Location} (hplace : t.locate path = .ok place)
    (hsettings : Settings.load t place.toPath = .ok settings) {p : Project} :
    load t path = .ok p ↔ ∃ places, collect t place.dropLast settings = .ok places
      ∧ p = ⟨place.dropLast, settings, sortPlaces places⟩ := by
  simp only [load, bind_eq_ok, mapError_eq_ok, hplace, hsettings, Except.ok.injEq, exists_eq_left']
  refine exists_congr fun places => and_congr_right fun _ => ?_
  exact ⟨fun h => (Except.ok.inj h).symm, fun h => congrArg Except.ok h.symm⟩

/-- A project can be loaded exactly when all listed files can be found and the patterns, where they are
looked at, can be read. Its files are then those listed and those that the patterns select, in strictly
ascending order, each by the one path that leads through no link. -/
theorem files_sorted_mem_iff {place : Location} (ht : t.root.isWellFormed)
    (hplace : t.locate path = .ok place) (hsettings : Settings.load t place.toPath = .ok settings) :
    ((∃ p, load t path = .ok p) ↔
        (∀ name ∈ settings.files.getD [],
            ∃ l, t.locate ((Location.toPath place.dropLast).join name) = .ok l)
          ∧ (UsesPatterns settings →
            (∃ globs, Glob.compile (settings.included.getD ["**/*"]) = .ok globs)
              ∧ ∃ globs, Glob.compile (settings.excluded.getD ["node_modules"]) = .ok globs))
      ∧ ∀ p, load t path = .ok p →
        p.root = place.dropLast ∧ p.settings = settings
          ∧ p.files.Pairwise (· < ·) ∧ (p.files.map Location.toPath).Nodup
          ∧ (∀ l ∈ p.files, t.IsPlace l ∧ ((∀ name ∈ l, name.utf8ByteSize ≤ FileTree.nameLimit) →
              t.canonicalize l.toPath = .ok l.toPath))
          ∧ ∀ l, l ∈ p.files ↔
            (∃ name ∈ settings.files.getD [], t.locate (p.root.toPath.join name) = .ok l)
              ∨ ∃ way, l = p.root ++ way ∧ Selects t p.root settings way := by
  constructor
  · rw [← exists_collect_iff]
    simp only [load_eq_ok hplace hsettings]
    exact ⟨fun ⟨_, places, h, _⟩ => ⟨places, h⟩, fun ⟨places, h⟩ => ⟨_, places, h, rfl⟩⟩
  · intro p hp
    have hplaces : ∀ l ∈ p.files, t.IsPlace l := fun l hl => isPlace_of_mem_files ht hp hl
    have hnodup := nodup_files ht hp
    obtain ⟨places, hcollect, rfl⟩ := (load_eq_ok hplace hsettings).1 hp
    refine ⟨rfl, rfl, pairwise_sortPlaces places, hnodup, fun l hl => ⟨hplaces l hl, ?_⟩, fun l => ?_⟩
    · intro hshort
      rw [FileTree.canonicalize, FileTree.locate_toPath_of_short ht (hplaces l hl) hshort]
      rfl
    · rw [mem_sortPlaces, mem_collect ht hcollect]

def gathered : FileTree where
  top := [("app", .directory [
      ("all.json", .file (.text ("\x7b\"files\":[\"up/z.ts\"],\"include\":[\"src\",\"node_modules\"],"
        ++ "\"exclude\":[\"src/old\"]\x7d"))),
      ("up", .link "../lib"),
      ("node_modules", .directory [("d.ts", .file (.text ""))]),
      ("src", .directory [("up", .link "../../lib"), ("b.tsx", .file (.text "")),
        ("old", .directory [("c.ts", .file (.text ""))]), ("a.js", .file (.text ""))])]),
    ("lib", .directory [("z.ts", .file (.text "")), ("y.ts", .file (.text ""))])]

def gatheredSettings : Settings where
  files := some ["up/z.ts"]
  included := some ["src", "node_modules"]
  excluded := some ["src/old"]

theorem selects_gathered : Selects gathered ["app"] gatheredSettings ["src", "b.tsx"] where
  patterns := .inl rfl
  below := by decide
  file := ⟨.text "", rfl⟩
  entered := by decide
  source := ⟨"tsx", by decide +kernel, by decide +kernel⟩
  included := exists_ok_of_toOption (by decide +kernel)
  excluded := exists_ok_of_toOption (by decide +kernel)

theorem gathered_files :
    gathered.root.isWellFormed ∧ gathered.locate ⟨"/app/all.json"⟩ = .ok ["app", "all.json"]
      ∧ Settings.load gathered (Location.toPath ["app", "all.json"]) = .ok gatheredSettings
      ∧ ∃ p, load gathered ⟨"/app/all.json"⟩ = .ok p ∧ p.files.Pairwise (· < ·)
        ∧ ["app", "src", "b.tsx"] ∈ p.files ∧ ["lib", "z.ts"] ∈ p.files
        ∧ ["app", "node_modules", "d.ts"] ∉ p.files ∧ ["lib", "y.ts"] ∉ p.files := by
  have ht : gathered.root.isWellFormed := by decide
  have hplace : gathered.locate ⟨"/app/all.json"⟩ = .ok ["app", "all.json"] := by decide +kernel
  have hsettings :
      Settings.load gathered (Location.toPath ["app", "all.json"]) = .ok gatheredSettings := by
    decide +kernel
  have hlisted : gathered.locate ((Location.toPath ["app"]).join "up/z.ts") = .ok ["lib", "z.ts"] := by
    decide +kernel
  obtain ⟨hiff, hall⟩ := files_sorted_mem_iff ht hplace hsettings
  obtain ⟨included, hin, -⟩ := selects_gathered.included
  obtain ⟨excluded, hex, -⟩ := selects_gathered.excluded
  obtain ⟨p, hp⟩ := hiff.2
    ⟨List.forall_mem_singleton.2 ⟨_, hlisted⟩, fun _ => ⟨⟨included, hin⟩, excluded, hex⟩⟩
  obtain ⟨hroot, -, hsorted, -, -, hmem⟩ := hall p hp
  rw [hroot] at hmem
  have honly : ∀ name ∈ gatheredSettings.files.getD [], ∀ l,
      gathered.locate ((Location.toPath ["app"]).join name) = .ok l → l = ["lib", "z.ts"] := by
    refine List.forall_mem_singleton.2 fun l hl => ?_
    exact Except.ok.inj (hl.symm.trans hlisted)
  refine ⟨ht, hplace, hsettings, p, hp, hsorted, ?_, ?_, fun hd => ?_, fun hy => ?_⟩
  · exact (hmem _).2 (.inr ⟨["src", "b.tsx"], rfl, selects_gathered⟩)
  · exact (hmem _).2 (.inl ⟨"up/z.ts", List.mem_singleton_self _, hlisted⟩)
  · rcases (hmem _).1 hd with ⟨name, hname, hl⟩ | ⟨way, hway, hselects⟩
    · exact absurd (honly name hname _ hl) (by decide)
    · obtain rfl : ["node_modules", "d.ts"] = way := (List.cons.inj hway).2
      exact absurd rfl (hselects.entered "node_modules" (by decide)).1
  · rcases (hmem _).1 hy with ⟨name, hname, hl⟩ | ⟨way, hway, -⟩
    · exact absurd (honly name hname _ hl) (by decide)
    · exact absurd (List.cons.inj hway).1 (by decide)

end Project

end CallDiagram
