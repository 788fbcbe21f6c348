import CallDiagram.Proofs.Codebase.Followed

namespace CallDiagram

theorem Outline.mem_followedSpecifiers_of_import {o : Outline} {b : ImportBinding} {foreign : Bool}
    (h : b ∈ o.imports) :
    b.source ∈ o.followedSpecifiers foreign ↔ foreign = false ∨ b.source ∈ o.forwardedSpecifiers := by
  cases foreign with
  | false =>
    have hb : b.source ∈ o.moduleSpecifiers := mem_moduleSpecifiers.2 (.inl ⟨b, h, rfl⟩)
    simpa [followedSpecifiers] using hb
  | true => simp [followedSpecifiers]

namespace Codebase

variable {c : Codebase} {k d : ClassId} {e e' : ClassEntry} {u v : UnitId} {base m : String}
  {b : ImportBinding}

theorem lookup_of_import_none (hdeclared : c.declaredIn u base = []) (hb : c.import? u base = some b)
    (hv : c.module? u b.source = none) : c.lookup u base = [] := by
  have hlead : c.nameLead u base = .found [] := by
    rw [nameLead_of_import hdeclared hb, importLead, hv]
  exact lookup_of_found hlead

theorem method?_of_base {rest : List ClassId} {name : String} {isStatic : Bool} {i : DeclarationId}
    (hchain : c.classChain k = k :: d :: rest) (he : c.classes[k]? = some e)
    (he' : c.classes[d]? = some e') (hown : e.methods.get? (name, isStatic) = none)
    (hbase : e'.methods.get? (name, isStatic) = some i) : c.method? k name isStatic = some i := by
  rw [method?, hchain]
  simp [he, he', hown, hbase]

theorem lookup_of_import (hdeclared : c.declaredIn u base = []) (hb : c.import? u base = some b)
    (hm : requestedName b.imported = some m) (hv : c.module? u b.source = some v) :
    c.lookup u base = c.exported v m := by
  have hlead : c.nameLead u base = .ask (v, m) := by
    rw [nameLead_of_import hdeclared hb, importLead, hv, hm]
  exact lookup_of_ask hlead

theorem declaredBase?_of_import (he : c.classes[k]? = some e) (hbase : e.base = some base)
    (hlookup : c.lookup e.unit base = [.cls d]) : c.declaredBase? k = some d := by
  simp [declaredBase?, he, hbase, classNamed?, hlookup]

theorem classChain_of_import_none (he : c.classes[k]? = some e) (hbase : e.base = some base)
    (hdeclared : c.declaredIn e.unit base = []) (hb : c.import? e.unit base = some b)
    (hv : c.module? e.unit b.source = none) : c.classChain k = [k] := by
  have hlookup : c.lookup e.unit base = [] := lookup_of_import_none hdeclared hb hv
  have hnone : c.declaredBase? k = none := by
    simp [declaredBase?, he, hbase, classNamed?, hlookup]
  rw [classChain, chainFrom_of_none hnone]

theorem WellFormed.unit_of_declaredIn (hc : c.WellFormed) {n : String}
    (h : .cls d ∈ c.declaredIn v n) : ∃ e, c.classes[d]? = some e ∧ e.unit = v := by
  rw [declaredIn] at h
  split at h
  · next table htable => exact hc.classNames htable (cls_mem_declared.1 h)
  · cases h

section Loaded

variable {t : FileTree} {settings : Path}

theorem imports_of_load (ht : t.root.isWellFormed) (h : load t settings = .ok c) :
    ∃ p, Project.load t settings = .ok p ∧ c.WellFormed
      ∧ ∀ (u : UnitId) path o n b, c.paths[u]? = some path → Outline.ofFile t path = .ok o →
          c.import? u n = some b →
            (path.isForeign = false ∨ b.source ∈ o.forwardedSpecifiers →
              ∀ file, p.find? t path b.source = some file →
                ∃ v, c.module? u b.source = some v ∧ c.paths[v]? = some file)
            ∧ (¬(path.isForeign = false ∨ b.source ∈ o.forwardedSpecifiers) →
              c.module? u b.source = none) := by
  obtain ⟨p, files, hp, hread, -, rfl⟩ := exists_sources_of_load ht h
  refine ⟨p, hp, wellFormed_ofSources _ _ _ hread.nodup, ?_⟩
  intro u path o n b hu ho hb
  rw [paths_ofSources, List.getElem?_map] at hu
  obtain ⟨f, hf, rfl⟩ := Option.map_eq_some_iff.1 hu
  have hmem := List.mem_of_getElem? hf
  rw [hread.outlines f hmem] at ho
  cases ho
  have himport := ((placed_ofSources _ _ _ hread.nodup hf).mem_imports hb).1
  rw [← Outline.mem_followedSpecifiers_of_import himport]
  refine ⟨fun hsource file hfile => ?_, fun hsource => ?_⟩
  · obtain ⟨v, hv⟩ := List.getElem?_of_mem (hread.next f hmem b.source hsource file hfile)
    exact ⟨v, (module?_ofSources hread.nodup hf).2 ⟨hsource, file, hfile, hv⟩, by rwa [paths_ofSources]⟩
  · rw [Option.eq_none_iff_forall_ne_some]
    intro v hv
    exact hsource ((module?_ofSources hread.nodup hf).1 hv).1

/-- A class inherits from a class of another file if its own file belongs to the project, or passes on
names from the module that the base is imported from. A class that a dependency derives from a base it
keeps to itself has no base. -/
theorem load_inherits (ht : t.root.isWellFormed) (h : load t settings = .ok c) :
    ∃ p, Project.load t settings = .ok p
      ∧ ∀ (k : ClassId) e path o base b m file,
          c.classes[k]? = some e → c.paths[e.unit]? = some path → Outline.ofFile t path = .ok o →
          e.base = some base → c.declaredIn e.unit base = [] → c.import? e.unit base = some b →
          requestedName b.imported = some m → p.find? t path b.source = some file → file ≠ path →
            (path.isForeign = false ∨ b.source ∈ o.forwardedSpecifiers →
              ∃ v, c.paths[v]? = some file
                ∧ ∀ (d : ClassId) e' inner, c.classes[d]? = some e' → .cls d ∈ c.declaredIn v inner →
                  c.exported v m = [.cls d] →
                    (c.classChain k)[1]? = some d
                      ∧ ∀ name isStatic i, e'.methods.get? (name, isStatic) = some i →
                        e.methods.get? (name, isStatic) = none → c.method? k name isStatic = some i)
            ∧ (¬(path.isForeign = false ∨ b.source ∈ o.forwardedSpecifiers) → c.classChain k = [k]) := by
  obtain ⟨p, hp, hc, himports⟩ := imports_of_load ht h
  refine ⟨p, hp, ?_⟩
  intro k e path o base b m file he hpath ho hbase hdeclared hb hm hfile hne
  obtain ⟨hfollowed, hkept⟩ := himports e.unit path o base b hpath ho hb
  refine ⟨fun hpasses => ?_, fun hkeeps => ?_⟩
  case refine_2 => exact classChain_of_import_none he hbase hdeclared hb (hkept hkeeps)
  obtain ⟨v, hv, hvpath⟩ := hfollowed hpasses file hfile
  refine ⟨v, hvpath, fun d e' inner he' hd hexported => ?_⟩
  have hlookup : c.lookup e.unit base = [.cls d] := by
    rw [lookup_of_import hdeclared hb hm hv, hexported]
  -- The two classes are in different files.
  have hdk : d ≠ k := by
    rintro rfl
    obtain ⟨e₁, he₁, hunit⟩ := hc.unit_of_declaredIn hd
    obtain rfl := Option.some.inj (he.symm.trans he₁)
    rw [hunit, hvpath] at hpath
    exact hne (Option.some.inj hpath)
  obtain ⟨rest, hchain⟩ := classChain_of_declaredBase (declaredBase?_of_import he hbase hlookup)
    (Array.getElem?_eq_some_iff.1 he').1 hdk
  refine ⟨by rw [hchain]; rfl, fun name isStatic i hi hown => ?_⟩
  exact method?_of_base hchain he he' hown hi

def extending (text : String) : FileTree where
  top := [("tsconfig.json", .file (.text "\x7b\"files\":[\"main.ts\"]\x7d")),
    ("main.ts", .file (.text
      "import \x7b C \x7d from 'lib';\nexport function main(c: C) \x7b c.m(); \x7d")),
    ("node_modules", .directory [("lib", .directory [
      ("index.ts", .file (.text text)),
      ("b.ts", .file (.text "export class B \x7b m() \x7b\x7d \x7d"))])])]

def passedOn : FileTree :=
  extending "import \x7b B \x7d from './b';\nexport \x7b B \x7d;\nexport class C extends B \x7b\x7d"

def keptBack : FileTree :=
  extending "import \x7b B \x7d from './b';\nexport class C extends B \x7b\x7d"

theorem exists_project (t : FileTree)
    (h : ∃ p ∈ (Project.load t ⟨"tsconfig.json"⟩).toOption,
      p.root = [] ∧ p.settings = { files := some ["main.ts"] } ∧ p.paths = [⟨"/main.ts"⟩])
    (hfile : (ModuleFinder.ofSettings ⟨"/"⟩ {}).find? t ⟨"/node_modules/lib/index.ts"⟩ "./b" =
      some ⟨"/node_modules/lib/b.ts"⟩) :
    ∃ p, Project.load t ⟨"tsconfig.json"⟩ = .ok p
      ∧ p.find? t ⟨"/node_modules/lib/index.ts"⟩ "./b" = some ⟨"/node_modules/lib/b.ts"⟩ := by
  obtain ⟨p, hp, -, hfind⟩ := Project.exists_of_load h
  refine ⟨p, hp, ?_⟩
  rw [hfind]
  exact hfile

theorem passedOn_inherits :
    ∃ c, load passedOn ⟨"tsconfig.json"⟩ = .ok c ∧ (c.classChain 0)[1]? = some 1
      ∧ c.method? 0 "m" false = some 1 := by
  have hload : ∃ c ∈ (load passedOn ⟨"tsconfig.json"⟩).toOption,
      c.paths = [⟨"/main.ts"⟩, ⟨"/node_modules/lib/index.ts"⟩, ⟨"/node_modules/lib/b.ts"⟩]
      ∧ c.classes[0]?.map (fun e => (e.unit, e.base, e.methods.get? ("m", false))) =
          some (1, some "B", none)
      ∧ c.classes[1]?.map (fun e => e.methods.get? ("m", false)) = some (some 1)
      ∧ c.declaredIn 1 "B" = [] ∧ c.import? 1 "B" = some ⟨"B", "./b", .named "B"⟩
      ∧ .cls 1 ∈ c.declaredIn 2 "B" ∧ c.exported 2 "B" = [.cls 1] := by
    decide +kernel
  have houtline : ∃ o ∈ (Outline.ofFile passedOn ⟨"/node_modules/lib/index.ts"⟩).toOption,
      "./b" ∈ o.forwardedSpecifiers := by
    decide +kernel
  obtain ⟨c, hc, hpaths, hclass, hmethod, hdeclared, hb, hd, hexported⟩ := exists_ok_of_toOption hload
  obtain ⟨o, ho, hforwarded⟩ := exists_ok_of_toOption houtline
  obtain ⟨p, hp, hfile⟩ := exists_project passedOn (by decide +kernel) (by decide +kernel)
  simp only [Option.map_eq_some_iff, Prod.mk.injEq] at hclass hmethod
  obtain ⟨e, he, hunit, hbase, hown⟩ := hclass
  obtain ⟨e', he', hm⟩ := hmethod
  have hpath : c.paths[e.unit]? = some ⟨"/node_modules/lib/index.ts"⟩ := by rw [hunit, hpaths]; rfl
  rw [← hunit] at hdeclared hb
  obtain ⟨q, hq, hinherits⟩ := load_inherits (by decide) hc
  obtain rfl : p = q := Except.ok.inj (hp.symm.trans hq)
  obtain ⟨v, hv, hsame⟩ := (hinherits 0 e ⟨"/node_modules/lib/index.ts"⟩ o "B" ⟨"B", "./b", .named "B"⟩
    "B" ⟨"/node_modules/lib/b.ts"⟩ he hpath ho hbase hdeclared hb rfl hfile (by decide)).1
      (.inr hforwarded)
  have hsecond : c.paths[2]? = c.paths[v]? := by rw [hv, hpaths]; rfl
  obtain rfl : 2 = v :=
    (List.getElem?_inj (by rw [hpaths]; decide) (by rw [hpaths]; decide)).1 hsecond
  obtain ⟨hchain, hmethods⟩ := hsame 1 e' "B" he' hd hexported
  exact ⟨c, hc, hchain, hmethods "m" false 1 hm hown⟩

/-- A base that a dependency keeps to itself is not found, though its own file declares and exports it. -/
theorem keptBack_inherits_nothing :
    ∃ c p o, load keptBack ⟨"tsconfig.json"⟩ = .ok c ∧ Project.load keptBack ⟨"tsconfig.json"⟩ = .ok p
      ∧ c.paths = [⟨"/main.ts"⟩, ⟨"/node_modules/lib/index.ts"⟩]
      ∧ c.classes[0]?.map (fun e => (e.unit, e.base)) = some (1, some "B")
      ∧ c.declaredIn 1 "B" = [] ∧ c.import? 1 "B" = some ⟨"B", "./b", .named "B"⟩
      ∧ Outline.ofFile keptBack ⟨"/node_modules/lib/index.ts"⟩ = .ok o
      ∧ o.imports = [⟨"B", "./b", .named "B"⟩]
      ∧ p.find? keptBack ⟨"/node_modules/lib/index.ts"⟩ "./b" = some ⟨"/node_modules/lib/b.ts"⟩
      ∧ Outline.ofFile keptBack ⟨"/node_modules/lib/b.ts"⟩ = .ok
          { classes := [{ name := some "B", line := 1, methods := [⟨"m", false, 1, {}⟩] }]
            exports := [.local "B" "B"] }
      ∧ c.classChain 0 = [0] ∧ c.method? 0 "m" false = none := by
  have hload : ∃ c ∈ (load keptBack ⟨"tsconfig.json"⟩).toOption,
      c.paths = [⟨"/main.ts"⟩, ⟨"/node_modules/lib/index.ts"⟩]
      ∧ c.classes[0]?.map (fun e => (e.unit, e.base)) = some (1, some "B")
      ∧ c.declaredIn 1 "B" = [] ∧ c.import? 1 "B" = some ⟨"B", "./b", .named "B"⟩
      ∧ c.declaredBase? 0 = none
      ∧ c.classes[0]?.map (fun e => e.methods.get? ("m", false)) = some none := by
    decide +kernel
  have himports : ∃ o ∈ (Outline.ofFile keptBack ⟨"/node_modules/lib/index.ts"⟩).toOption,
      o.imports = [⟨"B", "./b", .named "B"⟩] := by
    decide +kernel
  have houtline : ∃ o ∈ (Outline.ofFile keptBack ⟨"/node_modules/lib/b.ts"⟩).toOption,
      o = { classes := [{ name := some "B", line := 1, methods := [⟨"m", false, 1, {}⟩] }]
            exports := [.local "B" "B"] } := by
    decide +kernel
  obtain ⟨c, hc, hpaths, hclass, hdeclared, hb, hbase, hown⟩ := exists_ok_of_toOption hload
  obtain ⟨o, ho, himports⟩ := exists_ok_of_toOption himports
  obtain ⟨_, hbases, rfl⟩ := exists_ok_of_toOption houtline
  obtain ⟨p, hp, hfile⟩ := exists_project keptBack (by decide +kernel) (by decide +kernel)
  have hchain : c.classChain 0 = [0] := chainFrom_of_none hbase
  obtain ⟨e, he, hm⟩ := Option.map_eq_some_iff.1 hown
  have hmethod : c.method? 0 "m" false = none := by simp [method?, hchain, he, hm]
  exact ⟨c, p, o, hc, hp, hpaths, hclass, hdeclared, hb, ho, himports, hfile, hbases, hchain, hmethod⟩

end Loaded

end Codebase

end CallDiagram
