import CallDiagram.Proofs.Codebase.Sources
import CallDiagram.Proofs.Renumbering.File

namespace CallDiagram

namespace Codebase

def Numbers (files : List Source) (first : UnitId → Nat) (count : Outline → Nat) (n : Nat)
    (x : Source × Nat) : Prop :=
  ∃ u, files[u]? = some x.1 ∧ x.2 < count x.1.2 ∧ n = first u + x.2

abbrev NumbersDeclaration (files : List Source) : DeclarationId → Source × Nat → Prop :=
  Numbers files (fun u => (gatheredBefore files u).declarations.size) declarationCount

abbrev NumbersClass (files : List Source) : ClassId → Source × Nat → Prop :=
  Numbers files (fun u => (gatheredBefore files u).classes.size) fun o => o.classes.length

variable {files : List Source} {u : UnitId} {f : Source} {k : Nat}

theorem eq_of_getElem?_eq {v : UnitId} (hfiles : (files.map Prod.fst).Nodup)
    (hu : files[u]? = some f) (hv : files[v]? = some f) : u = v := by
  have hlt : u < (files.map Prod.fst).length := by
    rw [List.length_map]
    exact (List.getElem?_eq_some_iff.1 hu).1
  refine (List.getElem?_inj hlt hfiles).1 ?_
  rw [List.getElem?_map, List.getElem?_map, hu, hv]

theorem biUnique_units (hfiles : (files.map Prod.fst).Nodup) :
    Relator.BiUnique fun (u : UnitId) f => files[u]? = some f :=
  ⟨fun _ _ _ hu hv => eq_of_getElem?_eq hfiles hu hv,
    fun _ _ _ hf hg => Option.some.inj (hf.symm.trans hg)⟩

theorem biUnique_numbers {first : UnitId → Nat} {count : Outline → Nat} (owner : Nat → Option UnitId)
    (hfiles : (files.map Prod.fst).Nodup)
    (howner : ∀ u f k, files[u]? = some f → k < count f.2 → owner (first u + k) = some u) :
    Relator.BiUnique (Numbers files first count) := by
  constructor
  · rintro m n ⟨f, k⟩ ⟨u, hu, -, rfl⟩ ⟨v, hv, -, rfl⟩
    rw [eq_of_getElem?_eq hfiles hu hv]
  · rintro n ⟨f, k⟩ ⟨g, l⟩ ⟨u, hu, hk, rfl⟩ ⟨v, hv, hl, heq⟩
    dsimp only at *
    have hv' : owner (first u + k) = some v := heq ▸ howner v g l hv hl
    obtain rfl := Option.some.inj ((howner u f k hu hk).symm.trans hv')
    obtain rfl := Option.some.inj (hu.symm.trans hv)
    rw [Nat.add_left_cancel heq]

theorem biUnique_declarations (hfiles : (files.map Prod.fst).Nodup) :
    Relator.BiUnique (NumbersDeclaration files) := by
  refine biUnique_numbers (fun i => (gather files).declarations[i]?.map (·.unit)) hfiles
    fun u f k hu hk => ?_
  obtain ⟨x, hx, hunit⟩ := WellFormed.exists_new_declaration f.1 f.1.isForeign ⟨k, hk, rfl⟩
  rw [(extends_gather hu).declarations hx, Option.map_some, hunit, (sizes_gatheredBefore hfiles hu).2.1]

theorem biUnique_classes (hfiles : (files.map Prod.fst).Nodup) :
    Relator.BiUnique (NumbersClass files) := by
  refine biUnique_numbers (fun k => (gather files).classes[k]?.map (·.unit)) hfiles
    fun u f k hu hk => ?_
  obtain ⟨e, he, hunit⟩ := WellFormed.exists_new_class f.1 f.1.isForeign ⟨k, hk, rfl⟩
  rw [(extends_gather hu).classes he, Option.map_some, hunit, (sizes_gatheredBefore hfiles hu).2.1]

end Codebase

namespace Renumbering

open Codebase

def shared (files files' : List Source) (s : Source → Prop) : Renumbering where
  unit u v := ∃ f, s f ∧ files[u]? = some f ∧ files'[v]? = some f
  declaration i j := ∃ x, s x.1 ∧ NumbersDeclaration files i x ∧ NumbersDeclaration files' j x
  cls k l := ∃ x, s x.1 ∧ NumbersClass files k x ∧ NumbersClass files' l x

theorem biUnique_through {α β γ : Type} {P : α → γ → Prop} {Q : β → γ → Prop} {s : γ → Prop}
    (hP : Relator.BiUnique P) (hQ : Relator.BiUnique Q) :
    Relator.BiUnique fun a b => ∃ x, s x ∧ P a x ∧ Q b x := by
  constructor
  · rintro a a' b ⟨x, -, ha, hb⟩ ⟨y, -, ha', hb'⟩
    obtain rfl := hQ.2 hb hb'
    exact hP.1 ha ha'
  · rintro a b b' ⟨x, -, ha, hb⟩ ⟨y, -, ha', hb'⟩
    obtain rfl := hP.2 ha ha'
    exact hQ.1 hb hb'

variable {files files' : List Source} {s : Source → Prop} {u v : UnitId} {f : Source}

theorem isOneToOne_shared (h : (files.map Prod.fst).Nodup) (h' : (files'.map Prod.fst).Nodup) :
    (shared files files' s).IsOneToOne where
  unit := biUnique_through (biUnique_units h) (biUnique_units h')
  declaration := biUnique_through (s := fun x : Source × Nat => s x.1) (biUnique_declarations h)
    (biUnique_declarations h')
  cls := biUnique_through (s := fun x : Source × Nat => s x.1) (biUnique_classes h) (biUnique_classes h')

theorem covers_shared (h : (files.map Prod.fst).Nodup) (h' : (files'.map Prod.fst).Nodup) (hf : s f)
    (hu : files[u]? = some f) (hv : files'[v]? = some f) :
    (shared files files' s).Covers (gatheredBefore files u) (gatheredBefore files' v) f.2 where
  unit := by
    rw [(sizes_gatheredBefore h hu).2.1, (sizes_gatheredBefore h' hv).2.1]
    exact ⟨f, hf, hu, hv⟩
  declaration k hk := ⟨(f, k), hf, ⟨u, hu, hk, rfl⟩, ⟨v, hv, hk, rfl⟩⟩
  cls k hk := ⟨(f, k), hf, ⟨u, hu, hk, rfl⟩, ⟨v, hv, hk, rfl⟩⟩

section Sources

variable {find find' : Path → String → Option Path} {follow follow' : Path → Outline → List String}
  {start start' : List Path}

theorem exists_drafts (h : (files.map Prod.fst).Nodup) (h' : (files'.map Prod.fst).Nodup) (hf : s f)
    (hu : files[u]? = some f) (hv : files'[v]? = some f) {k : Nat} (hk : k < declarationCount f.2) :
    ∃ x y, (shared files files' s).Drafts x y
      ∧ (drafts u (gatheredBefore files u).classes.size f.2)[k]? = some x
      ∧ (drafts v (gatheredBefore files' v).classes.size f.2)[k]? = some y := by
  have hdrafts := (covers_shared h h' hf hu hv).drafts
  rw [(sizes_gatheredBefore h hu).2.1, (sizes_gatheredBefore h' hv).2.1] at hdrafts
  exact exists_rel_of_lt hdrafts (by rwa [length_drafts])

theorem exists_classEntries (h : (files.map Prod.fst).Nodup) (h' : (files'.map Prod.fst).Nodup)
    (hf : s f) (hu : files[u]? = some f) (hv : files'[v]? = some f) {k : Nat}
    (hk : k < f.2.classes.length) :
    ∃ x y, (shared files files' s).Classes x y
      ∧ (Codebase.classEntries u ((gatheredBefore files u).declarations.size + f.2.functions.length)
          f.2.classes)[k]? = some x
      ∧ (Codebase.classEntries v ((gatheredBefore files' v).declarations.size + f.2.functions.length)
          f.2.classes)[k]? = some y := by
  have hentries := (covers_shared h h' hf hu hv).classEntries
  rw [(sizes_gatheredBefore h hu).2.1, (sizes_gatheredBefore h' hv).2.1] at hentries
  exact exists_rel_of_lt hentries (by rwa [length_classEntries])

theorem files_shared (h : (files.map Prod.fst).Nodup) (h' : (files'.map Prod.fst).Nodup)
    (hpassedOn : ∀ {u v}, (shared files files' s).unit u v →
      ∀ source, (ofSources find follow start files).PassesOn u source →
        (shared files files' s).Modules (ofSources find follow start files)
          (ofSources find' follow' start' files') u v source) :
    (shared files files' s).Files (ofSources find follow start files)
      (ofSources find' follow' start' files') where
  oneToOne := isOneToOne_shared h h'
  tables := by
    rintro u v ⟨f, hf, hu, hv⟩
    obtain ⟨modules, ht⟩ := (placed_ofSources find follow start h hu).table
    obtain ⟨modules', ht'⟩ :=
      (placed_ofSources find' follow' start' h' hv).table
    have htables := (covers_shared h h' hf hu hv).fileTable f.1
    exact ⟨_, _, ht, ht', { htables with }⟩
  passedOn := hpassedOn

theorem declarations_shared (h : (files.map Prod.fst).Nodup) (h' : (files'.map Prod.fst).Nodup)
    {i j : DeclarationId} (hij : (shared files files' s).declaration i j) :
    ∃ x y, (ofSources find follow start files).declarations[i]? = some x
      ∧ (ofSources find' follow' start' files').declarations[j]? = some y
      ∧ (shared files files' s).Declarations x y := by
  obtain ⟨⟨f, k⟩, hf, ⟨u, hu, hk, rfl⟩, v, hv, -, rfl⟩ := hij
  obtain ⟨x, y, hxy, hx, hy⟩ := exists_drafts h h' hf hu hv hk
  exact ⟨_, _, (placed_ofSources _ _ _ h hu).declarations k x hx,
    (placed_ofSources _ _ _ h' hv).declarations k y hy, hxy.declarations _ _⟩

theorem classes_shared (h : (files.map Prod.fst).Nodup) (h' : (files'.map Prod.fst).Nodup)
    {k l : ClassId} (hkl : (shared files files' s).cls k l) :
    ∃ e e', (ofSources find follow start files).classes[k]? = some e
      ∧ (ofSources find' follow' start' files').classes[l]? = some e'
      ∧ (shared files files' s).Classes e e' := by
  obtain ⟨⟨f, k⟩, hf, ⟨u, hu, hk, rfl⟩, v, hv, -, rfl⟩ := hkl
  obtain ⟨x, y, hxy, hx, hy⟩ := exists_classEntries h h' hf hu hv hk
  exact ⟨_, _, (placed_ofSources _ _ _ h hu).classes k x hx,
    (placed_ofSources _ _ _ h' hv).classes k y hy, hxy⟩

theorem codebases_shared (h : (files.map Prod.fst).Nodup) (h' : (files'.map Prod.fst).Nodup)
    (hmodules : ∀ {u v}, (shared files files' s).unit u v → ∀ source,
        (shared files files' s).Modules (ofSources find follow start files)
          (ofSources find' follow' start' files') u v source) :
    (shared files files' s).Codebases (ofSources find follow start files)
      (ofSources find' follow' start' files') where
  toFiles := files_shared h h' fun huv source _ => hmodules huv source
  modules := hmodules
  units := by
    rintro u v ⟨f, -, hu, hv⟩
    exact ⟨_, _, (placed_ofSources _ _ _ h hu).unit, (placed_ofSources _ _ _ h' hv).unit, rfl, rfl⟩
  declarations := declarations_shared h h'
  scopes := by
    rintro i j ⟨⟨f, k⟩, hf, ⟨u, hu, hk, rfl⟩, v, hv, -, rfl⟩
    obtain ⟨x, y, hxy, hx, hy⟩ := exists_drafts h h' hf hu hv hk
    exact ⟨_, _, (placed_ofSources _ _ _ h hu).scopes k x hx,
      (placed_ofSources _ _ _ h' hv).scopes k y hy, hxy.scopes⟩
  classes := classes_shared h h'

theorem modules_shared (h : (files.map Prod.fst).Nodup) (h' : (files'.map Prod.fst).Nodup)
    (hu : files[u]? = some f) (hv : files'[v]? = some f) {source : String}
    (hfollow : source ∈ follow f.1 f.2 ↔ source ∈ follow' f.1 f.2)
    (hfind : source ∈ follow f.1 f.2 → find f.1 source = find' f.1 source)
    (hnext : source ∈ follow f.1 f.2 → ∀ file, find f.1 source = some file →
      ∃ g, s g ∧ g.1 = file ∧ g ∈ files ∧ g ∈ files') :
    (shared files files' s).Modules (ofSources find follow start files)
      (ofSources find' follow' start' files') u v source := by
  by_cases hlead : ∃ file, source ∈ follow f.1 f.2 ∧ find f.1 source = some file
  · obtain ⟨file, hsource, hfile⟩ := hlead
    obtain ⟨g, hg, rfl, hgc, hgd⟩ := hnext hsource file hfile
    obtain ⟨w, hw⟩ := List.getElem?_of_mem hgc
    obtain ⟨x, hx⟩ := List.getElem?_of_mem hgd
    have hpath : (files.map Prod.fst)[w]? = some g.1 := by rw [List.getElem?_map, hw]; rfl
    have hpath' : (files'.map Prod.fst)[x]? = some g.1 := by rw [List.getElem?_map, hx]; rfl
    rw [Modules, (module?_ofSources h hu).2 ⟨hsource, g.1, hfile, hpath⟩,
      (module?_ofSources h' hv).2 ⟨hfollow.1 hsource, g.1, (hfind hsource).symm.trans hfile, hpath'⟩]
    exact .some ⟨g, hg, hw, hx⟩
  · have hnone : (ofSources find follow start files).module? u source = none := by
      rw [Option.eq_none_iff_forall_ne_some]
      intro w hw
      obtain ⟨hsource, file, hfile, -⟩ := (module?_ofSources h hu).1 hw
      exact hlead ⟨file, hsource, hfile⟩
    have hnone' : (ofSources find' follow' start' files').module? v source = none := by
      rw [Option.eq_none_iff_forall_ne_some]
      intro x hx
      obtain ⟨hsource, file, hfile, -⟩ := (module?_ofSources h' hv).1 hx
      have hsource := hfollow.2 hsource
      exact hlead ⟨file, hsource, (hfind hsource).trans hfile⟩
    rw [Modules, hnone, hnone']
    exact .none

end Sources

end Renumbering

end CallDiagram
