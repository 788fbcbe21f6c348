import CallDiagram.Proofs.Codebase.WellFormed
import CallDiagram.Proofs.Renumbering.Drawing

namespace CallDiagram

structure FileTable.Alike (t t' : FileTable) : Prop where
  functions : ∀ n, t.functions.get? n = t'.functions.get? n
  classes : ∀ n, t.classes.get? n = t'.classes.get? n
  symbols : ∀ n, t.symbols.get? n = t'.symbols.get? n
  variableTypes : ∀ n, t.variableTypes.get? n = t'.variableTypes.get? n
  imports : ∀ n, t.imports.get? n = t'.imports.get? n
  modules : ∀ source, t.modules.get? source = t'.modules.get? source
  exports : t.exports = t'.exports
  isDeclarationFile : t.isDeclarationFile = t'.isDeclarationFile

structure ClassEntry.Alike (e e' : ClassEntry) : Prop where
  unit : e.unit = e'.unit
  base : e.base = e'.base
  fields : ∀ n, e.fields.get? n = e'.fields.get? n
  methods : ∀ key, e.methods.get? key = e'.methods.get? key

structure Scope.Alike (s s' : Scope) : Prop where
  cls : s.cls = s'.cls
  isStatic : s.isStatic = s'.isStatic
  bindings : ∀ n, s.bindings.get? n = s'.bindings.get? n

theorem FileTable.Alike.refl (t : FileTable) : t.Alike t :=
  ⟨fun _ => rfl, fun _ => rfl, fun _ => rfl, fun _ => rfl, fun _ => rfl, fun _ => rfl, rfl, rfl⟩

theorem ClassEntry.Alike.refl (e : ClassEntry) : e.Alike e := ⟨rfl, rfl, fun _ => rfl, fun _ => rfl⟩

theorem Scope.Alike.refl (s : Scope) : s.Alike s := ⟨rfl, rfl, fun _ => rfl⟩

theorem rel_of_eq {α : Type} {R : α → α → Prop} {o o' : Option α} (h : o = o')
    (hR : ∀ a, o = some a → R a a) : Option.Rel R o o' := by
  subst h
  cases o with
  | none => exact .none
  | some a => exact .some (hR a rfl)

namespace Codebase

/-- Whether the second codebase has, under the same numbers, all that the first one has in the files
`s`. -/
structure AgreeOn (s : Set UnitId) (c d : Codebase) : Prop where
  units : ∀ u ∈ s, c.units[u]? = d.units[u]?
  tables : ∀ u ∈ s, Option.Rel FileTable.Alike c.tables[u]? d.tables[u]?
  declarations : ∀ (i : DeclarationId) x, c.declarations[i]? = some x → x.unit ∈ s →
    d.declarations[i]? = some x ∧ Option.Rel Scope.Alike c.scopes[i]? d.scopes[i]?
  classes : ∀ (k : ClassId) e, c.classes[k]? = some e → e.unit ∈ s →
    ∃ e', d.classes[k]? = some e' ∧ e.Alike e'

def ClosedUnderModules (c : Codebase) (s : Set UnitId) : Prop :=
  ∀ u ∈ s, ∀ source v, c.module? u source = some v → v ∈ s

theorem AgreeOn.refl (s : Set UnitId) (c : Codebase) : AgreeOn s c c where
  units _ _ := rfl
  tables _ _ := rel_of_eq rfl fun t _ => .refl t
  declarations _ _ hx _ := ⟨hx, rel_of_eq rfl fun scope _ => .refl scope⟩
  classes _ e he _ := ⟨e, he, .refl e⟩

end Codebase

namespace Renumbering

open Codebase

def inside (c : Codebase) (s : Set UnitId) : Renumbering where
  unit u v := u = v ∧ u ∈ s ∧ u < c.units.size
  declaration i j := i = j ∧ ∃ x, c.declarations[i]? = some x ∧ x.unit ∈ s
  cls k l := k = l ∧ ∃ e, c.classes[k]? = some e ∧ e.unit ∈ s

variable {c d : Codebase} {s : Set UnitId}

theorem biUnique_of_imp_eq {α : Type} {R : α → α → Prop} (h : ∀ a b, R a b → a = b) :
    Relator.BiUnique R :=
  ⟨fun a b x ha hb => (h a x ha).trans (h b x hb).symm,
    fun x a b ha hb => (h x a ha).symm.trans (h x b hb)⟩

theorem tables_inside (hc : c.WellFormed) (h : AgreeOn s c d) {u v : UnitId}
    (huv : (inside c s).unit u v) :
    ∃ t t', c.tables[u]? = some t ∧ d.tables[v]? = some t' ∧ t.Alike t' := by
  obtain ⟨rfl, hu, hlt⟩ := huv
  rw [← hc.size_tables] at hlt
  rcases rel_cases (h.tables u hu) with ⟨hnone, -⟩ | ⟨t, t', ht, ht', halike⟩
  · exact absurd hnone (by simp [hlt])
  · exact ⟨t, t', ht, ht', halike⟩

theorem modules_inside (hc : c.WellFormed) (h : AgreeOn s c d) (hs : c.ClosedUnderModules s)
    {u v : UnitId} (huv : (inside c s).unit u v) (source : String) :
    (inside c s).Modules c d u v source := by
  obtain ⟨t, t', ht, ht', halike⟩ := tables_inside hc h huv
  simp only [Modules, module?, ht, ht', Option.bind_some]
  refine rel_of_eq (halike.modules source) fun w hw => ⟨rfl, ?_, hc.modules ht hw⟩
  exact hs u huv.2.1 source w (by rw [module?, ht]; exact hw)

theorem files_inside (hc : c.WellFormed) (h : AgreeOn s c d) (hs : c.ClosedUnderModules s) :
    (inside c s).Files c d where
  oneToOne := ⟨biUnique_of_imp_eq fun _ _ h => h.1, biUnique_of_imp_eq fun _ _ h => h.1,
    biUnique_of_imp_eq fun _ _ h => h.1⟩
  tables := by
    intro u v huv
    obtain ⟨t, t', ht, ht', halike⟩ := tables_inside hc h huv
    refine ⟨t, t', ht, ht', fun n => ?_, fun n => ?_, halike.symbols, halike.variableTypes,
      halike.imports, halike.exports, halike.isDeclarationFile⟩
    · refine rel_of_eq (halike.functions n) fun i hi => ⟨rfl, ?_⟩
      obtain ⟨x, hx, hunit⟩ := hc.functions ht hi
      exact ⟨x, hx, hunit ▸ huv.2.1⟩
    · refine rel_of_eq (halike.classes n) fun k hk => ⟨rfl, ?_⟩
      obtain ⟨e, he, hunit⟩ := hc.classNames ht hk
      exact ⟨e, he, hunit ▸ huv.2.1⟩
  passedOn huv source _ := modules_inside hc h hs huv source

theorem codebases_inside (hc : c.WellFormed) (h : AgreeOn s c d) (hs : c.ClosedUnderModules s) :
    (inside c s).Codebases c d where
  toFiles := files_inside hc h hs
  modules := modules_inside hc h hs
  units := by
    rintro u _ ⟨rfl, hu, hlt⟩
    have hx := Array.getElem?_eq_getElem hlt
    exact ⟨_, _, hx, (h.units u hu).symm.trans hx, rfl, rfl⟩
  declarations := by
    rintro i _ ⟨rfl, x, hx, hunit⟩
    exact ⟨x, x, hx, (h.declarations i x hx hunit).1, ⟨rfl, hunit, hc.declarations hx⟩,
      rfl, rfl, rfl, rfl, rfl⟩
  scopes := by
    rintro i _ ⟨rfl, x, hx, hunit⟩
    have hlt := (Array.getElem?_eq_some_iff.1 hx).1
    rw [← hc.size_scopes] at hlt
    rcases rel_cases (h.declarations i x hx hunit).2 with
      ⟨hnone, -⟩ | ⟨scope, scope', hscope, hscope', halike⟩
    · exact absurd hnone (by simp [hlt])
    · refine ⟨scope, scope', hscope, hscope', ?_, halike.isStatic, halike.bindings⟩
      refine rel_of_eq halike.cls fun k hk => ⟨rfl, ?_⟩
      obtain ⟨e, he, heunit⟩ := hc.scopes hx hscope hk
      exact ⟨e, he, heunit ▸ hunit⟩
  classes := by
    rintro k _ ⟨rfl, e, he, hunit⟩
    obtain ⟨e', he', halike⟩ := h.classes k e he hunit
    refine ⟨e, e', he, he', ⟨halike.unit, hunit, hc.classes he⟩, halike.base, halike.fields,
      fun key => ?_⟩
    refine rel_of_eq (halike.methods key) fun i hi => ⟨rfl, ?_⟩
    obtain ⟨x, hx, hxunit⟩ := hc.methods he hi
    exact ⟨x, hx, hxunit ▸ hunit⟩

theorem eq_of_forall₂ {α : Type} {R : α → α → Prop} (h : ∀ a b, R a b → a = b) {l l' : List α}
    (hl : List.Forall₂ R l l') : l = l' := by
  rw [← List.forall₂_eq_eq_eq]
  exact hl.imp h

theorem eq_of_definitions {x y : Definition} (h : (inside c s).Definitions x y) : x = y := by
  cases h with
  | callable hij => rw [hij.1]
  | other => rfl

theorem eq_of_nodes {x y : TraceNode} (h : (inside c s).Nodes x y) : x = y := by
  obtain ⟨⟨hdeclaration, -⟩, hcallees⟩ := h
  have hcallees := eq_of_forall₂ (fun _ _ hij => hij.1) hcallees
  cases x
  cases y
  simp only at hdeclaration hcallees
  rw [hdeclaration, hcallees]

theorem eq_of_graphs {g g' : TraceGraph} (h : (inside c s).Graphs g g') : g = g' :=
  congrArg TraceGraph.mk (eq_of_forall₂ (fun _ _ => eq_of_nodes) h)

theorem same_inside (hc : c.WellFormed) (h : AgreeOn s c d) (hs : c.ClosedUnderModules s)
    {root : DeclarationId} (hroot : (inside c s).declaration root root) :
    (∀ site, c.definitions root site = d.definitions root site)
      ∧ c.resolver.trace root = d.resolver.trace root
      ∧ ∀ options, c.resolver.drawing root options = d.resolver.drawing root options := by
  have hsame := codebases_inside hc h hs
  refine ⟨fun site => ?_, eq_of_graphs (hsame.resolvers.trace hroot), fun options => ?_⟩
  · exact eq_of_forall₂ (fun _ _ => eq_of_definitions) (hsame.definitions hroot site)
  · exact hsame.resolvers.drawing_eq hroot options

end Renumbering

end CallDiagram
