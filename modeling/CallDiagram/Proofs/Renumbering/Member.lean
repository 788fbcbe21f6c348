import CallDiagram.Proofs.Codebase.Hierarchy
import CallDiagram.Proofs.Renumbering.Lookup

namespace CallDiagram

open List (Forall₂)

namespace Renumbering

structure Classes (r : Renumbering) (e e' : ClassEntry) : Prop where
  unit : r.unit e.unit e'.unit
  base : e.base = e'.base
  fields : ∀ n, e.fields.get? n = e'.fields.get? n
  methods : ∀ key, Option.Rel r.declaration (e.methods.get? key) (e'.methods.get? key)

structure Scopes (r : Renumbering) (s s' : Scope) : Prop where
  cls : Option.Rel r.cls s.cls s'.cls
  isStatic : s.isStatic = s'.isStatic
  bindings : ∀ n, s.bindings.get? n = s'.bindings.get? n

structure Declarations (r : Renumbering) (x y : Declaration) : Prop where
  unit : r.unit x.unit y.unit
  name : x.name = y.name
  container : x.container = y.container
  kind : x.kind = y.kind
  line : x.line = y.line
  callSites : x.callSites = y.callSites

inductive Definitions (r : Renumbering) : Definition → Definition → Prop
  | callable {i j} : r.declaration i j → Definitions r (.callable i) (.callable j)
  | other {kind} : Definitions r (.other kind) (.other kind)

structure Codebases (r : Renumbering) (c d : Codebase) : Prop extends r.Files c d where
  modules : ∀ {u v}, r.unit u v → ∀ source, r.Modules c d u v source
  units : ∀ {u v}, r.unit u v → ∃ x y, c.units[u]? = some x ∧ d.units[v]? = some y
    ∧ x.path = y.path ∧ x.foreign = y.foreign
  declarations : ∀ {i j}, r.declaration i j →
    ∃ x y, c.declarations[i]? = some x ∧ d.declarations[j]? = some y ∧ r.Declarations x y
  scopes : ∀ {i j}, r.declaration i j →
    ∃ s s', c.scopes[i]? = some s ∧ d.scopes[j]? = some s' ∧ r.Scopes s s'
  classes : ∀ {k l}, r.cls k l →
    ∃ e e', c.classes[k]? = some e ∧ d.classes[l]? = some e' ∧ r.Classes e e'

namespace Codebases

variable {r : Renumbering} {c d : Codebase} {u v : UnitId} {i j : DeclarationId} {k l : ClassId}

theorem lookup (h : r.Codebases c d) (huv : r.unit u v) (n : String) :
    Forall₂ r.Symbols (c.lookup u n) (d.lookup v n) :=
  h.toFiles.lookup huv fun b _ => h.modules huv b.source

theorem classNamed? (h : r.Codebases c d) (huv : r.unit u v) (typeName : String) :
    Option.Rel r.cls (c.classNamed? u typeName) (d.classNamed? v typeName) := by
  refine rel_findSome? (h.lookup huv typeName) fun s t hst => ?_
  cases hst with
  | cls hkl => exact .some hkl
  | _ => exact .none

theorem declaredBase? (h : r.Codebases c d) (hkl : r.cls k l) :
    Option.Rel r.cls (c.declaredBase? k) (d.declaredBase? l) := by
  obtain ⟨e, e', he, he', hentry⟩ := h.classes hkl
  simp only [Codebase.declaredBase?, he, he', Option.bind_some, ← hentry.base]
  cases e.base with
  | none => exact .none
  | some base => exact h.classNamed? hentry.unit base

theorem lt_size (h : r.Codebases c d) (hkl : r.cls k l) :
    k < c.classes.size ∧ l < d.classes.size := by
  obtain ⟨e, e', he, he', -⟩ := h.classes hkl
  exact ⟨(Array.getElem?_eq_some_iff.1 he).1, (Array.getElem?_eq_some_iff.1 he').1⟩

theorem chainFrom (h : r.Codebases c d) {chain chain' : List ClassId} {last last' : ClassId}
    (hchain : Forall₂ r.cls chain chain') (hlast : r.cls last last') :
    Forall₂ r.cls (c.chainFrom chain last) (d.chainFrom chain' last') := by
  fun_induction Codebase.chainFrom c chain last generalizing chain' last' with
  | case1 chain last hnone =>
    rcases rel_cases (h.declaredBase? hlast) with ⟨-, hd⟩ | ⟨base, base', hc, -⟩
    · rw [Codebase.chainFrom_of_none hd]
      exact hchain
    · rw [hnone] at hc
      cases hc
  | case2 chain last base hsome hnew ih =>
    rcases rel_cases (h.declaredBase? hlast) with ⟨hc, -⟩ | ⟨_, base', hc, hd, hbase⟩
    · rw [hsome] at hc
      cases hc
    · obtain rfl := Option.some.inj (hsome.symm.trans hc)
      have hmem : base ∈ chain ↔ base' ∈ chain' := List.rel_mem h.oneToOne.cls hbase hchain
      rw [Codebase.chainFrom_of_some hd, if_pos ⟨(h.lt_size hbase).2, mt hmem.2 hnew.2⟩]
      exact ih (List.rel_append hchain (.cons hbase .nil)) hbase
  | case3 chain last base hsome hold =>
    rcases rel_cases (h.declaredBase? hlast) with ⟨hc, -⟩ | ⟨_, base', hc, hd, hbase⟩
    · rw [hsome] at hc
      cases hc
    · obtain rfl := Option.some.inj (hsome.symm.trans hc)
      have hmem : base ∈ chain ↔ base' ∈ chain' := List.rel_mem h.oneToOne.cls hbase hchain
      rw [Codebase.chainFrom_of_some hd,
        if_neg fun hnew => hold ⟨(h.lt_size hbase).1, mt hmem.1 hnew.2⟩]
      exact hchain

theorem classChain (h : r.Codebases c d) (hkl : r.cls k l) :
    Forall₂ r.cls (c.classChain k) (d.classChain l) :=
  h.chainFrom (.cons hkl .nil) hkl

theorem base? (h : r.Codebases c d) (hkl : r.cls k l) : Option.Rel r.cls (c.base? k) (d.base? l) :=
  rel_getElem? (h.classChain hkl) 1

theorem method? (h : r.Codebases c d) (hkl : r.cls k l) (name : String) (isStatic : Bool) :
    Option.Rel r.declaration (c.method? k name isStatic) (d.method? l name isStatic) := by
  refine rel_findSome? (h.classChain hkl) fun k l hkl => ?_
  obtain ⟨e, e', he, he', hentry⟩ := h.classes hkl
  simpa only [he, he', Option.bind_some] using hentry.methods (name, isStatic)

theorem fieldClass? (h : r.Codebases c d) (hkl : r.cls k l) (field : String) :
    Option.Rel r.cls (c.fieldClass? k field) (d.fieldClass? l field) := by
  refine rel_findSome? (h.classChain hkl) fun k l hkl => ?_
  obtain ⟨e, e', he, he', hentry⟩ := h.classes hkl
  simp only [he, he', Option.bind_some, ← hentry.fields field]
  cases e.fields.get? field with
  | none => exact .none
  | some typeName => exact h.classNamed? hentry.unit typeName

theorem methodOf (h : r.Codebases c d) {cls cls' : Option ClassId} (hcls : Option.Rel r.cls cls cls')
    (name : String) (isStatic : Bool) :
    Forall₂ r.Symbols (c.methodOf cls name isStatic) (d.methodOf cls' name isStatic) :=
  rel_toList (rel_optionMap (rel_bind hcls fun _ _ hkl => h.method? hkl name isStatic)
    fun _ _ => Symbols.function)

theorem variableClass? (h : r.Codebases c d) (huv : r.unit u v) (name : String) :
    Option.Rel r.cls (c.variableClass? u name) (d.variableClass? v name) := by
  obtain ⟨t, t', ht, ht', htables⟩ := h.tables huv
  simp only [Codebase.variableClass?, ht, ht', Option.bind_some, ← htables.variableTypes name]
  cases t.variableTypes.get? name with
  | none => exact .none
  | some typeName => exact h.classNamed? huv typeName

theorem memberOf (h : r.Codebases c d) (property : String) {s t : Symbol} (hst : r.Symbols s t) :
    Forall₂ r.Symbols (c.memberOf property s) (d.memberOf property t) := by
  cases hst with
  | cls hkl => exact h.methodOf (.some hkl) property true
  | module huv => exact h.exported huv property
  | «variable» huv => exact h.methodOf (h.variableClass? huv _) property false
  | function => exact .nil
  | other => exact .nil

theorem memberSymbols (h : r.Codebases c d) (huv : r.unit u v) {s s' : Scope} (hs : r.Scopes s s')
    (property : String) (receiver : Receiver) :
    Forall₂ r.Symbols (c.memberSymbols u s property receiver)
      (d.memberSymbols v s' property receiver) := by
  cases receiver with
  | this =>
    simp only [Codebase.memberSymbols, ← hs.isStatic]
    exact h.methodOf hs.cls property s.isStatic
  | super =>
    simp only [Codebase.memberSymbols, ← hs.isStatic]
    exact h.methodOf (rel_bind hs.cls fun _ _ hkl => h.base? hkl) property s.isStatic
  | thisField field =>
    exact h.methodOf (rel_bind hs.cls fun _ _ hkl => h.fieldClass? hkl field) property false
  | ident name =>
    simp only [Codebase.memberSymbols, ← hs.bindings name]
    cases s.bindings.get? name with
    | some typeName => exact h.methodOf (h.classNamed? huv typeName) property false
    | none =>
      exact rel_dropRepeats h.oneToOne.symbols
        (rel_flatMap (h.lookup huv name) fun _ _ => h.memberOf property)
  | expression => exact .nil

theorem definition {s t : Symbol} (hst : r.Symbols s t) : r.Definitions s.definition t.definition := by
  cases hst with
  | function hij => exact .callable hij
  | _ => exact .other

theorem rel_definitions {symbols symbols' : List Symbol} (h : Forall₂ r.Symbols symbols symbols') :
    Forall₂ r.Definitions (symbols.map Symbol.definition) (symbols'.map Symbol.definition) := by
  rw [List.forall₂_map_left_iff, List.forall₂_map_right_iff]
  exact h.imp fun _ _ => definition

theorem calleeDefinitions (h : r.Codebases c d) (huv : r.unit u v) {s s' : Scope}
    (hs : r.Scopes s s') (callee : Callee) :
    Forall₂ r.Definitions (c.calleeDefinitions u s callee) (d.calleeDefinitions v s' callee) := by
  cases callee with
  | name name =>
    have hbound : s.bindings.contains name = s'.bindings.contains name :=
      congrArg Option.isSome (hs.bindings name)
    simp only [Codebase.calleeDefinitions, ← hbound]
    split
    · exact .cons .other .nil
    · exact rel_definitions (h.lookup huv name)
  | member receiver property =>
    exact rel_definitions (h.memberSymbols huv hs property receiver)
  | other => exact .nil

theorem definitions (h : r.Codebases c d) (hij : r.declaration i j) (site : CallSite) :
    Forall₂ r.Definitions (c.definitions i site) (d.definitions j site) := by
  obtain ⟨x, y, hx, hy, hdeclaration⟩ := h.declarations hij
  obtain ⟨s, s', hs, hs', hscope⟩ := h.scopes hij
  simp only [Codebase.definitions, hx, hy, hs, hs']
  exact h.calleeDefinitions hdeclaration.unit hscope site.callee

end Codebases

end Renumbering

end CallDiagram
