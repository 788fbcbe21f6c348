import CallDiagram.Proofs.Call.Reach
import CallDiagram.Proofs.Renumbering.Member
import CallDiagram.Request

namespace CallDiagram

open List (Forall₂)

namespace Resolver

theorem traceFrom_round (r : Resolver) (g : TraceGraph) (queue : List DeclarationId) :
    r.traceFrom (r.round (g, queue)).1 (r.round (g, queue)).2 = r.traceFrom g queue := by
  cases queue with
  | nil => rfl
  | cons d queue =>
    rw [traceFrom, round]
    split <;> rfl

end Resolver

namespace Renumbering

structure Resolvers (r : Renumbering) (a b : Resolver) : Prop where
  unit : Relator.BiUnique r.unit
  declaration : Relator.BiUnique r.declaration
  units : ∀ {u v}, r.unit u v → ∃ x y, a.units[u]? = some x ∧ b.units[v]? = some y
    ∧ x.path = y.path ∧ x.foreign = y.foreign
  declarations : ∀ {i j}, r.declaration i j →
    ∃ x y, a.declarations[i]? = some x ∧ b.declarations[j]? = some y ∧ r.Declarations x y
  definitions : ∀ {i j}, r.declaration i j → ∀ site,
    Forall₂ r.Definitions (a.definitions i site) (b.definitions j site)

structure Nodes (r : Renumbering) (x y : TraceNode) : Prop where
  declaration : r.declaration x.declaration y.declaration
  callees : Forall₂ r.declaration x.callees y.callees

def Graphs (r : Renumbering) (g g' : TraceGraph) : Prop := Forall₂ r.Nodes g.nodes g'.nodes

theorem Codebases.resolvers {r : Renumbering} {c d : Codebase} (h : r.Codebases c d) :
    r.Resolvers c.resolver d.resolver where
  unit := h.oneToOne.unit
  declaration := h.oneToOne.declaration
  units := h.units
  declarations := h.declarations
  definitions := h.definitions

namespace Resolvers

variable {r : Renumbering} {a b : Resolver} {i j : DeclarationId} {g g' : TraceGraph}
  {queue queue' : List DeclarationId}

theorem isLocal_eq (h : r.Resolvers a b) (hij : r.declaration i j) : a.isLocal i = b.isLocal j := by
  obtain ⟨x, y, hx, hy, hdeclaration⟩ := h.declarations hij
  obtain ⟨w, z, hw, hz, -, hforeign⟩ := h.units hdeclaration.unit
  simp [Resolver.isLocal, Resolver.unitOf?, hx, hy, hw, hz, hforeign]

theorem target? (h : r.Resolvers a b) (hij : r.declaration i j) (site : CallSite) :
    Option.Rel r.declaration (a.target? i site) (b.target? j site) := by
  unfold Resolver.target?
  cases site.callee.lookupName? with
  | none => exact .none
  | some name =>
    have hdefinitions := h.definitions hij site
    generalize a.definitions i site = found at hdefinitions
    generalize b.definitions j site = found' at hdefinitions
    cases hdefinitions with
    | nil => exact .none
    | cons hfirst hrest =>
      cases hrest with
      | nil =>
        cases hfirst with
        | callable htarget => exact .some htarget
        | other => exact .none
      | cons _ _ => cases hfirst <;> exact .none

theorem appendNew (h : r.Resolvers a b) {old old' new new' : List DeclarationId}
    (hold : Forall₂ r.declaration old old') (hnew : Forall₂ r.declaration new new') :
    Forall₂ r.declaration (Resolver.appendNew old new) (Resolver.appendNew old' new') := by
  induction hnew generalizing old old' with
  | nil => exact hold
  | @cons i j new new' hij _ ih =>
    have hmem : i ∈ old ↔ j ∈ old' := List.rel_mem h.declaration hij hold
    apply ih
    by_cases hi : i ∈ old
    · simpa [hi, hmem.1 hi] using hold
    · simpa [hi, mt hmem.2 hi] using List.rel_append hold (.cons hij .nil)

theorem directCallees (h : r.Resolvers a b) (hij : r.declaration i j) :
    Forall₂ r.declaration (a.directCallees i) (b.directCallees j) := by
  obtain ⟨x, y, hx, hy, hdeclaration⟩ := h.declarations hij
  simp only [Resolver.directCallees, hx, hy, ← hdeclaration.callSites]
  refine h.appendNew .nil (List.rel_filterMap (R := Eq) ?_ (List.forall₂_same.2 fun _ _ => rfl))
  rintro site _ rfl
  exact h.target? hij site

theorem contains_eq (h : r.Resolvers a b) (hg : r.Graphs g g') (hij : r.declaration i j) :
    g.contains i = g'.contains j := by
  unfold TraceGraph.contains
  unfold Graphs at hg
  generalize g.nodes = nodes at hg
  generalize g'.nodes = nodes' at hg
  induction hg with
  | nil => rfl
  | @cons x y nodes nodes' hxy _ ih =>
    have hiff : x.declaration = i ↔ y.declaration = j :=
      Relator.rel_eq h.declaration hxy.declaration hij
    have hhead : (x.declaration == i) = (y.declaration == j) := by
      rw [Bool.eq_iff_iff, beq_iff_eq, beq_iff_eq]
      exact hiff
    rw [List.any_cons, List.any_cons, hhead, ih]

theorem insert (h : r.Resolvers a b) (hg : r.Graphs g g') (hij : r.declaration i j)
    {callees callees' : List DeclarationId} (hcallees : Forall₂ r.declaration callees callees') :
    r.Graphs (g.insert i callees).2 (g'.insert j callees').2 := by
  simp only [TraceGraph.insert, h.contains_eq hg hij]
  split
  · exact hg
  · exact List.rel_append hg (.cons ⟨hij, hcallees⟩ .nil)

theorem round (h : r.Resolvers a b) (hg : r.Graphs g g') (hqueue : Forall₂ r.declaration queue queue') :
    r.Graphs (a.round (g, queue)).1 (b.round (g', queue')).1
      ∧ Forall₂ r.declaration (a.round (g, queue)).2 (b.round (g', queue')).2 := by
  cases hqueue with
  | nil => exact ⟨hg, .nil⟩
  | @cons i j queue queue' hij hrest =>
    have hentered := h.insert hg hij (h.directCallees hij)
    simp only [Resolver.round, h.contains_eq hg hij]
    split
    · exact ⟨hg, hrest⟩
    · refine ⟨hentered, List.rel_append hrest ?_⟩
      apply List.rel_filter ?_ (List.rel_filter ?_ (h.directCallees hij))
      · intro k l hkl
        simp only [h.contains_eq hentered hkl]
      · intro k l hkl
        simp only [h.isLocal_eq hkl]

theorem traceFrom (h : r.Resolvers a b) (hg : r.Graphs g g')
    (hqueue : Forall₂ r.declaration queue queue') :
    r.Graphs (a.traceFrom g queue) (b.traceFrom g' queue') := by
  fun_induction Resolver.traceFrom a g queue generalizing g' queue' with
  | case1 g =>
    cases hqueue
    rw [Resolver.traceFrom]
    exact hg
  | case2 g i queue hi ih =>
    have hround := h.round hg hqueue
    rw [Resolver.round, if_pos hi] at hround
    rw [← b.traceFrom_round]
    exact ih hround.1 hround.2
  | case3 =>
    rename_i hi callees entered ih
    have hround := h.round hg hqueue
    rw [Resolver.round, if_neg hi] at hround
    rw [← b.traceFrom_round]
    exact ih hround.1 hround.2

theorem trace (h : r.Resolvers a b) (hij : r.declaration i j) :
    r.Graphs (a.trace i) (b.trace j) := by
  have hempty : r.Graphs .empty .empty := .nil
  exact h.traceFrom hempty (.cons hij .nil)

end Resolvers

structure Namings (r : Renumbering) (n m : Naming) : Prop where
  resolvers : r.Resolvers n.resolver m.resolver
  current : r.unit n.current m.current
  options : n.options = m.options

namespace Namings

variable {r : Renumbering} {n m : Naming} {u v : UnitId} {i j : DeclarationId}

theorem directory_eq (h : r.Namings n m) : n.directory = m.directory := by
  obtain ⟨x, y, hx, hy, hpath, -⟩ := h.resolvers.units h.current
  simp [Naming.directory, hx, hy, hpath]

theorem group?_eq (h : r.Namings n m) (huv : r.unit u v) : n.group? u = m.group? v := by
  obtain ⟨x, y, hx, hy, hpath, hforeign⟩ := h.resolvers.units huv
  have hcurrent : u = n.current ↔ v = m.current := Relator.rel_eq h.resolvers.unit huv h.current
  simp [Naming.group?, hx, hy, hpath, hforeign, hcurrent, h.directory_eq, h.options]

theorem groupOf?_eq (h : r.Namings n m) (hij : r.declaration i j) : n.groupOf? i = m.groupOf? j := by
  obtain ⟨x, y, hx, hy, hdeclaration⟩ := h.resolvers.declarations hij
  simp [Naming.groupOf?, hx, hy, h.group?_eq hdeclaration.unit]

theorem segments_eq (h : r.Namings n m) (hij : r.declaration i j) : n.segments i = m.segments j := by
  obtain ⟨x, y, hx, hy, hdeclaration⟩ := h.resolvers.declarations hij
  simp [Naming.segments, hx, hy, Declaration.displayName?, hdeclaration.name, hdeclaration.container]

theorem identifier?_eq (h : r.Namings n m) (hij : r.declaration i j) :
    n.identifier? i = m.identifier? j := by
  simp [Naming.identifier?, h.groupOf?_eq hij, h.segments_eq hij]

theorem topSegment?_eq (h : r.Namings n m) (hij : r.declaration i j) :
    n.topSegment? i = m.topSegment? j := by
  simp [Naming.topSegment?, h.groupOf?_eq hij, h.segments_eq hij]

theorem header_eq (h : r.Namings n m) (hij : r.declaration i j) :
    Drawing.header n i = Drawing.header m j := by
  simp [Drawing.header, Drawing.pinned?, h.group?_eq h.current, h.topSegment?_eq hij,
    h.identifier?_eq hij]

theorem arrows_eq (h : r.Namings n m) {g g' : TraceGraph} (hg : r.Graphs g g') :
    g.edges.filterMap (Drawing.arrow? n) = g'.edges.filterMap (Drawing.arrow? m) := by
  have hnodes : Forall₂ r.Nodes g.nodes g'.nodes := hg
  have hedges : Forall₂ (fun e e' => r.declaration e.1 e'.1 ∧ r.declaration e.2 e'.2)
      g.edges g'.edges := by
    refine rel_flatMap hnodes fun x y hxy => ?_
    rw [List.forall₂_map_left_iff, List.forall₂_map_right_iff]
    exact hxy.callees.imp fun _ _ hcallee => ⟨hxy.declaration, hcallee⟩
  rw [← List.forall₂_eq_eq_eq]
  refine List.rel_filterMap ?_ hedges
  rintro ⟨i, k⟩ ⟨j, l⟩ ⟨hij, hkl⟩
  rw [rel_eq_iff]
  simp only [Drawing.arrow?, h.identifier?_eq hij, h.identifier?_eq hkl]

theorem ofGraph_eq (h : r.Namings n m) (hij : r.declaration i j) {g g' : TraceGraph}
    (hg : r.Graphs g g') : Drawing.ofGraph n i g = Drawing.ofGraph m j g' := by
  rw [Drawing.ofGraph, Drawing.ofGraph, h.header_eq hij, h.arrows_eq hg]

end Namings

theorem Resolvers.namings {r : Renumbering} {a b : Resolver} {i j : DeclarationId}
    (h : r.Resolvers a b) (hij : r.declaration i j) (options : DiagramOptions) :
    r.Namings (.ofRoot a i options) (.ofRoot b j options) where
  resolvers := h
  current := by
    obtain ⟨x, y, hx, hy, hdeclaration⟩ := h.declarations hij
    simpa [Naming.ofRoot, hx, hy] using hdeclaration.unit
  options := rfl

theorem Resolvers.drawing_eq {r : Renumbering} {a b : Resolver} {i j : DeclarationId}
    (h : r.Resolvers a b) (hij : r.declaration i j) (options : DiagramOptions) :
    a.drawing i options = b.drawing j options :=
  (h.namings hij options).ofGraph_eq hij (h.trace hij)

end Renumbering

end CallDiagram
