import CallDiagram.Proofs.Call.Reach
import CallDiagram.Proofs.Diagram.Names
import Mathlib.Data.List.Forall2

namespace CallDiagram

open List (Forall₂)

namespace TraceGraph

theorem mem_edges {g : TraceGraph} {d e : DeclarationId} :
    (d, e) ∈ g.edges ↔ ∃ node ∈ g.nodes, node.declaration = d ∧ e ∈ node.callees := by
  simp only [edges, List.mem_flatMap, List.mem_map, Prod.mk.injEq]
  constructor
  · rintro ⟨node, hnode, _, he, rfl, rfl⟩
    exact ⟨node, hnode, rfl, he⟩
  · rintro ⟨node, hnode, rfl, he⟩
    exact ⟨node, hnode, e, he, rfl, rfl⟩

end TraceGraph

namespace Drawing

def drawn (n : Naming) (graph : TraceGraph) : List (DeclarationId × DeclarationId) :=
  graph.edges.filter fun call => (n.identifier? call.1).isSome && (n.identifier? call.2).isSome

def Ends (n : Naming) (call : DeclarationId × DeclarationId) (names : String × String) : Prop :=
  n.identifier? call.1 = some names.1 ∧ n.identifier? call.2 = some names.2

def arrowOf (names : String × String) : DiagramLine := .arrow names.1 names.2

theorem exists_ends (n : Naming) (graph : TraceGraph) :
    ∃ ends, Forall₂ (Ends n) (drawn n graph) ends
      ∧ graph.edges.filterMap (arrow? n) = ends.map arrowOf := by
  rw [drawn]
  induction graph.edges with
  | nil => exact ⟨[], .nil, rfl⟩
  | cons call calls ih =>
    obtain ⟨ends, hends, harrows⟩ := ih
    obtain ⟨d, e⟩ := call
    cases hd : n.identifier? d with
    | none => exact ⟨ends, by simpa [hd] using hends, by simpa [hd, arrow?] using harrows⟩
    | some source =>
      cases he : n.identifier? e with
      | none => exact ⟨ends, by simpa [hd, he] using hends, by simpa [hd, he, arrow?] using harrows⟩
      | some target =>
        refine ⟨(source, target) :: ends, ?_, ?_⟩
        · simpa [hd, he] using ⟨⟨hd, he⟩, hends⟩
        · simpa [hd, he, arrow?, arrowOf] using harrows

theorem exists_drawn {n : Naming} {graph : TraceGraph} {root : DeclarationId}
    {source target : String} (h : .arrow source target ∈ ofGraph n root graph) :
    ∃ call ∈ drawn n graph, Ends n call (source, target) := by
  rw [ofGraph, List.mem_append] at h
  cases h with
  | inl h => simp [header] at h
  | inr h =>
    obtain ⟨call, hcall, harrow⟩ := List.mem_filterMap.1 h
    simp only [arrow?] at harrow
    split at harrow
    · next hd he =>
      cases harrow
      exact ⟨call, List.mem_filter.2 ⟨hcall, by simp [hd, he]⟩, hd, he⟩
    · cases harrow

end Drawing

namespace Resolver

/-- Whether no end of a call belongs to an ignored package. -/
def isKept (r : Resolver) (root : DeclarationId) (ignored : List String)
    (call : DeclarationId × DeclarationId) : Bool :=
  !r.isIgnored root ignored call.1 && !r.isIgnored root ignored call.2

variable {r : Resolver} {root d e : DeclarationId} {graph : TraceGraph}

theorem drawn_eq (hroot : root < r.declarations.size)
    (hgraph : ∀ call ∈ graph.edges, (r.unitOf? call.1).isSome ∧ (r.unitOf? call.2).isSome)
    (options : DiagramOptions) :
    Drawing.drawn (Naming.ofRoot r root options) graph
      = graph.edges.filter (r.isKept root options.ignoredPackages) := by
  refine List.filter_congr fun call hcall => ?_
  obtain ⟨hd, he⟩ := hgraph call hcall
  rw [Naming.isSome_identifier?_ofRoot hroot hd, Naming.isSome_identifier?_ofRoot hroot he, isKept]

theorem header_eq (hroot : root < r.declarations.size) (options : DiagramOptions) :
    ∃ pin name, Drawing.pinned? (Naming.ofRoot r root options) root = some pin
      ∧ (Naming.ofRoot r root options).identifier? root = some name
      ∧ Drawing.header (Naming.ofRoot r root options) root
        = [.downward, .pinRoot pin, .fillRoot name, .fillDependencies, .pinDependencies] := by
  obtain ⟨pin, hpin, -⟩ := Naming.exists_pinned hroot options
  obtain ⟨name, hname⟩ := Option.isSome_iff_exists.1 (Naming.isSome_identifier?_root hroot options)
  exact ⟨_, name, hpin, hname, by simp [Drawing.header, hpin, hname]⟩

theorem not_prefix_of_ignored {options : DiagramOptions} {package identifier : String}
    (h : (Naming.ofRoot r root options).identifier? d = some identifier)
    (hpackage : package ∈ options.ignoredPackages) :
    ¬ (Group.package package).text.toList <+: identifier.toList := by
  intro hbegins
  obtain ⟨y, -, hgroup⟩ := Option.bind_eq_some_iff.1 (Naming.groupOf?_of_prefix h hbegins)
  simp only [Naming.group?] at hgroup
  split at hgroup
  · split at hgroup <;> simp at hgroup
  · split at hgroup
    · cases hgroup
    · split at hgroup
      · split at hgroup
        · cases hgroup
        · next hkept =>
          cases hgroup
          exact hkept (List.contains_iff_mem.2 hpackage)
      · split at hgroup <;> simp at hgroup

/-- A diagram is its five opening statements and then, in the order of the graph, one arrow for each call
that does not touch an ignored package. So to ignore packages takes their calls out of what is drawn and
changes nothing else there, names without files change nothing there at all, and no arrow leads to or from
the group of an ignored package. -/
theorem ofGraph_filtered (hroot : root < r.declarations.size)
    (hgraph : ∀ call ∈ graph.edges, (r.unitOf? call.1).isSome ∧ (r.unitOf? call.2).isSome)
    (options : DiagramOptions) :
    let n := Naming.ofRoot r root options
    let kept := r.isKept root options.ignoredPackages
    (∃ pin name ends,
        Drawing.pinned? n root = some pin ∧ n.identifier? root = some name
          ∧ Forall₂ (Drawing.Ends n) (graph.edges.filter kept) ends
          ∧ Drawing.ofGraph n root graph
            = [.downward, .pinRoot pin, .fillRoot name, .fillDependencies, .pinDependencies]
              ++ ends.map Drawing.arrowOf)
      ∧ Drawing.drawn n graph = graph.edges.filter kept
      ∧ Drawing.drawn n graph = (Drawing.drawn (Naming.ofRoot r root {}) graph).filter kept
      ∧ (∀ omitted, Drawing.drawn (Naming.ofRoot r root { options with omitFileNames := omitted }) graph
          = Drawing.drawn n graph)
      ∧ ∀ source target, .arrow source target ∈ Drawing.ofGraph n root graph →
          ∀ package ∈ options.ignoredPackages,
            ¬ (Group.package package).text.toList <+: source.toList
              ∧ ¬ (Group.package package).text.toList <+: target.toList := by
  intro n kept
  have hdrawn : Drawing.drawn n graph = graph.edges.filter kept := drawn_eq hroot hgraph options
  refine ⟨?_, hdrawn, ?_, ?_, ?_⟩
  · obtain ⟨pin, name, hpin, hname, hheader⟩ := header_eq hroot options
    obtain ⟨ends, hends, harrows⟩ := Drawing.exists_ends n graph
    rw [hdrawn] at hends
    exact ⟨pin, name, ends, hpin, hname, hends, congrArg₂ (· ++ ·) hheader harrows⟩
  · have hall : Drawing.drawn (Naming.ofRoot r root {}) graph = graph.edges := by
      rw [drawn_eq hroot hgraph]
      refine List.filter_eq_self.2 fun call _ => ?_
      simp [isKept, isIgnored_nil]
    rw [hdrawn, hall]
  · intro omitted
    rw [hdrawn]
    exact drawn_eq hroot hgraph _
  · intro source target harrow package hpackage
    obtain ⟨call, -, hd, he⟩ := Drawing.exists_drawn harrow
    exact ⟨not_prefix_of_ignored hd hpackage, not_prefix_of_ignored he hpackage⟩

def callback : Resolver where
  declarations := #[
    { id := 0, name := some "start", container := none, kind := .function, unit := 0, line := 1,
      callSites := [⟨.name "handle", 2⟩] },
    { id := 1, name := some "handle", container := none, kind := .function, unit := 1, line := 1,
      callSites := [⟨.name "start", 2⟩, ⟨.name "finish", 3⟩] },
    { id := 2, name := some "finish", container := none, kind := .function, unit := 2, line := 1,
      callSites := [] }]
  units := #[⟨0, ⟨"/p/node_modules/lib/start.js"⟩, true⟩, ⟨1, ⟨"/p/app.ts"⟩, false⟩,
    ⟨2, ⟨"/p/node_modules/lib/finish.js"⟩, true⟩]
  definitions
    | _, ⟨.name "handle", _⟩ => [.callable 1]
    | _, ⟨.name "start", _⟩ => [.callable 0]
    | _, ⟨.name "finish", _⟩ => [.callable 2]
    | _, _ => []

theorem callback_filtered :
    let n := Naming.ofRoot callback 0 { ignoredPackages := ["lib"] }
    let graph : TraceGraph := ⟨[⟨0, [1]⟩, ⟨1, [0, 2]⟩]⟩
    0 < callback.declarations.size
      ∧ (∀ call ∈ graph.edges,
        (callback.unitOf? call.1).isSome ∧ (callback.unitOf? call.2).isSome)
      ∧ Drawing.drawn n graph = [(0, 1), (1, 0)]
      ∧ ∃ (pin name : String) (ends : List (String × String)), ends.length = 2
        ∧ Drawing.ofGraph n 0 graph
          = [.downward, .pinRoot pin, .fillRoot name, .fillDependencies, .pinDependencies]
            ++ ends.map Drawing.arrowOf := by
  intro n graph
  have hroot : 0 < callback.declarations.size := by decide
  have hgraph : ∀ call ∈ graph.edges,
      (callback.unitOf? call.1).isSome ∧ (callback.unitOf? call.2).isSome := by decide
  obtain ⟨⟨pin, name, ends, -, -, hends, hdrawing⟩, hdrawn, -⟩ :=
    ofGraph_filtered hroot hgraph { ignoredPackages := ["lib"] }
  have hkept : graph.edges.filter (callback.isKept 0 ["lib"]) = [(0, 1), (1, 0)] := by
    decide +kernel
  refine ⟨hroot, hgraph, hdrawn.trans hkept, pin, name, ends, ?_, hdrawing⟩
  rw [← hends.length_eq, hkept]
  rfl

theorem mem_edges_trace :
    (d, e) ∈ (r.trace root).edges ↔ r.Reaches root d ∧ e ∈ r.directCallees d := by
  have h := r.tracing_trace root
  rw [TraceGraph.mem_edges, ← mem_keys_trace_iff]
  constructor
  · rintro ⟨node, hnode, rfl, he⟩
    rw [h.callees node hnode] at he
    exact ⟨List.mem_map_of_mem hnode, he⟩
  · rintro ⟨hd, he⟩
    obtain ⟨node, hnode, rfl⟩ := List.mem_map.1 hd
    exact ⟨node, hnode, rfl, by rwa [h.callees node hnode]⟩

theorem exists_unitOf?_of_isLocal (h : r.isLocal d = true) :
    ∃ file, r.unitOf? d = some file ∧ file.foreign = false := by
  rw [isLocal] at h
  split at h
  · next file hfile => exact ⟨file, hfile, by simpa using h⟩
  · cases h

theorem isSome_identifier?_of_reaches (hroot : root < r.declarations.size) (h : r.Reaches root d)
    (options : DiagramOptions) : ((Naming.ofRoot r root options).identifier? d).isSome := by
  by_cases hd : d = root
  · exact hd ▸ Naming.isSome_identifier?_root hroot options
  · obtain ⟨file, hfile, hforeign⟩ := exists_unitOf?_of_isLocal (isLocal_of_reaches h hd)
    rw [Naming.isSome_identifier?_ofRoot hroot (by rw [hfile]; rfl)]
    simp [isIgnored, hfile, hforeign]

/-- In the diagram of a trace the root and all that is entered have a name, and each arrow starts where
arrows lead from the root, whatever is ignored. -/
theorem trace_connected (hroot : root < r.declarations.size) (options : DiagramOptions) :
    let n := Naming.ofRoot r root options
    let Arrow d e := (d, e) ∈ Drawing.drawn n (r.trace root)
    (n.identifier? root).isSome
      ∧ (∀ node ∈ (r.trace root).nodes, (n.identifier? node.declaration).isSome)
      ∧ ∀ d e, Arrow d e → Relation.ReflTransGen Arrow root d := by
  intro n Arrow
  have hname : ∀ d, r.Reaches root d → (n.identifier? d).isSome := fun d hd =>
    isSome_identifier?_of_reaches hroot hd options
  refine ⟨hname root .refl, fun node hnode => ?_, fun d e harrow => ?_⟩
  · exact hname _ (mem_keys_trace_iff.1 (List.mem_map_of_mem hnode))
  · have hd : r.Reaches root d := (mem_edges_trace.1 (List.mem_of_mem_filter harrow)).1
    clear harrow
    induction hd with
    | refl => exact .refl
    | @tail k d hk hstep ih =>
      refine ih.tail (List.mem_filter.2 ⟨mem_edges_trace.2 ⟨hk, hstep.1⟩, ?_⟩)
      simp only [hname k hk, hname d (hk.tail hstep), Bool.and_self]

theorem callback_connected :
    let n := Naming.ofRoot callback 0 { ignoredPackages := ["lib"] }
    let Arrow d e := (d, e) ∈ Drawing.drawn n (callback.trace 0)
    0 < callback.declarations.size ∧ (n.identifier? 0).isSome ∧ Arrow 1 0
      ∧ Relation.ReflTransGen Arrow 0 1 := by
  intro n Arrow
  have hroot : 0 < callback.declarations.size := by decide
  obtain ⟨hname, -, hconnected⟩ := trace_connected hroot { ignoredPackages := ["lib"] }
  have hreached : callback.Reaches 0 1 := .single ⟨by decide, by decide⟩
  have harrow : Arrow 1 0 :=
    List.mem_filter.2 ⟨mem_edges_trace.2 ⟨hreached, by decide⟩, by decide +kernel⟩
  exact ⟨hroot, hname, harrow, hconnected 1 0 harrow⟩

end Resolver

end CallDiagram
