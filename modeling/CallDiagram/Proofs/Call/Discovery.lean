import CallDiagram.Proofs.Call.Search
import Mathlib.Data.Prod.Lex

/-!
The order in which declarations are discovered: by the earliest node that calls them, and then by their
place among its callees. Of all graphs that hold what a root reaches, only the trace is in this order.
-/

namespace CallDiagram

namespace TraceGraph

def caller (nodes : List TraceNode) (d : DeclarationId) : ℕ :=
  nodes.findIdx fun node => node.callees.contains d

def firstCall (nodes : List TraceNode) (d : DeclarationId) : ℕ ×ₗ ℕ :=
  toLex (caller nodes d,
    (nodes[caller nodes d]?.map fun node => node.callees.idxOf d).getD 0)

/-- The root comes first, and all others are called by some node and come in the order of their first
calls. -/
structure DiscoveredFrom (g : TraceGraph) (root : DeclarationId) : Prop where
  first : g.keys.head? = some root
  called : ∀ d ∈ g.keys.tail, ∃ node ∈ g.nodes, d ∈ node.callees
  ordered : g.keys.tail.Pairwise fun d e => firstCall g.nodes d < firstCall g.nodes e

section FirstCall

variable {node : TraceNode} {nodes : List TraceNode} {d e : DeclarationId}

theorem caller_cons_of_mem (h : d ∈ node.callees) : caller (node :: nodes) d = 0 := by
  simp [caller, List.findIdx_cons, h]

theorem caller_cons_of_not_mem (h : d ∉ node.callees) :
    caller (node :: nodes) d = caller nodes d + 1 := by
  simp [caller, List.findIdx_cons, h]

theorem firstCall_cons_of_mem (h : d ∈ node.callees) :
    firstCall (node :: nodes) d = toLex (0, node.callees.idxOf d) := by
  simp [firstCall, caller_cons_of_mem h]

theorem firstCall_cons_of_not_mem (h : d ∉ node.callees) :
    firstCall (node :: nodes) d
      = toLex ((ofLex (firstCall nodes d)).1 + 1, (ofLex (firstCall nodes d)).2) := by
  simp [firstCall, caller_cons_of_not_mem h]

theorem firstCall_cons_lt (hd : d ∉ node.callees) (he : e ∉ node.callees)
    (h : firstCall nodes d < firstCall nodes e) :
    firstCall (node :: nodes) d < firstCall (node :: nodes) e := by
  rw [firstCall_cons_of_not_mem hd, firstCall_cons_of_not_mem he, Prod.Lex.toLex_lt_toLex]
  refine (Prod.Lex.lt_iff.1 h).imp (fun h => ?_) (fun h => ⟨?_, h.2⟩)
  · exact Nat.succ_lt_succ h
  · exact congrArg Nat.succ h.1

end FirstCall

theorem pairwise_idxOf {l : List DeclarationId} (h : l.Nodup) :
    l.Pairwise fun d e => l.idxOf d < l.idxOf e := by
  refine List.pairwise_iff_getElem.2 fun i j hi hj hij => ?_
  rwa [h.idxOf_getElem, h.idxOf_getElem]

end TraceGraph

namespace Resolver

open TraceGraph (firstCall)

structure Lists (r : Resolver) (root : DeclarationId) (g : TraceGraph) : Prop where
  nodup : g.keys.Nodup
  reached : ∀ d, d ∈ g.keys ↔ r.Reaches root d
  callees : ∀ node ∈ g.nodes, node.callees = r.directCallees node.declaration

variable {r : Resolver} {root d : DeclarationId} {g : TraceGraph} {nodes : List TraceNode}

theorem lists_trace (r : Resolver) (root : DeclarationId) : r.Lists root (r.trace root) where
  nodup := (r.tracing_trace root).nodup
  reached _ := mem_keys_trace_iff
  callees := (r.tracing_trace root).callees

theorem mem_localCallees {node : TraceNode} (h : node.callees = r.directCallees node.declaration) :
    d ∈ r.localCallees node ↔ r.LocalCallee node.declaration d := by
  rw [localCallees, List.mem_filter, h]
  rfl

theorem pairwise_firstSeen (hnodes : ∀ node ∈ nodes, node.callees.Nodup)
    (seen : List DeclarationId) :
    (firstSeen seen (nodes.flatMap r.localCallees)).Pairwise
      fun d e => firstCall nodes d < firstCall nodes e := by
  induction nodes generalizing seen with
  | nil => exact .nil
  | cons node nodes ih =>
    have hmem : ∀ d ∈ firstSeen seen (r.localCallees node), d ∈ node.callees := fun d hd =>
      List.mem_of_mem_filter (mem_firstSeen.1 hd).1
    have hlater : ∀ d ∈ firstSeen (seen ++ firstSeen seen (r.localCallees node))
        (nodes.flatMap r.localCallees), d ∉ node.callees := by
      intro d hd hcall
      obtain ⟨hin, hnew⟩ := mem_firstSeen.1 hd
      obtain ⟨later, -, hlocal⟩ := List.mem_flatMap.1 hin
      have hd : d ∈ r.localCallees node := List.mem_filter.2 ⟨hcall, (List.mem_filter.1 hlocal).2⟩
      by_cases hseen : d ∈ seen
      · exact hnew (List.mem_append_left _ hseen)
      · exact hnew (List.mem_append_right _ (mem_firstSeen.2 ⟨hd, hseen⟩))
    rw [List.flatMap_cons, firstSeen_append, List.pairwise_append]
    refine ⟨?_, ?_, ?_⟩
    · have hsub : (firstSeen seen (r.localCallees node)).Sublist node.callees :=
        (firstSeen_sublist _ _).trans List.filter_sublist
      refine ((TraceGraph.pairwise_idxOf (hnodes node List.mem_cons_self)).sublist hsub).imp_of_mem
        fun hd he hlt => ?_
      rw [TraceGraph.firstCall_cons_of_mem (hmem _ hd), TraceGraph.firstCall_cons_of_mem (hmem _ he)]
      exact Prod.Lex.toLex_lt_toLex.2 (.inr ⟨rfl, hlt⟩)
    · refine (ih (fun later h => hnodes later (List.mem_cons_of_mem node h)) _).imp_of_mem
        fun hd he hlt => ?_
      exact TraceGraph.firstCall_cons_lt (hlater _ hd) (hlater _ he) hlt
    · intro d hd e he
      rw [TraceGraph.firstCall_cons_of_mem (hmem d hd),
        TraceGraph.firstCall_cons_of_not_mem (hlater e he)]
      exact Prod.Lex.toLex_lt_toLex.2 (.inl (Nat.succ_pos _))

namespace Lists

theorem nodup_callees (h : r.Lists root g) : ∀ node ∈ g.nodes, node.callees.Nodup := by
  intro node hnode
  rw [h.callees node hnode]
  exact nodup_directCallees r _

theorem mem_flatMap_localCallees (h : r.Lists root g) :
    d ∈ g.nodes.flatMap r.localCallees ↔ ∃ k, r.Reaches root k ∧ r.LocalCallee k d := by
  rw [List.mem_flatMap]
  constructor
  · rintro ⟨node, hnode, hd⟩
    exact ⟨_, (h.reached _).1 (List.mem_map_of_mem hnode), (mem_localCallees (h.callees node hnode)).1 hd⟩
  · rintro ⟨k, hk, hd⟩
    obtain ⟨node, hnode, rfl⟩ := List.mem_map.1 ((h.reached k).2 hk)
    exact ⟨node, hnode, (mem_localCallees (h.callees node hnode)).2 hd⟩

theorem mem_tail (h : r.Lists root g) (hfirst : g.keys.head? = some root) :
    d ∈ g.keys.tail ↔ r.Reaches root d ∧ d ≠ root := by
  obtain ⟨rest, hkeys⟩ := List.head?_eq_some_iff.1 hfirst
  have hnodup := h.nodup
  rw [hkeys, List.nodup_cons] at hnodup
  rw [← h.reached d, hkeys, List.tail_cons, List.mem_cons]
  constructor
  · intro hd
    refine ⟨.inr hd, ?_⟩
    rintro rfl
    exact hnodup.1 hd
  · rintro ⟨hd, hne⟩
    exact hd.resolve_left hne

theorem mem_firstSeen_localCallees (h : r.Lists root g) :
    d ∈ firstSeen [root] (g.nodes.flatMap r.localCallees) ↔ r.Reaches root d ∧ d ≠ root := by
  rw [mem_firstSeen, h.mem_flatMap_localCallees, List.mem_singleton]
  refine and_congr_left fun hne => ?_
  constructor
  · rintro ⟨k, hk, hd⟩
    exact hk.tail hd
  · intro hd
    cases hd with
    | refl => exact absurd rfl hne
    | tail hk hd => exact ⟨_, hk, hd⟩

theorem discoveredFrom_iff (h : r.Lists root g) :
    g.DiscoveredFrom root ↔ g.keys = r.marked root g.nodes := by
  have hordered := pairwise_firstSeen (r := r) h.nodup_callees [root]
  constructor
  · intro hg
    obtain ⟨rest, hkeys⟩ := List.head?_eq_some_iff.1 hg.first
    have hrest : rest = g.keys.tail := by rw [hkeys, List.tail_cons]
    rw [hkeys, hrest]
    refine congrArg _ (List.Perm.eq_of_pairwise (fun d e _ _ hde hed => ?_) hg.ordered hordered ?_)
    · exact absurd hed (lt_asymm hde)
    · refine (List.perm_ext_iff_of_nodup ?_ (nodup_firstSeen _ _)).2 fun d => ?_
      · exact h.nodup.tail
      · rw [h.mem_tail hg.first, h.mem_firstSeen_localCallees]
  · intro hkeys
    constructor
    case first => rw [hkeys, marked, List.head?_cons]
    case called =>
      intro d hd
      rw [hkeys, marked, List.tail_cons] at hd
      obtain ⟨node, hnode, hd⟩ := List.mem_flatMap.1 (mem_firstSeen.1 hd).1
      exact ⟨node, hnode, List.mem_of_mem_filter hd⟩
    case ordered => rwa [hkeys, marked, List.tail_cons]

theorem length_lt_marked {done rest : List TraceNode} {node : TraceNode}
    (h : r.Lists root ⟨done ++ node :: rest⟩)
    (hkeys : (TraceGraph.mk (done ++ node :: rest)).keys = r.marked root (done ++ node :: rest)) :
    done.length < (r.marked root done).length := by
  by_contra hlen
  have hdone : r.marked root done <+: done.map TraceNode.declaration := by
    have hall : done.map TraceNode.declaration <+: r.marked root (done ++ node :: rest) := by
      rw [← hkeys]
      exact (List.prefix_append done _).map _
    exact List.prefix_of_prefix_length_le (r.marked_prefix root done _) hall (by simpa using hlen)
  -- what is entered would then be closed, and so be all that there is
  have hclosed : r.IsClosed {d | d ∈ done.map TraceNode.declaration} := by
    rintro k hk e he hl
    obtain ⟨caller, hcaller, rfl⟩ := List.mem_map.1 hk
    have he' : e ∈ r.localCallees caller :=
      (mem_localCallees (h.callees caller (List.mem_append_left _ hcaller))).2 ⟨he, hl⟩
    refine hdone.subset ?_
    by_cases hroot : e = root
    · exact hroot ▸ List.mem_cons_self
    · refine List.mem_cons_of_mem root (mem_firstSeen.2 ⟨?_, by simpa using hroot⟩)
      exact List.mem_flatMap.2 ⟨caller, hcaller, he'⟩
  have hnode : node.declaration ∈ done.map TraceNode.declaration := by
    refine hclosed.mem_of_reaches (hdone.subset List.mem_cons_self) ((h.reached _).1 ?_)
    exact List.mem_map_of_mem (List.mem_append_right _ List.mem_cons_self)
  have hnodup := h.nodup
  rw [TraceGraph.keys, List.map_append, List.nodup_append] at hnodup
  exact hnodup.2.2 _ hnode _ List.mem_cons_self rfl

theorem eq_searchFrom (done rest : List TraceNode) (h : r.Lists root ⟨done ++ rest⟩)
    (hkeys : (TraceGraph.mk (done ++ rest)).keys = r.marked root (done ++ rest)) :
    rest = r.searchFrom (r.marked root done) ((r.marked root done).drop done.length) := by
  induction rest generalizing done with
  | nil =>
    have hlen : (r.marked root done).length ≤ done.length := by
      rw [List.append_nil] at hkeys
      rw [← hkeys, TraceGraph.keys, List.length_map]
    rw [List.drop_eq_nil_of_le hlen, searchFrom]
  | cons node rest ih =>
    have hlt := h.length_lt_marked hkeys
    have hnode : r.nodeOf node.declaration = node := by
      rw [nodeOf, ← h.callees node (List.mem_append_right _ List.mem_cons_self)]
    have hnext : (r.marked root done)[done.length] = node.declaration := by
      rw [(r.marked_prefix root done (node :: rest)).getElem hlt]
      simp [← hkeys, TraceGraph.keys]
    rw [List.append_cons] at h hkeys
    have hrest := ih (done ++ [node]) h hkeys
    rw [List.drop_eq_getElem_cons hlt, hnext, searchFrom, hnode]
    rw [marked_concat, List.length_append, List.length_singleton,
      List.drop_append_of_le_length hlt] at hrest
    exact congrArg _ hrest

theorem eq_search_iff (h : r.Lists root g) : g = r.search root ↔ g.DiscoveredFrom root := by
  rw [h.discoveredFrom_iff]
  constructor
  · rintro rfl
    exact r.keys_search root
  · intro hkeys
    exact congrArg TraceGraph.mk (eq_searchFrom [] g.nodes h hkeys)

end Lists

end Resolver

end CallDiagram
