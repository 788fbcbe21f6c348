import CallDiagram.Proofs.Call.FirstSeen
import CallDiagram.Proofs.Call.Reach
import Mathlib.Data.Finset.Card

namespace CallDiagram.Resolver

def localCallees (r : Resolver) (node : TraceNode) : List DeclarationId :=
  node.callees.filter r.isLocal

def nodeOf (r : Resolver) (d : DeclarationId) : TraceNode := ⟨d, r.directCallees d⟩

def unmarked (r : Resolver) (marked : List DeclarationId) : Nat :=
  (Finset.range r.declarations.size \ marked.toFinset).card

theorem unmarked_append {r : Resolver} {marked found : List DeclarationId} (hfound : found.Nodup)
    (h : ∀ d ∈ found, d < r.declarations.size ∧ d ∉ marked) :
    r.unmarked (marked ++ found) + found.length = r.unmarked marked := by
  have hsub : found.toFinset ⊆ Finset.range r.declarations.size \ marked.toFinset := by
    intro d hd
    simpa using h d (List.mem_toFinset.1 hd)
  rw [unmarked, unmarked, List.toFinset_append, ← Finset.sup_eq_union, ← sdiff_sdiff_left,
    ← List.toFinset_card_of_nodup hfound]
  exact Finset.card_sdiff_add_card_eq_card hsub

/-- Enters the declarations of the queue in turn. Of what each calls, it marks all that is local and not
marked yet, and puts that behind the others. -/
def searchFrom (r : Resolver) (marked : List DeclarationId) : List DeclarationId → List TraceNode
  | [] => []
  | d :: queue =>
    let found := firstSeen marked (r.localCallees (r.nodeOf d))
    r.nodeOf d :: searchFrom r (marked ++ found) (queue ++ found)
termination_by queue => r.unmarked marked + queue.length
decreasing_by
  have hfound : ∀ e ∈ firstSeen marked (r.localCallees (r.nodeOf d)),
      e < r.declarations.size ∧ e ∉ marked := by
    intro e he
    obtain ⟨hcallee, hnew⟩ := mem_firstSeen.1 he
    exact ⟨lt_size_of_isLocal (List.mem_filter.1 hcallee).2, hnew⟩
  have hlt := unmarked_append (nodup_firstSeen marked _) hfound
  simp only [List.length_append, List.length_cons]
  omega

def search (r : Resolver) (root : DeclarationId) : TraceGraph := ⟨r.searchFrom [root] [root]⟩

def marked (r : Resolver) (root : DeclarationId) (nodes : List TraceNode) : List DeclarationId :=
  root :: firstSeen [root] (nodes.flatMap r.localCallees)

theorem marked_concat (r : Resolver) (root : DeclarationId) (nodes : List TraceNode)
    (node : TraceNode) :
    r.marked root (nodes ++ [node])
      = r.marked root nodes ++ firstSeen (r.marked root nodes) (r.localCallees node) := by
  simp [marked, List.flatMap_append, firstSeen_append]

theorem marked_prefix (r : Resolver) (root : DeclarationId) (nodes more : List TraceNode) :
    r.marked root nodes <+: r.marked root (nodes ++ more) := by
  simp [marked, List.flatMap_append, firstSeen_append]

theorem nodes_traceFrom (r : Resolver) (g : TraceGraph) (queue : List DeclarationId) :
    (r.traceFrom g queue).nodes
      = g.nodes ++ r.searchFrom (g.keys ++ firstSeen g.keys queue) (firstSeen g.keys queue) := by
  fun_induction traceFrom r g queue with
  | case1 g => simp [firstSeen, searchFrom]
  | case2 g d queue hd ih =>
    rw [ih, firstSeen_cons_of_mem ((g.contains_iff_mem_keys d).1 hd)]
  | case3 g d queue hd callees entered ih =>
    have hnew : g.contains d = false := by simpa using hd
    have hkey : d ∉ g.keys := fun h => hd ((g.contains_iff_mem_keys d).2 h)
    have hkeys : entered.keys = g.keys ++ [d] := TraceGraph.keys_insert hnew callees
    have hseen : ∀ e ∈ callees.filter r.isLocal, (!entered.contains e) = false →
        e ∈ entered.keys ++ firstSeen entered.keys queue := by
      intro e _ he
      exact List.mem_append_left _ ((entered.contains_iff_mem_keys e).1 (by simpa using he))
    -- the copies left out of the queue would be passed over there
    have hqueue : firstSeen entered.keys
          (queue ++ (callees.filter r.isLocal).filter fun e => !entered.contains e)
        = firstSeen entered.keys queue
          ++ firstSeen (entered.keys ++ firstSeen entered.keys queue) (callees.filter r.isLocal) := by
      rw [firstSeen_append, firstSeen_filter hseen]
    rw [ih, hqueue, firstSeen_cons_of_not_mem hkey, searchFrom, TraceGraph.nodes_insert hnew, hkeys]
    simp [localCallees, nodeOf, callees]

theorem trace_eq_search (r : Resolver) (root : DeclarationId) : r.trace root = r.search root := by
  have h := r.nodes_traceFrom .empty [root]
  have hfirst : firstSeen TraceGraph.empty.keys [root] = [root] :=
    firstSeen_cons_of_not_mem (by simp [TraceGraph.keys, TraceGraph.empty])
  rw [hfirst] at h
  exact congrArg TraceGraph.mk h

theorem keys_searchFrom (r : Resolver) (marked queue : List DeclarationId) :
    (r.searchFrom marked queue).map TraceNode.declaration
      = queue ++ firstSeen marked ((r.searchFrom marked queue).flatMap r.localCallees) := by
  fun_induction searchFrom r marked queue with
  | case1 marked => rfl
  | case2 marked d queue found ih =>
    rw [List.map_cons, ih, List.flatMap_cons, firstSeen_append, List.append_assoc]
    rfl

theorem keys_search (r : Resolver) (root : DeclarationId) :
    (r.search root).keys = r.marked root (r.search root).nodes :=
  r.keys_searchFrom [root] [root]

end CallDiagram.Resolver
