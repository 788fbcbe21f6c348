import CallDiagram.Call.Trace
import Mathlib.Logic.Function.Iterate
import Mathlib.Logic.Relation
import Mathlib.Order.Bounds.Defs

namespace CallDiagram

namespace TraceGraph

def keys (g : TraceGraph) : List DeclarationId := g.nodes.map TraceNode.declaration

theorem contains_iff_mem_keys (g : TraceGraph) (d : DeclarationId) :
    g.contains d = true ↔ d ∈ g.keys := by
  simp [contains, keys]

theorem nodes_insert {g : TraceGraph} {d : DeclarationId} (h : g.contains d = false)
    (callees : List DeclarationId) : (g.insert d callees).2.nodes = g.nodes ++ [⟨d, callees⟩] := by
  simp [insert, h]

theorem keys_insert {g : TraceGraph} {d : DeclarationId} (h : g.contains d = false)
    (callees : List DeclarationId) : (g.insert d callees).2.keys = g.keys ++ [d] := by
  simp [keys, nodes_insert h]

theorem edgeCount_append (nodes more : List TraceNode) :
    edgeCount ⟨nodes ++ more⟩ = edgeCount ⟨nodes⟩ + edgeCount ⟨more⟩ := by
  induction nodes with
  | nil => simp [edgeCount]
  | cons node nodes ih =>
    simp only [edgeCount, List.cons_append, List.foldr_cons] at ih ⊢
    rw [ih, Nat.add_assoc]

theorem edgeCount_insert {g : TraceGraph} {d : DeclarationId} (h : g.contains d = false)
    (callees : List DeclarationId) :
    (g.insert d callees).2.edgeCount = g.edgeCount + callees.length := by
  have hnodes : (g.insert d callees).2 = ⟨g.nodes ++ [⟨d, callees⟩]⟩ := by simp [insert, h]
  rw [hnodes, edgeCount_append]
  rfl

end TraceGraph

namespace Resolver

def LocalCallee (r : Resolver) (d e : DeclarationId) : Prop :=
  e ∈ r.directCallees d ∧ r.isLocal e = true

def IsClosed (r : Resolver) (s : Set DeclarationId) : Prop :=
  ∀ d ∈ s, ∀ e ∈ r.directCallees d, r.isLocal e = true → e ∈ s

def Reaches (r : Resolver) : DeclarationId → DeclarationId → Prop :=
  Relation.ReflTransGen r.LocalCallee

theorem IsClosed.mem_of_reaches {r : Resolver} {s : Set DeclarationId} (hs : r.IsClosed s)
    {d e : DeclarationId} (hd : d ∈ s) (h : r.Reaches d e) : e ∈ s := by
  induction h with
  | refl => exact hd
  | tail _ h ih => exact hs _ ih _ h.1 h.2

theorem isLocal_of_reaches {r : Resolver} {d e : DeclarationId} (h : r.Reaches d e) (hne : e ≠ d) :
    r.isLocal e = true := by
  cases h with
  | refl => exact absurd rfl hne
  | tail _ h => exact h.2

/-- One round of the trace: the front of the queue is entered, unless that was done before. -/
def round (r : Resolver) : TraceGraph × List DeclarationId → TraceGraph × List DeclarationId
  | (g, []) => (g, [])
  | (g, d :: queue) =>
    if g.contains d then (g, queue)
    else
      let entered := (g.insert d (r.directCallees d)).2
      (entered,
        queue ++ ((r.directCallees d).filter r.isLocal).filter fun e => !entered.contains e)

/-- What holds whenever the front of the queue is about to be looked at. -/
structure Tracing (r : Resolver) (root : DeclarationId) (g : TraceGraph)
    (queue : List DeclarationId) : Prop where
  nodup : g.keys.Nodup
  callees : ∀ node ∈ g.nodes, node.callees = r.directCallees node.declaration
  rooted : root ∈ g.keys ∨ root ∈ queue
  reached : ∀ d, d ∈ g.keys ∨ d ∈ queue → r.Reaches root d
  pending : ∀ d ∈ g.keys, ∀ e, r.LocalCallee d e → e ∈ g.keys ∨ e ∈ queue

namespace Tracing

variable {r : Resolver} {root d : DeclarationId} {g : TraceGraph} {queue : List DeclarationId}

theorem start (r : Resolver) (root : DeclarationId) : r.Tracing root .empty [root] where
  nodup := by simp [TraceGraph.keys, TraceGraph.empty]
  callees := by simp [TraceGraph.empty]
  rooted := by simp
  reached := by
    intro d hd
    obtain rfl : d = root := by simpa [TraceGraph.keys, TraceGraph.empty] using hd
    exact .refl
  pending := by simp [TraceGraph.keys, TraceGraph.empty]

theorem skip (h : r.Tracing root g (d :: queue)) (hd : d ∈ g.keys) : r.Tracing root g queue where
  nodup := h.nodup
  callees := h.callees
  rooted := by
    cases h.rooted with
    | inl hr => exact .inl hr
    | inr hr =>
      rcases List.mem_cons.1 hr with rfl | hr
      · exact .inl hd
      · exact .inr hr
  reached e he := h.reached e (he.imp_right (List.mem_cons_of_mem d))
  pending k hk e he := by
    cases h.pending k hk e he with
    | inl hk => exact .inl hk
    | inr hk =>
      rcases List.mem_cons.1 hk with rfl | hk
      · exact .inl hd
      · exact .inr hk

theorem enter (h : r.Tracing root g (d :: queue)) (hd : g.contains d = false) :
    let entered := (g.insert d (r.directCallees d)).2
    r.Tracing root entered
      (queue ++ ((r.directCallees d).filter r.isLocal).filter fun e => !entered.contains e) := by
  intro entered
  have hkeys : entered.keys = g.keys ++ [d] := TraceGraph.keys_insert hd _
  have hnew : d ∉ g.keys := by simpa [← TraceGraph.contains_iff_mem_keys] using hd
  have hpending : ∀ e, r.LocalCallee d e → e ∈ entered.keys ∨
      e ∈ ((r.directCallees d).filter r.isLocal).filter fun e => !entered.contains e := by
    intro e he
    by_cases hin : e ∈ entered.keys
    · exact .inl hin
    · refine .inr (List.mem_filter.2 ⟨List.mem_filter.2 he, ?_⟩)
      rw [← TraceGraph.contains_iff_mem_keys] at hin
      simpa using hin
  have hroot : r.Reaches root d := h.reached d (.inr List.mem_cons_self)
  constructor
  case nodup =>
    rw [hkeys, List.nodup_append]
    refine ⟨h.nodup, by simp, ?_⟩
    rintro a ha b hb rfl
    exact hnew (by rwa [List.mem_singleton.1 hb] at ha)
  case callees =>
    intro node hnode
    rw [TraceGraph.nodes_insert hd, List.mem_append, List.mem_singleton] at hnode
    rcases hnode with hnode | rfl
    · exact h.callees node hnode
    · rfl
  case rooted =>
    rw [hkeys, List.mem_append, List.mem_append]
    cases h.rooted with
    | inl hr => exact .inl (.inl hr)
    | inr hr =>
      rcases List.mem_cons.1 hr with rfl | hr
      · exact .inl (.inr List.mem_cons_self)
      · exact .inr (.inl hr)
  case reached =>
    intro e he
    rw [hkeys, List.mem_append, List.mem_append] at he
    rcases he with (he | he) | (he | he)
    · exact h.reached e (.inl he)
    · rwa [List.mem_singleton.1 he]
    · exact h.reached e (.inr (List.mem_cons_of_mem d he))
    · exact hroot.tail (List.mem_filter.1 (List.mem_filter.1 he).1)
  case pending =>
    intro k hk e he
    rw [List.mem_append]
    rw [hkeys, List.mem_append] at hk
    cases hk with
    | inl hk =>
      rw [hkeys, List.mem_append, List.mem_singleton]
      cases h.pending k hk e he with
      | inl hin => exact .inl (.inl hin)
      | inr hin =>
        rcases List.mem_cons.1 hin with rfl | hin
        · exact .inl (.inr rfl)
        · exact .inr (.inl hin)
    | inr hk =>
      obtain rfl : k = d := List.mem_singleton.1 hk
      exact (hpending e he).imp_right .inr

theorem round (h : r.Tracing root g queue) :
    r.Tracing root (r.round (g, queue)).1 (r.round (g, queue)).2 := by
  cases queue with
  | nil => exact h
  | cons d queue =>
    simp only [Resolver.round]
    split
    · next hd => exact h.skip ((g.contains_iff_mem_keys d).1 hd)
    · next hd => exact h.enter (by simpa using hd)

end Tracing

theorem exists_iterate_round (r : Resolver) (g : TraceGraph) (queue : List DeclarationId) :
    ∃ n, r.round^[n] (g, queue) = (r.traceFrom g queue, [])
      ∧ n + g.edgeCount ≤ queue.length + (r.traceFrom g queue).edgeCount := by
  fun_induction traceFrom r g queue with
  | case1 g => exact ⟨0, rfl, by simp⟩
  | case2 g d queue hd ih =>
    obtain ⟨n, hn, hle⟩ := ih
    refine ⟨n + 1, ?_, by simp only [List.length_cons]; omega⟩
    rw [Function.iterate_succ_apply, round, if_pos hd, hn]
  | case3 g d queue hd callees entered ih =>
    obtain ⟨n, hn, hle⟩ := ih
    refine ⟨n + 1, ?_, ?_⟩
    · rw [Function.iterate_succ_apply, round, if_neg hd]
      exact hn
    · have hedges : entered.edgeCount = g.edgeCount + callees.length :=
        TraceGraph.edgeCount_insert (by simpa using hd) _
      have hfilter : ((callees.filter r.isLocal).filter fun e => !entered.contains e).length
          ≤ callees.length :=
        Nat.le_trans (List.length_filter_le _ _) (List.length_filter_le _ _)
      simp only [List.length_append, List.length_cons] at hle ⊢
      omega

theorem tracing_iterate {r : Resolver} {root : DeclarationId} (n : Nat) :
    r.Tracing root (r.round^[n] (.empty, [root])).1 (r.round^[n] (.empty, [root])).2 := by
  induction n with
  | zero => exact .start r root
  | succ n ih =>
    rw [Function.iterate_succ_apply']
    exact ih.round

theorem tracing_trace (r : Resolver) (root : DeclarationId) :
    r.Tracing root (r.trace root) [] := by
  obtain ⟨n, hn, -⟩ := r.exists_iterate_round .empty [root]
  have h : r.Tracing root _ _ := tracing_iterate n
  rwa [hn] at h

theorem mem_keys_trace_iff {r : Resolver} {root d : DeclarationId} :
    d ∈ (r.trace root).keys ↔ r.Reaches root d := by
  have h := r.tracing_trace root
  constructor
  · exact fun hd => h.reached d (.inl hd)
  · intro hd
    have hclosed : r.IsClosed {e | e ∈ (r.trace root).keys} := fun k hk e he hl =>
      (h.pending k hk e ⟨he, hl⟩).resolve_right List.not_mem_nil
    exact hclosed.mem_of_reaches (h.rooted.resolve_right List.not_mem_nil) hd

/-- A trace ends after at most one round for the root and one for each arrow. It enters exactly the
least closed set that holds the root, each declaration once and with all that it calls; of foreign
declarations it can enter the root alone. -/
theorem trace_isLeast (r : Resolver) (root : DeclarationId) :
    (∃ n ≤ (r.trace root).edgeCount + 1,
        r.round^[n] (.empty, [root]) = (r.trace root, []))
      ∧ IsLeast {s : Set DeclarationId | root ∈ s ∧ r.IsClosed s} {d | d ∈ (r.trace root).keys}
      ∧ (r.trace root).keys.Nodup
      ∧ (∀ node ∈ (r.trace root).nodes, node.callees = r.directCallees node.declaration)
      ∧ ∀ d ∈ (r.trace root).keys, d ≠ root → r.isLocal d = true := by
  have h := r.tracing_trace root
  refine ⟨?_, ⟨⟨?_, ?_⟩, ?_⟩, h.nodup, h.callees, ?_⟩
  · obtain ⟨n, hn, hle⟩ := r.exists_iterate_round .empty [root]
    refine ⟨n, ?_, hn⟩
    have hempty : TraceGraph.empty.edgeCount = 0 := rfl
    rw [hempty, List.length_singleton, Nat.add_comm 1] at hle
    exact hle
  · exact mem_keys_trace_iff.2 .refl
  · intro d hd e he hl
    exact mem_keys_trace_iff.2 ((mem_keys_trace_iff.1 hd).tail ⟨he, hl⟩)
  · rintro s ⟨hroot, hs⟩ d hd
    exact hs.mem_of_reaches hroot (mem_keys_trace_iff.1 hd)
  · exact fun d hd hne => isLocal_of_reaches (mem_keys_trace_iff.1 hd) hne

end Resolver

end CallDiagram
