import CallDiagram.Proofs.Call.Discovery
import Mathlib.Order.Lattice.Nat

namespace CallDiagram.Resolver

inductive ReachesIn (r : Resolver) (root : DeclarationId) : ℕ → DeclarationId → Prop
  | root : ReachesIn r root 0 root
  | step {n : ℕ} {d e : DeclarationId} : ReachesIn r root n d → r.LocalCallee d e →
      ReachesIn r root (n + 1) e

noncomputable def distance (r : Resolver) (root d : DeclarationId) : ℕ :=
  sInf {n | r.ReachesIn root n d}

def Within (r : Resolver) (root : DeclarationId) (n : ℕ) (d : DeclarationId) : Prop :=
  ∃ m ≤ n, r.ReachesIn root m d

variable {r : Resolver} {root d e : DeclarationId} {g : TraceGraph} {n : ℕ}

theorem exists_reachesIn (h : r.Reaches root d) : ∃ n, r.ReachesIn root n d := by
  induction h with
  | refl => exact ⟨0, .root⟩
  | tail _ hstep ih =>
    obtain ⟨n, hn⟩ := ih
    exact ⟨n + 1, hn.step hstep⟩

theorem ReachesIn.reaches (h : r.ReachesIn root n d) : r.Reaches root d := by
  induction h with
  | root => exact .refl
  | step _ hstep ih => exact ih.tail hstep

theorem isLeast_distance (h : r.Reaches root d) :
    IsLeast {n | r.ReachesIn root n d} (r.distance root d) :=
  ⟨Nat.sInf_mem (exists_reachesIn h), fun _ hn => Nat.sInf_le hn⟩

namespace Within

theorem self (n : ℕ) : r.Within root n root := ⟨0, Nat.zero_le n, .root⟩

theorem reaches (h : r.Within root n d) : r.Reaches root d :=
  let ⟨_, _, hd⟩ := h
  hd.reaches

theorem step (h : r.Within root n d) (hstep : r.LocalCallee d e) : r.Within root (n + 1) e :=
  let ⟨m, hm, hd⟩ := h
  ⟨m + 1, Nat.succ_le_succ hm, hd.step hstep⟩

theorem eq_root (h : r.Within root 0 d) : d = root := by
  obtain ⟨m, hm, hd⟩ := h
  cases hd with
  | root => rfl
  | step => exact absurd hm (Nat.not_succ_le_zero _)

theorem of_succ (h : r.Within root (n + 1) e) (hne : e ≠ root) :
    ∃ d, r.Within root n d ∧ r.LocalCallee d e := by
  obtain ⟨m, hm, he⟩ := h
  cases he with
  | root => exact absurd rfl hne
  | step hd hstep => exact ⟨_, ⟨_, Nat.le_of_succ_le_succ hm, hd⟩, hstep⟩

end Within

namespace Lists

theorem exists_caller (h : r.Lists root g) (hg : g.DiscoveredFrom root) (hd : d ∈ g.keys.tail) :
    ∃ hi : TraceGraph.caller g.nodes d < g.keys.length,
      r.LocalCallee g.keys[TraceGraph.caller g.nodes d] d := by
  obtain ⟨node, hnode, hcall⟩ := hg.called d hd
  have hi : TraceGraph.caller g.nodes d < g.nodes.length :=
    List.findIdx_lt_length_of_exists ⟨node, hnode, by simpa using hcall⟩
  have hcalls : d ∈ g.nodes[TraceGraph.caller g.nodes d].callees :=
    List.contains_iff_mem.1 (List.findIdx_getElem (w := hi))
  refine ⟨by simpa [TraceGraph.keys] using hi, ?_, ?_⟩
  · rw [h.callees _ (List.getElem_mem hi)] at hcalls
    simpa [TraceGraph.keys] using hcalls
  · obtain ⟨hreached, hne⟩ := (h.mem_tail hg.first).1 hd
    exact isLocal_of_reaches hreached hne

theorem caller_le (h : r.Lists root g) {i : ℕ} (hi : i < g.keys.length)
    (hstep : r.LocalCallee g.keys[i] d) : TraceGraph.caller g.nodes d ≤ i := by
  by_contra hlt
  have hi' : i < g.nodes.length := by simpa [TraceGraph.keys] using hi
  have hcall : d ∈ g.nodes[i].callees := by
    rw [h.callees _ (List.getElem_mem hi')]
    simpa [TraceGraph.keys] using hstep.1
  have hnot := List.not_of_lt_findIdx (Nat.lt_of_not_le hlt)
  exact absurd (List.contains_iff_mem.2 hcall) (by simpa using hnot)

theorem pairwise_within (h : r.Lists root g) (hg : g.DiscoveredFrom root) (n : ℕ) :
    g.keys.Pairwise fun d e => r.Within root n e → r.Within root n d := by
  obtain ⟨rest, hkeys⟩ := List.head?_eq_some_iff.1 hg.first
  have hrest : rest = g.keys.tail := by rw [hkeys, List.tail_cons]
  have hall : ∀ m, (g.keys.tail.Pairwise fun d e => r.Within root m e → r.Within root m d) →
      g.keys.Pairwise fun d e => r.Within root m e → r.Within root m d := by
    intro m htail
    rw [hkeys, List.pairwise_cons]
    exact ⟨fun _ _ _ => .self m, hrest ▸ htail⟩
  refine hall n ?_
  induction n with
  | zero =>
    refine hg.ordered.imp_of_mem fun _ he _ hwithin => ?_
    exact absurd hwithin.eq_root ((h.mem_tail hg.first).1 he).2
  | succ n ih =>
    refine hg.ordered.imp_of_mem fun {d e} hd he hlt hwithin => ?_
    obtain ⟨f, hf, hstep⟩ := hwithin.of_succ ((h.mem_tail hg.first).1 he).2
    obtain ⟨j, hj, rfl⟩ := List.getElem_of_mem ((h.reached f).2 hf.reaches)
    obtain ⟨hi, hcall⟩ := h.exists_caller hg hd
    have hij : TraceGraph.caller g.nodes d ≤ j :=
      le_trans ((Prod.Lex.lt_iff.1 hlt).elim le_of_lt fun h => le_of_eq h.1) (h.caller_le hj hstep)
    refine Within.step ?_ hcall
    rcases Nat.lt_or_eq_of_le hij with hij | hij
    · exact List.pairwise_iff_getElem.1 (hall n ih) _ j hi hj hij hf
    · simpa only [hij] using hf

end Lists

/-- The trace is the graph that the textbook search finds. That is the only graph of what the root reaches
in which the root comes first, and each other declaration at its first call: after all that an earlier
node calls, or the same node at an earlier place. Along it, the length of the shortest way from the root
never falls. -/
theorem trace_breadthFirst (r : Resolver) (root : DeclarationId) :
    r.trace root = r.search root
      ∧ (r.trace root).DiscoveredFrom root
      ∧ (∀ g, r.Lists root g → (g = r.search root ↔ g.DiscoveredFrom root))
      ∧ (∀ d ∈ (r.trace root).keys, IsLeast {n | r.ReachesIn root n d} (r.distance root d))
      ∧ (r.trace root).keys.Pairwise fun d e => r.distance root d ≤ r.distance root e := by
  have hlists := r.lists_trace root
  have hdiscovered : (r.trace root).DiscoveredFrom root :=
    hlists.eq_search_iff.1 (r.trace_eq_search root)
  have hleast : ∀ d ∈ (r.trace root).keys,
      IsLeast {n | r.ReachesIn root n d} (r.distance root d) := fun d hd =>
    isLeast_distance ((hlists.reached d).1 hd)
  refine ⟨r.trace_eq_search root, hdiscovered, fun _ hg => hg.eq_search_iff, hleast, ?_⟩
  refine List.pairwise_iff_getElem.2 fun i j hi hj hij => ?_
  have hwithin := List.pairwise_iff_getElem.1
    (hlists.pairwise_within hdiscovered (r.distance root (r.trace root).keys[j])) i j hi hj hij
  obtain ⟨m, hm, hreach⟩ := hwithin ⟨_, le_rfl, (hleast _ (List.getElem_mem hj)).1⟩
  exact le_trans ((hleast _ (List.getElem_mem hi)).2 hreach) hm

end CallDiagram.Resolver
