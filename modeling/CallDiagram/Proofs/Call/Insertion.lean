import CallDiagram.Proofs.Call.Reach
import CallDiagram.Data.Table
import Mathlib.Algebra.GroupWithZero.Nat
import Mathlib.Data.List.Induction
import Mathlib.Data.List.Sort

namespace CallDiagram

/-- The first insertion of each declaration, in the order of these first insertions. -/
structure FirstInsertions (inserts nodes : List TraceNode) : Prop where
  declarations : ∀ d, d ∈ nodes.map TraceNode.declaration ↔ d ∈ inserts.map TraceNode.declaration
  ordered : (nodes.map TraceNode.declaration).Pairwise fun d e =>
    (inserts.map TraceNode.declaration).idxOf d < (inserts.map TraceNode.declaration).idxOf e
  first : ∀ node ∈ nodes, inserts.find? (fun other => other.declaration == node.declaration) = some node

namespace FirstInsertions

variable {inserts nodes more : List TraceNode} {node : TraceNode}

theorem nil : FirstInsertions [] [] := ⟨by simp, .nil, by simp⟩

theorem known (h : FirstInsertions inserts nodes)
    (hnode : node.declaration ∈ inserts.map TraceNode.declaration) :
    FirstInsertions (inserts ++ [node]) nodes where
  declarations d := by
    rw [h.declarations, List.map_append, List.mem_append, List.map_singleton, List.mem_singleton]
    refine (or_iff_left_of_imp ?_).symm
    rintro rfl
    exact hnode
  ordered := by
    refine h.ordered.imp_of_mem fun hd he hlt => ?_
    rw [h.declarations] at hd he
    rwa [List.map_append, List.idxOf_append_of_mem hd, List.idxOf_append_of_mem he]
  first other hother := by rw [List.find?_append, h.first other hother, Option.some_or]

theorem new (h : FirstInsertions inserts nodes)
    (hnode : node.declaration ∉ inserts.map TraceNode.declaration) :
    FirstInsertions (inserts ++ [node]) (nodes ++ [node]) where
  declarations d := by simp only [List.map_append, List.mem_append, h.declarations]
  ordered := by
    rw [List.map_append, List.map_append, List.pairwise_append]
    refine ⟨?_, by simp, ?_⟩
    · refine h.ordered.imp_of_mem fun hd he hlt => ?_
      rw [h.declarations] at hd he
      rwa [List.idxOf_append_of_mem hd, List.idxOf_append_of_mem he]
    · intro d hd e he
      obtain rfl : e = node.declaration := by simpa using he
      rw [h.declarations] at hd
      rw [List.idxOf_append_of_mem hd, List.idxOf_append_of_notMem hnode]
      exact Nat.lt_add_right _ (List.idxOf_lt_length_of_mem hd)
  first other hother := by
    rw [List.find?_append]
    rcases List.mem_append.1 hother with hother | hother
    · rw [h.first other hother, Option.some_or]
    · obtain rfl := List.mem_singleton.1 hother
      have hnone : inserts.find? (fun n => n.declaration == other.declaration) = none :=
        List.find?_eq_none.2 fun n hn heq => hnode (List.mem_map.2 ⟨n, hn, by simpa using heq⟩)
      simp [hnone]

theorem find?_eq (h : FirstInsertions inserts nodes) (d : DeclarationId) :
    nodes.find? (fun node => node.declaration == d) = inserts.find? fun node => node.declaration == d := by
  cases hfind : nodes.find? fun node => node.declaration == d with
  | some node =>
    obtain rfl : node.declaration = d := by simpa using List.find?_some hfind
    exact (h.first node (List.mem_of_find?_eq_some hfind)).symm
  | none =>
    refine (List.find?_eq_none.2 fun node hnode hd => ?_).symm
    obtain ⟨other, hother, heq⟩ := List.mem_map.1 ((h.declarations _).2 (List.mem_map_of_mem hnode))
    refine List.find?_eq_none.1 hfind other hother ?_
    rwa [heq]

theorem unique (h : FirstInsertions inserts nodes) (hmore : FirstInsertions inserts more) : nodes = more := by
  have hkeys : nodes.map TraceNode.declaration = more.map TraceNode.declaration := by
    have : Std.Irrefl fun d e : DeclarationId =>
        (inserts.map TraceNode.declaration).idxOf d < (inserts.map TraceNode.declaration).idxOf e :=
      ⟨fun _ => Nat.lt_irrefl _⟩
    have : Std.Antisymm fun d e : DeclarationId =>
        (inserts.map TraceNode.declaration).idxOf d < (inserts.map TraceNode.declaration).idxOf e :=
      ⟨fun _ _ hlt hgt => absurd hgt (Nat.lt_asymm hlt)⟩
    exact h.ordered.eq_of_mem_iff hmore.ordered fun d => by rw [h.declarations, hmore.declarations]
  have hnodes : ∀ {l : List TraceNode}, FirstInsertions inserts l →
      l.map some = (l.map TraceNode.declaration).map fun d => inserts.find? fun node => node.declaration == d := by
    intro l hl
    rw [List.map_map]
    exact List.map_congr_left fun node hnode => (hl.first node hnode).symm
  refine (List.map_inj_right fun _ _ => Option.some.inj).1 ?_
  rw [hnodes h, hnodes hmore, hkeys]

end FirstInsertions

namespace TraceGraph

variable {g : TraceGraph} {inserts : List TraceNode} {node : TraceNode}

def ofInserts (inserts : List TraceNode) : TraceGraph :=
  inserts.foldl (fun g node => (g.insert node.declaration node.callees).2) empty

theorem ofInserts_concat (inserts : List TraceNode) (node : TraceNode) :
    ofInserts (inserts ++ [node]) = ((ofInserts inserts).insert node.declaration node.callees).2 := by
  rw [ofInserts, List.foldl_append]
  rfl

theorem fst_insert (g : TraceGraph) (d : DeclarationId) (callees : List DeclarationId) :
    (g.insert d callees).1 = !g.contains d := by
  rw [insert]
  split
  · next h => simp [h]
  · next h => simp [h]

theorem insert_of_contains {d : DeclarationId} (h : g.contains d = true) (callees : List DeclarationId) :
    g.insert d callees = (false, g) := if_pos h

theorem edgeCount_eq_sum (g : TraceGraph) :
    g.edgeCount = (g.nodes.map fun node => node.callees.length).sum := by
  rw [edgeCount, List.sum_eq_foldr, List.foldr_map]

theorem firstInsertions_ofInserts (inserts : List TraceNode) :
    FirstInsertions inserts (ofInserts inserts).nodes := by
  induction inserts using List.reverseRecOn with
  | nil => exact .nil
  | append_singleton inserts node ih =>
    rw [ofInserts_concat]
    cases hd : (ofInserts inserts).contains node.declaration with
    | true =>
      rw [insert_of_contains hd]
      exact ih.known ((ih.declarations _).1 ((contains_iff_mem_keys _ _).1 hd))
    | false =>
      rw [nodes_insert hd]
      refine ih.new fun hmem => ?_
      rw [(contains_iff_mem_keys _ _).2 ((ih.declarations _).2 hmem)] at hd
      cases hd

theorem contains_ofInserts {d : DeclarationId} :
    (ofInserts inserts).contains d = true ↔ d ∈ inserts.map TraceNode.declaration :=
  (contains_iff_mem_keys _ _).trans ((firstInsertions_ofInserts inserts).declarations d)

end TraceGraph

/-- A graph that looks for declarations only at the places that it has noted for them. -/
structure IndexedGraph where
  nodes : Array TraceNode := #[]
  places : Table DeclarationId Nat := {}

namespace IndexedGraph

def contains (g : IndexedGraph) (d : DeclarationId) : Bool := g.places.contains d

def insert (g : IndexedGraph) (d : DeclarationId) (callees : List DeclarationId) : Bool × IndexedGraph :=
  if g.contains d then (false, g) else (true, ⟨g.nodes.push ⟨d, callees⟩, g.places.set d g.nodes.size⟩)

def callees? (g : IndexedGraph) (d : DeclarationId) : Option (Option (List DeclarationId)) :=
  (g.places.get? d).map fun i => g.nodes[i]?.map TraceNode.callees

def ofInserts (inserts : List TraceNode) : IndexedGraph :=
  inserts.foldl (fun g node => (g.insert node.declaration node.callees).2) {}

/-- Every place that is noted for a declaration holds its node, and every node is noted. -/
def IsCoherent (g : IndexedGraph) : Prop :=
  ∀ d i, g.places.get? d = some i ↔ g.nodes[i]?.map TraceNode.declaration = some d

variable {g : IndexedGraph} {t : TraceGraph} {d : DeclarationId} {inserts : List TraceNode}

theorem ofInserts_concat (inserts : List TraceNode) (node : TraceNode) :
    ofInserts (inserts ++ [node]) = ((ofInserts inserts).insert node.declaration node.callees).2 := by
  rw [ofInserts, List.foldl_append]
  rfl

theorem IsCoherent.contains_iff (h : g.IsCoherent) :
    g.contains d = true ↔ d ∈ g.nodes.toList.map TraceNode.declaration := by
  rw [contains, Table.contains, Option.isSome_iff_exists, List.mem_iff_getElem?]
  refine exists_congr fun i => ?_
  rw [h d i, List.getElem?_map, Array.getElem?_toList]

theorem IsCoherent.insert (h : g.IsCoherent) (d : DeclarationId) (callees : List DeclarationId) :
    (g.insert d callees).2.IsCoherent := by
  rw [IndexedGraph.insert]
  split
  · exact h
  · next hnew =>
    have hplace : g.places.get? d = none := by simpa [contains, Table.contains] using hnew
    intro e i
    rw [Table.get?_set, Array.getElem?_push]
    by_cases he : e = d
    · subst he
      rw [if_pos rfl, Option.some.injEq]
      split
      · next hi => simp [hi]
      · next hi =>
        -- No other node has the new declaration.
        rw [← h e i, hplace]
        simpa using Ne.symm hi
    · rw [if_neg he, h e i]
      split
      · next hi => simp [hi, Ne.symm he]
      · rfl

structure Indexes (g : IndexedGraph) (t : TraceGraph) : Prop where
  nodes : g.nodes.toList = t.nodes
  coherent : g.IsCoherent

namespace Indexes

theorem contains (h : g.Indexes t) (d : DeclarationId) : g.contains d = t.contains d := by
  rw [Bool.eq_iff_iff, h.coherent.contains_iff, TraceGraph.contains_iff_mem_keys, h.nodes]
  rfl

theorem insert (h : g.Indexes t) (d : DeclarationId) (callees : List DeclarationId) :
    (g.insert d callees).1 = (t.insert d callees).1
      ∧ (g.insert d callees).2.Indexes (t.insert d callees).2 := by
  have hcoherent := h.coherent.insert d callees
  rw [IndexedGraph.insert, h.contains] at hcoherent ⊢
  rw [TraceGraph.insert]
  split
  · exact ⟨rfl, h⟩
  · next hnew =>
    rw [if_neg hnew] at hcoherent
    exact ⟨rfl, by simp [h.nodes], hcoherent⟩

theorem callees? (h : g.Indexes t) (d : DeclarationId) : g.callees? d = (t.callees? d).map some := by
  rw [IndexedGraph.callees?, TraceGraph.callees?, ← h.nodes]
  cases hfind : g.nodes.toList.find? fun node => node.declaration == d with
  | some node =>
    obtain ⟨i, hi⟩ := List.getElem?_of_mem (List.mem_of_find?_eq_some hfind)
    obtain rfl : node.declaration = d := by simpa using List.find?_some hfind
    rw [Array.getElem?_toList] at hi
    have hplace : g.places.get? node.declaration = some i := (h.coherent _ i).2 (by rw [hi]; rfl)
    rw [hplace, Option.map_some, hi]
    rfl
  | none =>
    have hplace : g.places.get? d = none := by
      refine Option.eq_none_iff_forall_ne_some.2 fun i hi => ?_
      obtain ⟨node, hnode, hd⟩ := Option.map_eq_some_iff.1 ((h.coherent d i).1 hi)
      rw [← Array.getElem?_toList] at hnode
      exact List.find?_eq_none.1 hfind node (List.mem_of_getElem? hnode) (by simpa using hd)
    rw [hplace]
    rfl

end Indexes

theorem indexes_ofInserts (inserts : List TraceNode) :
    (ofInserts inserts).Indexes (TraceGraph.ofInserts inserts) := by
  induction inserts using List.reverseRecOn with
  | nil => exact ⟨rfl, fun d i => by simp [ofInserts]⟩
  | append_singleton inserts node ih =>
    rw [ofInserts_concat, TraceGraph.ofInserts_concat]
    exact (ih.insert node.declaration node.callees).2

end IndexedGraph

/-- The graph made by insertions is the map of the first ones, and tells of each new insertion whether the
declaration is new. It can be kept with the place of each declaration: the answers are the same, and the
place of a declaration is always that of its node. -/
theorem TraceGraph.ofInserts_keepsFirst (inserts : List TraceNode) :
    let g := ofInserts inserts
    let indexed := IndexedGraph.ofInserts inserts
    (∀ nodes, FirstInsertions inserts nodes ↔ g.nodes = nodes)
      ∧ (∀ d callees, (g.insert d callees).1 = true ↔ d ∉ inserts.map TraceNode.declaration)
      ∧ (∀ d, g.contains d = true ↔ d ∈ g.nodes.map TraceNode.declaration)
      ∧ (∀ d, g.callees? d = (inserts.find? fun node => node.declaration == d).map TraceNode.callees)
      ∧ g.size = g.nodes.length ∧ (g.isEmpty = true ↔ g.nodes = [])
      ∧ g.edgeCount = (g.nodes.map fun node => node.callees.length).sum
      ∧ indexed.nodes.toList = g.nodes ∧ indexed.IsCoherent
      ∧ (∀ d callees, (indexed.insert d callees).1 = (g.insert d callees).1)
      ∧ (∀ d, indexed.contains d = g.contains d)
      ∧ ∀ d, indexed.callees? d = (g.callees? d).map some := by
  intro g indexed
  have hfirst : FirstInsertions inserts g.nodes := firstInsertions_ofInserts inserts
  have hindexed : indexed.Indexes g := IndexedGraph.indexes_ofInserts inserts
  refine ⟨fun nodes => ⟨hfirst.unique, fun h => h ▸ hfirst⟩, fun d callees => ?_,
    fun d => g.contains_iff_mem_keys d, fun d => ?_, rfl, List.isEmpty_iff, g.edgeCount_eq_sum,
    hindexed.nodes, hindexed.coherent, fun d callees => (hindexed.insert d callees).1, hindexed.contains,
    hindexed.callees?⟩
  · rw [fst_insert, ← contains_ofInserts]
    simp [g]
  · rw [callees?, hfirst.find?_eq]

example : (TraceGraph.ofInserts [⟨1, [2]⟩, ⟨2, []⟩, ⟨1, [3, 4]⟩]).nodes = [⟨1, [2]⟩, ⟨2, []⟩] := by decide

end CallDiagram
