import CallDiagram.Source.Node

namespace CallDiagram.Node

variable {n : Node} {nodes : List Node} {ways : List (List Nat)} {way : List Nat} {i k : Nat}

theorem sizeOf_le_weight (h : n ∈ nodes) : sizeOf n ≤ weight nodes := by
  induction nodes with
  | nil => cases h
  | cons m nodes ih =>
    rw [weight_cons]
    rcases List.mem_cons.1 h with rfl | h
    · exact Nat.le_add_right _ _
    · exact Nat.le_add_left_of_le (ih h)

theorem sizeOf_lt_of_mem_children {part : Node} (h : part ∈ n.children) : sizeOf part < sizeOf n :=
  Nat.lt_of_le_of_lt (sizeOf_le_weight h) (weight_children_lt n)

theorem induct {P : Node → Prop} (step : ∀ n, (∀ part ∈ n.children, P part) → P n) (n : Node) : P n :=
  step n fun part _ => induct step part
termination_by sizeOf n
decreasing_by exact sizeOf_lt_of_mem_children ‹_›

def preorder (n : Node) : List Node := n :: n.children.attach.flatMap fun part => preorder part.1
termination_by sizeOf n
decreasing_by exact sizeOf_lt_of_mem_children part.2

theorem preorder_eq (n : Node) : n.preorder = n :: n.children.flatMap preorder := by
  rw [preorder]
  simp only [List.flatMap_subtype, List.unattach_attach]

theorem walk_eq (stack : List Node) : walk stack = stack.flatMap preorder := by
  induction stack using walk.induct with
  | case1 => rw [walk, List.flatMap_nil]
  | case2 n stack ih => rw [walk, ih, List.flatMap_append, List.flatMap_cons, preorder_eq, List.cons_append]

section Places

def at? : Node → List Nat → Option Node
  | n, [] => some n
  | n, i :: way => n.children[i]?.bind (at? · way)

def atAmong? (k : Nat) (nodes : List Node) : List Nat → Option Node
  | [] => none
  | i :: way => if k ≤ i then nodes[i - k]?.bind (at? · way) else none

theorem atAmong?_self : atAmong? k (n :: nodes) (k :: way) = n.at? way := by simp [atAmong?]

theorem atAmong?_of_lt (h : k < i) :
    atAmong? k (n :: nodes) (i :: way) = atAmong? (k + 1) nodes (i :: way) := by
  have hskip : i - k = i - (k + 1) + 1 := by omega
  rw [atAmong?, atAmong?, if_pos (Nat.le_of_lt h), if_pos (Nat.succ_le_of_lt h), hskip,
    List.getElem?_cons_succ]

theorem exists_cons_of_atAmong? (h : (atAmong? k nodes way).isSome) :
    ∃ i rest, way = i :: rest ∧ k ≤ i := by
  cases way with
  | nil => cases h
  | cons i rest =>
    by_cases hk : k ≤ i
    · exact ⟨i, rest, rfl, hk⟩
    · rw [atAmong?, if_neg hk] at h
      cases h

/-- All places where there is a piece, from the first to the last, with what is there. -/
structure Places (at? : List Nat → Option Node) (ways : List (List Nat)) (nodes : List Node) : Prop where
  ordered : ways.Pairwise (· < ·)
  found : ways.map at? = nodes.map some
  complete : ∀ way, (at? way).isSome → way ∈ ways

theorem Places.isSome {at? : List Nat → Option Node} (h : Places at? ways nodes) (hway : way ∈ ways) :
    (at? way).isSome := by
  have hmem : at? way ∈ nodes.map some := h.found ▸ List.mem_map_of_mem hway
  obtain ⟨n, -, hn⟩ := List.mem_map.1 hmem
  rw [← hn, Option.isSome_some]

theorem Places.cons {rest : List (List Nat)} (h : Places n.at? ways n.preorder)
    (hrest : Places (atAmong? (k + 1) nodes) rest (nodes.flatMap preorder)) :
    Places (atAmong? k (n :: nodes)) (ways.map (k :: ·) ++ rest) ((n :: nodes).flatMap preorder) := by
  have hbehind : ∀ way ∈ rest, ∃ i inner, way = i :: inner ∧ k < i := fun way hway =>
    exists_cons_of_atAmong? (hrest.isSome hway)
  constructor
  case ordered =>
    refine List.pairwise_append.2 ⟨?_, hrest.ordered, ?_⟩
    · exact List.pairwise_map.2 (h.ordered.imp fun hlt => List.cons_lt_cons_iff.2 (.inr ⟨rfl, hlt⟩))
    · intro way hway later hlater
      obtain ⟨inner, -, rfl⟩ := List.mem_map.1 hway
      obtain ⟨i, inner', rfl, hi⟩ := hbehind later hlater
      exact List.cons_lt_cons_iff.2 (.inl hi)
  case found =>
    have hlater : rest.map (atAmong? k (n :: nodes)) = rest.map (atAmong? (k + 1) nodes) := by
      refine List.map_congr_left fun way hway => ?_
      obtain ⟨i, inner, rfl, hi⟩ := hbehind way hway
      exact atAmong?_of_lt hi
    have hhere : (ways.map (k :: ·)).map (atAmong? k (n :: nodes)) = ways.map n.at? := by
      rw [List.map_map]
      exact List.map_congr_left fun way _ => atAmong?_self
    rw [List.map_append, hhere, hlater, h.found, hrest.found, ← List.map_append, List.flatMap_cons]
  case complete =>
    intro way hway
    obtain ⟨i, inner, rfl, hi⟩ := exists_cons_of_atAmong? hway
    rcases Nat.eq_or_lt_of_le hi with rfl | hi
    · rw [atAmong?_self] at hway
      exact List.mem_append_left _ (List.mem_map_of_mem (h.complete inner hway))
    · rw [atAmong?_of_lt hi] at hway
      exact List.mem_append_right _ (hrest.complete _ hway)

theorem exists_places_among (h : ∀ n ∈ nodes, ∃ ways, Places n.at? ways n.preorder) :
    ∃ ways, Places (atAmong? k nodes) ways (nodes.flatMap preorder) := by
  induction nodes generalizing k with
  | nil =>
    refine ⟨[], .nil, rfl, fun way hway => ?_⟩
    obtain ⟨i, rest, rfl, -⟩ := exists_cons_of_atAmong? hway
    simp [atAmong?] at hway
  | cons n nodes ih =>
    obtain ⟨⟨ways, hways⟩, hnodes⟩ := List.forall_mem_cons.1 h
    obtain ⟨rest, hrest⟩ := ih (k := k + 1) hnodes
    exact ⟨_, hways.cons hrest⟩

theorem exists_places (n : Node) : ∃ ways, Places n.at? ways n.preorder := by
  induction n using induct with
  | step n ih =>
    obtain ⟨ways, h⟩ := exists_places_among (k := 0) ih
    have hinside : ∀ way ∈ ways, n.at? way = atAmong? 0 n.children way := by
      intro way hway
      obtain ⟨i, rest, rfl, -⟩ := exists_cons_of_atAmong? (h.isSome hway)
      rfl
    refine ⟨[] :: ways, ?_, ?_, ?_⟩
    · refine List.pairwise_cons.2 ⟨fun way hway => ?_, h.ordered⟩
      obtain ⟨i, rest, rfl, -⟩ := exists_cons_of_atAmong? (h.isSome hway)
      exact List.nil_lt_cons i rest
    · rw [preorder_eq, List.map_cons, List.map_cons, ← h.found, List.map_congr_left hinside]
      rfl
    · intro way hway
      cases way with
      | nil => exact List.mem_cons_self
      | cons i rest => exact List.mem_cons_of_mem _ (h.complete _ hway)

end Places

end CallDiagram.Node
