import CallDiagram.Proofs.Lookup.Explored

namespace CallDiagram.Codebase

variable {c : Codebase} {u : UnitId} {n : String} {q : Question}

theorem exists_explored_exported (c : Codebase) (q : Question) :
    ∃ later, c.Explored q [.ask q] [] later (c.exported q.1 q.2) := by
  have hlink : c.Linked q [] := .nil
  obtain ⟨found, later, hrun, h⟩ := ends_exportedWithin (List.subset_cons_self q.2 _) c.searchLimit
    List.mem_cons_self fresh_lt_searchLimit hlink (.inl rfl)
  refine ⟨later, ?_⟩
  rwa [exported, answer, hrun]

theorem lookup_of_found {symbols : List Symbol} (h : c.nameLead u n = .found symbols) :
    c.lookup u n = symbols := by
  rw [lookup, named_eq, h]
  rfl

theorem lookup_of_ask (h : c.nameLead u n = .ask q) : c.lookup u n = c.exported q.1 q.2 := by
  rw [lookup, named_eq, h]
  rfl

namespace Explored

variable {later : Asked} {found : List Symbol} {s : Symbol}

theorem leadsTo (h : c.Explored q [.ask q] [] later found) (hs : s ∈ found) :
    c.LeadsTo [] (.ask q) s := by
  obtain ⟨l, hl, hlead, -⟩ := h.accounts s hs
  rwa [List.mem_singleton.1 hl] at hlead

theorem not_leadsTo (h : c.Explored q [.ask q] [] later []) : ¬ c.LeadsTo [] (.ask q) s := by
  rintro ⟨p, hp, hs⟩
  have hmem : p ∈ later := by
    apply hp.induct (h.asks q List.mem_cons_self)
    intro x y _ hx hr _
    exact (h.barren rfl x hx List.not_mem_nil).1 y hr
  exact (h.barren rfl p hmem List.not_mem_nil).2 s hs

end Explored

theorem derivable_of_mem_exported {s : Symbol} (h : s ∈ c.exported q.1 q.2) :
    c.Derivable (.exported q.1 q.2) s := by
  obtain ⟨later, hexplored⟩ := c.exists_explored_exported q
  exact derivable_exported_iff_leadsTo.2 (hexplored.leadsTo h)

theorem derivable_of_mem_lookup {s : Symbol} (h : s ∈ c.lookup u n) : c.Derivable (.name u n) s := by
  rw [derivable_name_iff]
  cases hlead : c.nameLead u n with
  | found symbols => rwa [lookup_of_found hlead] at h
  | ask q =>
    rw [lookup_of_ask hlead] at h
    exact derivable_of_mem_exported h

/-- Whatever a lookup finds is derivable, and it finds nothing only if nothing is. -/
theorem lookup_derivable (c : Codebase) (u : UnitId) (n : String) :
    (∀ s ∈ c.lookup u n, c.Derivable (.name u n) s)
      ∧ (c.lookup u n = [] ↔ ∀ s, ¬ c.Derivable (.name u n) s) := by
  refine ⟨fun s => derivable_of_mem_lookup, ?_, ?_⟩
  · intro hnil s hs
    rw [derivable_name_iff] at hs
    cases hlead : c.nameLead u n with
    | found symbols =>
      rw [hlead, ← lookup_of_found hlead, hnil] at hs
      exact List.not_mem_nil hs
    | ask q =>
      obtain ⟨later, h⟩ := c.exists_explored_exported q
      rw [← lookup_of_ask hlead, hnil] at h
      rw [hlead] at hs
      exact h.not_leadsTo (derivable_exported_iff_leadsTo.1 hs)
  · exact fun h => List.eq_nil_iff_forall_not_mem.2 fun s hs => h s (derivable_of_mem_lookup hs)

end CallDiagram.Codebase
