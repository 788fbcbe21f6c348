namespace CallDiagram

structure Table (α β : Type) where
  entries : List (α × β) := []

namespace Table

variable {α β : Type} [DecidableEq α]

def get? (t : Table α β) (key : α) : Option β := t.entries.reverse.lookup key

def contains (t : Table α β) (key : α) : Bool := (t.get? key).isSome

def set (t : Table α β) (key : α) (value : β) : Table α β := ⟨t.entries ++ [(key, value)]⟩

@[simp] theorem get?_empty (key : α) : (⟨[]⟩ : Table α β).get? key = none := rfl

theorem get?_set (t : Table α β) (key other : α) (value : β) :
    (t.set key value).get? other = if other = key then some value else t.get? other := by
  by_cases h : other = key
  · simp [get?, set, h]
  · simp [get?, set, List.lookup_cons, h, beq_eq_false_iff_ne.2 h]

theorem mem_entries_of_get? {t : Table α β} {key : α} {value : β} (h : t.get? key = some value) :
    (key, value) ∈ t.entries := by
  obtain ⟨before, behind, heq, -⟩ := List.lookup_eq_some_iff.1 h
  exact List.mem_reverse.1 (by rw [heq]; simp)

theorem exists_get?_of_mem {t : Table α β} {key : α} {value : β} (h : (key, value) ∈ t.entries) :
    ∃ last, t.get? key = some last := by
  cases hget : t.get? key with
  | some last => exact ⟨last, rfl⟩
  | none =>
    have habsent := List.lookup_eq_none_iff.1 hget (key, value) (List.mem_reverse.2 h)
    simp at habsent

theorem get?_eq_some_iff {t : Table α β} {key : α} {value : β}
    (h : ∀ a b, (key, a) ∈ t.entries → (key, b) ∈ t.entries → a = b) :
    t.get? key = some value ↔ (key, value) ∈ t.entries := by
  refine ⟨mem_entries_of_get?, fun hmem => ?_⟩
  obtain ⟨last, hlast⟩ := exists_get?_of_mem hmem
  rw [hlast, h last value (mem_entries_of_get? hlast) hmem]

end Table

end CallDiagram
