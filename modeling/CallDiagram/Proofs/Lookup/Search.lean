import CallDiagram.Proofs.Lookup.Visible
import Mathlib.Data.Finset.Prod
import Mathlib.Data.Finset.Card

namespace CallDiagram

def Ends {α : Type} (m : Search α) (asked : Asked) (post : α → Asked → Prop) : Prop :=
  ∃ a later, m asked = some (a, later) ∧ post a later

namespace Ends

variable {α β : Type} {m : Search α} {asked : Asked} {post : α → Asked → Prop}

theorem pure {a : α} (h : post a asked) : Ends (Pure.pure a) asked post := ⟨a, asked, rfl, h⟩

theorem mono {weaker : α → Asked → Prop} (h : Ends m asked post)
    (hp : ∀ a later, post a later → weaker a later) : Ends m asked weaker := by
  obtain ⟨a, later, hm, ha⟩ := h
  exact ⟨a, later, hm, hp a later ha⟩

theorem bind {f : α → Search β} {post : β → Asked → Prop}
    (h : Ends m asked fun a later => Ends (f a) later post) : Ends (m >>= f) asked post := by
  obtain ⟨a, later, hm, b, last, hf, hb⟩ := h
  refine ⟨b, last, ?_, hb⟩
  change (m asked).bind (fun p => f p.1 p.2) = _
  rw [hm]
  exact hf

theorem collect {f : Lead → Search (List Symbol)} {I : Asked → Prop}
    {R : List Lead → Asked → List Symbol → Asked → Prop} {leads : List Lead}
    (nil : ∀ asked, I asked → R [] asked [] asked)
    (cons : ∀ l ls asked found middle more later, R [l] asked found middle →
      R ls middle more later → R (l :: ls) asked (found ++ more) later)
    (step : ∀ l ∈ leads, ∀ asked, I asked →
      Ends (f l) asked fun found later => I later ∧ R [l] asked found later)
    (h : I asked) : Ends (Codebase.collect f leads) asked fun found later => R leads asked found later := by
  induction leads generalizing asked with
  | nil => exact pure (nil asked h)
  | cons l ls ih =>
    refine bind ((step l List.mem_cons_self asked h).mono fun found middle hl => bind ?_)
    apply (ih (fun k hk => step k (List.mem_cons_of_mem l hk)) hl.1).mono
    intro more later hls
    exact pure (cons l ls asked found middle more later hl.2 hls)

theorem scan {c : Codebase} {ask : UnitId → String → Search (List Symbol)} {q : Question}
    {post : List Symbol → Asked → Prop}
    (h : Ends (Codebase.collect (Lead.follow ask) (c.nameLeads q)) asked fun byName middle =>
      (byName ≠ [] → post (dropRepeats byName) middle)
        ∧ (byName = [] → Ends (Codebase.collect (Lead.follow ask) (c.allLeads q)) middle
            fun found later => (found ≠ [] → post (dropRepeats found) later)
              ∧ (found = [] → post (dropRepeats (c.implied q)) later))) :
    Ends (c.scan ask q) asked post := by
  refine bind (h.mono fun byName middle hb => ?_)
  by_cases hn : byName = []
  · simp only [hn, List.isEmpty_nil, if_true]
    refine bind ((hb.2 hn).mono fun found later hf => pure ?_)
    by_cases hfound : found = []
    · simpa only [hfound, List.isEmpty_nil, if_true] using hf.2 hfound
    · rw [if_neg (by simpa using hfound)]
      exact hf.1 hfound
  · have hn' : byName.isEmpty = false := by simpa using hn
    simp only [hn', Bool.false_eq_true, if_false]
    refine bind (pure (pure ?_))
    simpa only [hn', Bool.false_eq_true, if_false] using hb.1 hn

end Ends

namespace Codebase

def requestedNames (c : Codebase) : List String := c.tables.toList.flatMap FileTable.requestedNames

def fresh (c : Codebase) (names : List String) (asked : Asked) : Nat :=
  ((Finset.range c.tables.size ×ˢ names.toFinset).filter (· ∉ asked)).card

section Fuel

variable {c : Codebase} {u : UnitId} {n : String} {q p : Question} {asked later : Asked}
  {names : List String}

theorem mem_requestedNames {table : FileTable} (ht : c.tables[u]? = some table)
    (h : n ∈ FileTable.requestedNames table) : n ∈ c.requestedNames :=
  List.mem_flatMap.2 ⟨table, Array.mem_toList_iff.2 (Array.mem_of_getElem? ht), h⟩

theorem requested_of_nameLead (h : c.nameLead u n = .ask p) : p.2 ∈ c.requestedNames := by
  by_cases hd : c.declaredIn u n = []
  · cases hi : c.import? u n with
    | none => simp [nameLead_of_unbound hd hi] at h
    | some b =>
      rw [nameLead_of_import hd hi, importLead] at h
      split at h
      · cases h
      · next hr =>
        cases h
        obtain ⟨table, ht, hb⟩ := Option.bind_eq_some_iff.1 hi
        apply mem_requestedNames ht
        apply List.mem_append_left
        exact List.mem_filterMap.2 ⟨(n, b), Table.mem_entries_of_get? hb, hr⟩
      · cases h
  · simp [nameLead_of_declared hd] at h

theorem mem_exportsOf {e : ExportEntry} :
    e ∈ c.exportsOf u ↔ ∃ table, c.tables[u]? = some table ∧ e ∈ table.exports := by
  cases h : c.tables[u]? <;> simp [exportsOf, h]

theorem requested_of_nameLeads (h : .ask p ∈ c.nameLeads q) : p.2 ∈ c.requestedNames := by
  obtain ⟨e, he, hl⟩ := List.mem_map.1 h
  cases e with
  | «local» x inner =>
    rw [entryLead] at hl
    split at hl
    · exact requested_of_nameLead hl
    · cases hl
  | named x inner source =>
    obtain ⟨table, ht, he⟩ := mem_exportsOf.1 he
    rw [entryLead] at hl
    split at hl
    · split at hl
      · cases hl
        apply mem_requestedNames ht
        apply List.mem_append_right
        exact List.mem_filterMap.2 ⟨_, he, rfl⟩
      · cases hl
    · cases hl
  | «namespace» x source =>
    rw [entryLead] at hl
    split at hl <;> cases hl
  | all source => cases hl

theorem name_of_allLeads (h : .ask p ∈ c.allLeads q) : p.2 = q.2 := by
  rw [allLeads] at h
  split at h
  · cases h
  · obtain ⟨e, -, hl⟩ := List.mem_map.1 h
    cases e with
    | all source =>
      rw [entryAllLead] at hl
      split at hl
      · cases hl
        rfl
      · cases hl
    | _ => cases hl

theorem Asks.known (h : c.Asks q p) :
    q.1 < c.tables.size ∧ (p.2 ∈ c.requestedNames ∨ p.2 = q.2) := by
  constructor
  · by_contra hq
    have hexports : c.exportsOf q.1 = [] := by
      simp [exportsOf, Array.getElem?_eq_none (Nat.le_of_not_lt hq)]
    rcases h with h | h <;> simp [nameLeads, allLeads, hexports] at h
  · exact h.imp requested_of_nameLeads name_of_allLeads

theorem fresh_anti (h : asked ⊆ later) : c.fresh names later ≤ c.fresh names asked :=
  Finset.card_le_card (Finset.monotone_filter_right _ fun _ _ hl ha => hl (h ha))

theorem fresh_cons_lt (hq : q.1 < c.tables.size) (hn : q.2 ∈ names) (ha : q ∉ asked) :
    c.fresh names (q :: asked) < c.fresh names asked := by
  refine Finset.card_lt_card (Finset.ssubset_iff_of_subset ?_ |>.2 ⟨q, ?_, ?_⟩)
  · exact Finset.monotone_filter_right _ fun _ _ hl hx => hl (List.mem_cons_of_mem q hx)
  · simp [hq, hn, ha]
  · simp

theorem fresh_lt_searchLimit : c.fresh (n :: c.requestedNames) [] < c.searchLimit := by
  have hcard : (n :: c.requestedNames).toFinset.card ≤ c.requestedNames.length + 1 :=
    List.toFinset_card_le _
  have hle : c.fresh (n :: c.requestedNames) [] ≤ c.tables.size * (c.requestedNames.length + 1) := by
    apply (Finset.card_filter_le _ _).trans
    rw [Finset.card_product, Finset.card_range]
    exact Nat.mul_le_mul_left _ hcard
  exact Nat.lt_succ_of_le hle

end Fuel

end Codebase

end CallDiagram
