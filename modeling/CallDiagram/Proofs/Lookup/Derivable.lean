import CallDiagram.Proofs.Lookup.Lead
import Mathlib.Logic.Relation

namespace CallDiagram

inductive Query
  | name (unit : UnitId) (name : String)
  | exported (unit : UnitId) (name : String)

namespace Codebase

def isDeclarationFile (c : Codebase) (unit : UnitId) : Bool :=
  match c.tables[unit]? with
  | some table => table.isDeclarationFile
  | none => false

inductive Derivable (c : Codebase) : Query → Symbol → Prop
  | declared {u n s} : s ∈ c.declaredIn u n → Derivable c (.name u n) s
  | namespaceImport {u n b v} : c.declaredIn u n = [] → c.import? u n = some b →
      b.imported = .namespace → c.module? u b.source = some v → Derivable c (.name u n) (.module v)
  | import {u n b v m s} : c.declaredIn u n = [] → c.import? u n = some b →
      requestedName b.imported = some m → c.module? u b.source = some v →
      Derivable c (.exported v m) s → Derivable c (.name u n) s
  | local {u n inner s} : .local n inner ∈ c.exportsOf u → Derivable c (.name u inner) s →
      Derivable c (.exported u n) s
  | named {u n inner source v s} : .named n inner source ∈ c.exportsOf u →
      c.module? u source = some v → Derivable c (.exported v inner) s → Derivable c (.exported u n) s
  | namespace {u n source v} : .namespace n source ∈ c.exportsOf u →
      c.module? u source = some v → Derivable c (.exported u n) (.module v)
  | all {u n source v s} : .all source ∈ c.exportsOf u → n ≠ Outline.defaultName →
      c.module? u source = some v → Derivable c (.exported v n) s → Derivable c (.exported u n) s
  | implied {u n s} : c.isDeclarationFile u = true → s ∈ c.declaredIn u n →
      Derivable c (.exported u n) s

section Declared

variable {table : FileTable} {c : Codebase} {u : UnitId} {n : String} {i : DeclarationId} {k : ClassId}
  {s : Symbol} {query : Query}

theorem plain_of_mem_plainSymbols (h : s ∈ table.plainSymbols u n) :
    s = .variable u n ∨ ∃ kind, s = .other kind := by
  rw [FileTable.plainSymbols] at h
  split at h
  · cases h
  · exact .inl (List.mem_singleton.1 h)
  · split at h
    · cases h
    · exact .inr ⟨_, List.mem_singleton.1 h⟩
  · exact .inr ⟨_, List.mem_singleton.1 h⟩

theorem function_mem_declared :
    .function i ∈ table.declared u n ↔ table.functions.get? n = some i := by
  have hplain : .function i ∉ table.plainSymbols u n := fun h => by
    rcases plain_of_mem_plainSymbols h with h | ⟨_, h⟩ <;> cases h
  simp [FileTable.declared, hplain]

theorem cls_mem_declared : .cls k ∈ table.declared u n ↔ table.classes.get? n = some k := by
  have hplain : .cls k ∉ table.plainSymbols u n := fun h => by
    rcases plain_of_mem_plainSymbols h with h | ⟨_, h⟩ <;> cases h
  simp [FileTable.declared, hplain]

theorem mem_declaredIn : s ∈ c.declaredIn u n ↔ ∃ table, c.tables[u]? = some table ∧ s ∈ table.declared u n := by
  rw [declaredIn]
  split
  · next h => simp [h]
  · next h => simp [h]

theorem Derivable.exists_declaredIn (h : c.Derivable query s) :
    (∃ v, s = .module v) ∨ ∃ u n, s ∈ c.declaredIn u n := by
  induction h with
  | declared h => exact .inr ⟨_, _, h⟩
  | namespaceImport => exact .inl ⟨_, rfl⟩
  | «import» _ _ _ _ _ ih => exact ih
  | «local» _ _ ih => exact ih
  | named _ _ _ ih => exact ih
  | «namespace» => exact .inl ⟨_, rfl⟩
  | all _ _ _ _ ih => exact ih
  | implied _ h => exact .inr ⟨_, _, h⟩

theorem Derivable.exists_function (h : c.Derivable query (.function i)) :
    ∃ (u : UnitId) (table : FileTable) (n : String),
      c.tables[u]? = some table ∧ table.functions.get? n = some i := by
  obtain ⟨_, ⟨⟩⟩ | ⟨u, n, h⟩ := h.exists_declaredIn
  obtain ⟨table, htable, h⟩ := mem_declaredIn.1 h
  exact ⟨u, table, n, htable, function_mem_declared.1 h⟩

theorem Derivable.exists_cls (h : c.Derivable query (.cls k)) :
    ∃ (u : UnitId) (table : FileTable) (n : String),
      c.tables[u]? = some table ∧ table.classes.get? n = some k := by
  obtain ⟨_, ⟨⟩⟩ | ⟨u, n, h⟩ := h.exists_declaredIn
  obtain ⟨table, htable, h⟩ := mem_declaredIn.1 h
  exact ⟨u, table, n, htable, cls_mem_declared.1 h⟩

end Declared

def Yields (c : Codebase) : Lead → Symbol → Prop
  | .found symbols, s => s ∈ symbols
  | .ask q, s => c.Derivable (.exported q.1 q.2) s

section Leads

variable {c : Codebase} {u : UnitId} {n : String} {q : Question} {s : Symbol}

theorem mem_implied : s ∈ c.implied q ↔ c.isDeclarationFile q.1 = true ∧ s ∈ c.declaredIn q.1 q.2 := by
  simp only [implied, isDeclarationFile, declaredIn]
  cases c.tables[q.1]? with
  | none => simp
  | some table => cases table.isDeclarationFile <;> simp

theorem nameLead_of_declared (h : c.declaredIn u n ≠ []) :
    c.nameLead u n = .found (c.declaredIn u n) := by
  simp [nameLead, h]

theorem nameLead_of_unbound (h : c.declaredIn u n = []) (hi : c.import? u n = none) :
    c.nameLead u n = .found [] := by
  simp [nameLead, h, hi]

theorem nameLead_of_import {b : ImportBinding} (h : c.declaredIn u n = [])
    (hi : c.import? u n = some b) : c.nameLead u n = c.importLead u b := by
  simp [nameLead, h, hi]

theorem yields_importLead_iff {b : ImportBinding} :
    c.Yields (c.importLead u b) s ↔ ∃ v, c.module? u b.source = some v ∧
      (b.imported = .namespace ∧ s = .module v
        ∨ ∃ m, requestedName b.imported = some m ∧ c.Derivable (.exported v m) s) := by
  cases hm : c.module? u b.source with
  | none => simp [importLead, hm, Yields]
  | some v => cases hb : b.imported <;> simp [importLead, hm, hb, requestedName, Yields]

theorem derivable_name_iff : c.Derivable (.name u n) s ↔ c.Yields (c.nameLead u n) s := by
  by_cases hd : c.declaredIn u n = []
  · cases hi : c.import? u n with
    | none =>
      rw [nameLead_of_unbound hd hi]
      constructor
      · intro h
        cases h with
        | declared h => rwa [hd] at h
        | namespaceImport _ hb => simp [hi] at hb
        | «import» _ hb => simp [hi] at hb
      · intro h
        cases h
    | some b =>
      rw [nameLead_of_import hd hi, yields_importLead_iff]
      constructor
      · intro h
        cases h with
        | declared h => simp [hd] at h
        | namespaceImport _ hb hn hm =>
          obtain rfl := Option.some.inj (hi.symm.trans hb)
          exact ⟨_, hm, .inl ⟨hn, rfl⟩⟩
        | «import» _ hb hr hm h =>
          obtain rfl := Option.some.inj (hi.symm.trans hb)
          exact ⟨_, hm, .inr ⟨_, hr, h⟩⟩
      · rintro ⟨v, hm, ⟨hn, rfl⟩ | ⟨m, hr, h⟩⟩
        · exact .namespaceImport hd hi hn hm
        · exact .import hd hi hr hm h
  · rw [nameLead_of_declared hd]
    constructor
    · intro h
      cases h with
      | declared h => exact h
      | namespaceImport h => exact absurd h hd
      | «import» h => exact absurd h hd
    · exact .declared

theorem yields_entryLead_iff {e : ExportEntry} :
    c.Yields (c.entryLead q e) s ↔
      (∃ inner, e = .local q.2 inner ∧ c.Derivable (.name q.1 inner) s)
      ∨ (∃ inner source v, e = .named q.2 inner source ∧ c.module? q.1 source = some v
          ∧ c.Derivable (.exported v inner) s)
      ∨ ∃ source v, e = .namespace q.2 source ∧ c.module? q.1 source = some v ∧ s = .module v := by
  cases e with
  | «local» x inner =>
    by_cases hx : x = q.2
    · simp [entryLead, hx, derivable_name_iff]
    · simp [entryLead, hx, Yields]
  | named x inner source =>
    cases hm : c.module? q.1 source with
    | none => simp [entryLead, hm, Yields]
    | some v =>
      by_cases hx : x = q.2
      · simp [entryLead, hm, hx, Yields, and_assoc]
      · simp [entryLead, hm, hx, Yields]
  | «namespace» x source =>
    cases hm : c.module? q.1 source with
    | none => simp [entryLead, hm, Yields]
    | some v =>
      by_cases hx : x = q.2
      · simp [entryLead, hm, hx, Yields]
      · simp [entryLead, hm, hx, Yields]
  | all source => simp [entryLead, Yields]

theorem yields_entryAllLead_iff {e : ExportEntry} :
    c.Yields (c.entryAllLead q e) s ↔ ∃ source v, e = .all source ∧ c.module? q.1 source = some v
      ∧ c.Derivable (.exported v q.2) s := by
  cases e with
  | all source =>
    cases hm : c.module? q.1 source with
    | none => simp [entryAllLead, hm, Yields]
    | some v => simp [entryAllLead, hm, Yields]
  | _ => simp [entryAllLead, Yields]

def ByName (c : Codebase) (q : Question) (s : Symbol) : Prop := ∃ l ∈ c.nameLeads q, c.Yields l s

def ByAll (c : Codebase) (q : Question) (s : Symbol) : Prop := ∃ l ∈ c.allLeads q, c.Yields l s

theorem derivable_exported_iff :
    c.Derivable (.exported q.1 q.2) s ↔ c.ByName q s ∨ c.ByAll q s ∨ s ∈ c.implied q := by
  constructor
  · intro h
    cases h with
    | «local» he h =>
      exact .inl ⟨_, List.mem_map_of_mem he, yields_entryLead_iff.2 (.inl ⟨_, rfl, h⟩)⟩
    | named he hm h =>
      exact .inl ⟨_, List.mem_map_of_mem he,
        yields_entryLead_iff.2 (.inr (.inl ⟨_, _, _, rfl, hm, h⟩))⟩
    | «namespace» he hm =>
      exact .inl ⟨_, List.mem_map_of_mem he,
        yields_entryLead_iff.2 (.inr (.inr ⟨_, _, rfl, hm, rfl⟩))⟩
    | all he hn hm h =>
      refine .inr (.inl ⟨_, ?_, yields_entryAllLead_iff.2 ⟨_, _, rfl, hm, h⟩⟩)
      rw [allLeads, if_neg hn]
      exact List.mem_map_of_mem he
    | implied hf h => exact .inr (.inr (mem_implied.2 ⟨hf, h⟩))
  · rintro (⟨l, hl, h⟩ | ⟨l, hl, h⟩ | h)
    · obtain ⟨e, he, rfl⟩ := List.mem_map.1 hl
      rcases yields_entryLead_iff.1 h with ⟨inner, rfl, hs⟩ | ⟨inner, source, v, rfl, hm, hs⟩ |
        ⟨source, v, rfl, hm, rfl⟩
      · exact .local he hs
      · exact .named he hm hs
      · exact .namespace he hm
    · by_cases hn : q.2 = Outline.defaultName
      · simp [allLeads, hn] at hl
      · rw [allLeads, if_neg hn] at hl
        obtain ⟨e, he, rfl⟩ := List.mem_map.1 hl
        obtain ⟨source, v, rfl, hm, hs⟩ := yields_entryAllLead_iff.1 h
        exact .all he hn hm hs
    · obtain ⟨hf, h⟩ := mem_implied.1 h
      exact .implied hf h

theorem entryLead_mem {e : ExportEntry} (h : e ∈ c.exportsOf u) :
    c.entryLead (u, n) e ∈ c.nameLeads (u, n) := List.mem_map_of_mem h

theorem entryAllLead_mem {e : ExportEntry} (hn : n ≠ Outline.defaultName) (h : e ∈ c.exportsOf u) :
    c.entryAllLead (u, n) e ∈ c.allLeads (u, n) := by
  rw [allLeads, if_neg hn]
  exact List.mem_map_of_mem h

theorem Derivable.exportedRec {P : Question → Symbol → Prop}
    (found : ∀ q symbols s, .found symbols ∈ c.nameLeads q → s ∈ symbols → P q s)
    (implied : ∀ q s, s ∈ c.implied q → P q s)
    (ask : ∀ q p s, .ask p ∈ c.nameLeads q ∨ .ask p ∈ c.allLeads q →
      c.Derivable (.exported p.1 p.2) s → P p s → P q s)
    {q : Question} {s : Symbol} (h : c.Derivable (.exported q.1 q.2) s) : P q s := by
  suffices key : ∀ query s, c.Derivable query s →
      match query with
      | .exported u n => P (u, n) s
      | .name u n => (∃ symbols, c.nameLead u n = .found symbols ∧ s ∈ symbols)
          ∨ ∃ p, c.nameLead u n = .ask p ∧ c.Derivable (.exported p.1 p.2) s ∧ P p s from
    key _ _ h
  intro query s h
  induction h with
  | declared h => exact .inl ⟨_, nameLead_of_declared (List.ne_nil_of_mem h), h⟩
  | namespaceImport hd hi hb hm =>
    refine .inl ⟨_, ?_, List.mem_singleton_self _⟩
    rw [nameLead_of_import hd hi, importLead, hm, hb]
    rfl
  | «import» hd hi hr hm h ih =>
    refine .inr ⟨_, ?_, h, ih⟩
    rw [nameLead_of_import hd hi, importLead, hm, hr]
  | @«local» u n inner s he h ih =>
    have hl : c.nameLead u inner ∈ c.nameLeads (u, n) := by
      simpa [entryLead] using entryLead_mem (n := n) he
    rcases ih with ⟨symbols, heq, hs⟩ | ⟨p, heq, hp, ih⟩
    · exact found _ _ _ (heq ▸ hl) hs
    · exact ask _ _ _ (.inl (heq ▸ hl)) hp ih
  | @named u n inner source v s he hm h ih =>
    refine ask _ (v, inner) _ (.inl ?_) h ih
    simpa [entryLead, hm] using entryLead_mem (n := n) he
  | @«namespace» u n source v he hm =>
    refine found _ [.module v] _ ?_ (List.mem_singleton_self _)
    simpa [entryLead, hm] using entryLead_mem (n := n) he
  | @all u n source v s he hn hm h ih =>
    refine ask _ (v, n) _ (.inr ?_) h ih
    simpa [entryAllLead, hm] using entryAllLead_mem hn he
  | implied hf h => exact implied _ _ (mem_implied.2 ⟨hf, h⟩)

end Leads

end Codebase

end CallDiagram
