import CallDiagram.Proofs.Lookup.Answer
import CallDiagram.Proofs.Renumbering.Related

/-!
Two codebases whose files, declarations and classes correspond, though they may be numbered
differently. In files that correspond a lookup asks questions and finds symbols that correspond.
-/

namespace CallDiagram

open List (Forall₂)

/-- Which files, declarations and classes of two codebases correspond. -/
structure Renumbering where
  unit : UnitId → UnitId → Prop
  declaration : DeclarationId → DeclarationId → Prop
  cls : ClassId → ClassId → Prop

namespace Codebase

theorem exists_exportedWithin_eq (c : Codebase) (u : UnitId) (n : String) :
    ∃ later, c.exportedWithin c.searchLimit u n [] = some (c.exported u n, later) := by
  obtain ⟨found, later, hrun, -⟩ := ends_exportedWithin (q := (u, n))
    (List.subset_cons_self n _) c.searchLimit List.mem_cons_self fresh_lt_searchLimit .nil (.inl rfl)
  refine ⟨later, ?_⟩
  rw [exported, answer, hrun]

def PassesOn (c : Codebase) (unit : UnitId) (source : String) : Prop :=
  (∃ e ∈ c.exportsOf unit, e.source? = some source)
    ∨ ∃ x n b, .local x n ∈ c.exportsOf unit ∧ c.import? unit n = some b ∧ b.source = source

end Codebase

namespace Renumbering

structure IsOneToOne (r : Renumbering) : Prop where
  unit : Relator.BiUnique r.unit
  declaration : Relator.BiUnique r.declaration
  cls : Relator.BiUnique r.cls

inductive Symbols (r : Renumbering) : Symbol → Symbol → Prop
  | function {i j} : r.declaration i j → Symbols r (.function i) (.function j)
  | cls {k l} : r.cls k l → Symbols r (.cls k) (.cls l)
  | variable {u v n} : r.unit u v → Symbols r (.variable u n) (.variable v n)
  | module {u v} : r.unit u v → Symbols r (.module u) (.module v)
  | other {kind} : Symbols r (.other kind) (.other kind)

def Questions (r : Renumbering) (q p : Question) : Prop := r.unit q.1 p.1 ∧ q.2 = p.2

inductive Leads (r : Renumbering) : Lead → Lead → Prop
  | found {symbols symbols'} : Forall₂ r.Symbols symbols symbols' →
      Leads r (.found symbols) (.found symbols')
  | ask {q p} : r.Questions q p → Leads r (.ask q) (.ask p)

structure Tables (r : Renumbering) (t t' : FileTable) : Prop where
  functions : ∀ n, Option.Rel r.declaration (t.functions.get? n) (t'.functions.get? n)
  classes : ∀ n, Option.Rel r.cls (t.classes.get? n) (t'.classes.get? n)
  symbols : ∀ n, t.symbols.get? n = t'.symbols.get? n
  variableTypes : ∀ n, t.variableTypes.get? n = t'.variableTypes.get? n
  imports : ∀ n, t.imports.get? n = t'.imports.get? n
  exports : t.exports = t'.exports
  isDeclarationFile : t.isDeclarationFile = t'.isDeclarationFile

def Modules (r : Renumbering) (c d : Codebase) (u v : UnitId) (source : String) : Prop :=
  Option.Rel r.unit (c.module? u source) (d.module? v source)

/-- Files that correspond declare, import and export the same, and what they pass on is found in files
that correspond. -/
structure Files (r : Renumbering) (c d : Codebase) : Prop where
  oneToOne : r.IsOneToOne
  tables : ∀ {u v}, r.unit u v →
    ∃ t t', c.tables[u]? = some t ∧ d.tables[v]? = some t' ∧ r.Tables t t'
  passedOn : ∀ {u v}, r.unit u v → ∀ source, c.PassesOn u source → r.Modules c d u v source

section Identity

variable {r : Renumbering}

theorem IsOneToOne.questions (h : r.IsOneToOne) : Relator.BiUnique r.Questions := by
  constructor
  · rintro ⟨u, n⟩ ⟨u', n'⟩ ⟨v, m⟩ ⟨hu, hn⟩ ⟨hu', hn'⟩
    exact Prod.ext (h.unit.1 hu hu') (hn.trans hn'.symm)
  · rintro ⟨u, n⟩ ⟨v, m⟩ ⟨v', m'⟩ ⟨hv, hn⟩ ⟨hv', hn'⟩
    exact Prod.ext (h.unit.2 hv hv') (hn.symm.trans hn')

theorem IsOneToOne.symbols (h : r.IsOneToOne) : Relator.BiUnique r.Symbols := by
  constructor
  · intro s s' t hs hs'
    cases hs with
    | function hi => cases hs' with | function hj => rw [h.declaration.1 hi hj]
    | cls hk => cases hs' with | cls hl => rw [h.cls.1 hk hl]
    | «variable» hu => cases hs' with | «variable» hv => rw [h.unit.1 hu hv]
    | module hu => cases hs' with | module hv => rw [h.unit.1 hu hv]
    | other => cases hs' with | other => rfl
  · intro s t t' hs hs'
    cases hs with
    | function hi => cases hs' with | function hj => rw [h.declaration.2 hi hj]
    | cls hk => cases hs' with | cls hl => rw [h.cls.2 hk hl]
    | «variable» hu => cases hs' with | «variable» hv => rw [h.unit.2 hu hv]
    | module hu => cases hs' with | module hv => rw [h.unit.2 hu hv]
    | other => cases hs' with | other => rfl

end Identity

namespace Files

variable {r : Renumbering} {c d : Codebase} {u v : UnitId} {n : String} {q p : Question}

theorem declaredIn (h : r.Files c d) (huv : r.unit u v) (n : String) :
    Forall₂ r.Symbols (c.declaredIn u n) (d.declaredIn v n) := by
  obtain ⟨t, t', ht, ht', htables⟩ := h.tables huv
  simp only [Codebase.declaredIn, ht, ht', FileTable.declared]
  have hfunctions := rel_toList (rel_optionMap (htables.functions n) fun _ _ => Symbols.function)
  have hclasses := rel_toList (rel_optionMap (htables.classes n) fun _ _ => Symbols.cls)
  refine List.rel_append (List.rel_append hfunctions hclasses) ?_
  have hcontains : t.classes.contains n = t'.classes.contains n := rel_isSome (htables.classes n)
  simp only [FileTable.plainSymbols, htables.symbols n, hcontains]
  split
  · exact .nil
  · exact .cons (.variable huv) .nil
  · split
    · exact .nil
    · exact .cons .other .nil
  · exact .cons .other .nil

theorem import?_eq (h : r.Files c d) (huv : r.unit u v) (n : String) :
    c.import? u n = d.import? v n := by
  obtain ⟨t, t', ht, ht', htables⟩ := h.tables huv
  simp [Codebase.import?, ht, ht', htables.imports n]

theorem exportsOf_eq (h : r.Files c d) (huv : r.unit u v) : c.exportsOf u = d.exportsOf v := by
  obtain ⟨t, t', ht, ht', htables⟩ := h.tables huv
  simp [Codebase.exportsOf, ht, ht', htables.exports]

theorem nameLead (h : r.Files c d) (huv : r.unit u v)
    (hmodules : ∀ b, c.import? u n = some b → r.Modules c d u v b.source) :
    r.Leads (c.nameLead u n) (d.nameLead v n) := by
  have hdeclared := h.declaredIn huv n
  simp only [Codebase.nameLead, ← rel_isEmpty hdeclared, ← h.import?_eq huv]
  split
  · split
    · next b hb =>
      simp only [Codebase.importLead]
      rcases rel_cases (hmodules b hb) with ⟨hc, hd⟩ | ⟨w, x, hc, hd, hwx⟩
      · rw [hc, hd]
        exact .found .nil
      · rw [hc, hd]
        cases Codebase.requestedName b.imported with
        | none => exact .found (.cons (.module hwx) .nil)
        | some m => exact .ask ⟨hwx, rfl⟩
    · exact .found .nil
  · exact .found hdeclared

theorem entryLead (h : r.Files c d) (hqp : r.Questions q p) {e : ExportEntry}
    (he : e ∈ c.exportsOf q.1) : r.Leads (c.entryLead q e) (d.entryLead p e) := by
  obtain ⟨u, n⟩ := q
  obtain ⟨v, m⟩ := p
  obtain ⟨huv, hnm⟩ := hqp
  obtain rfl : n = m := hnm
  cases e with
  | «local» x inner =>
    simp only [Codebase.entryLead]
    split
    · exact h.nameLead huv fun b hb => h.passedOn huv _ (.inr ⟨x, inner, b, he, hb, rfl⟩)
    · exact .found .nil
  | named x inner source =>
    simp only [Codebase.entryLead]
    rcases rel_cases (h.passedOn huv source (.inl ⟨_, he, rfl⟩)) with
      ⟨hc, hd⟩ | ⟨w, x, hc, hd, hwx⟩
    · rw [hc, hd]
      exact .found .nil
    · rw [hc, hd]
      dsimp only
      split
      · exact .ask ⟨hwx, rfl⟩
      · exact .found .nil
  | «namespace» x source =>
    simp only [Codebase.entryLead]
    rcases rel_cases (h.passedOn huv source (.inl ⟨_, he, rfl⟩)) with
      ⟨hc, hd⟩ | ⟨w, x, hc, hd, hwx⟩
    · rw [hc, hd]
      exact .found .nil
    · rw [hc, hd]
      dsimp only
      split
      · exact .found (.cons (.module hwx) .nil)
      · exact .found .nil
  | all source => exact .found .nil

theorem entryAllLead (h : r.Files c d) (hqp : r.Questions q p) {e : ExportEntry}
    (he : e ∈ c.exportsOf q.1) : r.Leads (c.entryAllLead q e) (d.entryAllLead p e) := by
  obtain ⟨u, n⟩ := q
  obtain ⟨v, m⟩ := p
  obtain ⟨huv, hnm⟩ := hqp
  obtain rfl : n = m := hnm
  cases e with
  | all source =>
    simp only [Codebase.entryAllLead]
    rcases rel_cases (h.passedOn huv source (.inl ⟨_, he, rfl⟩)) with
      ⟨hc, hd⟩ | ⟨w, x, hc, hd, hwx⟩
    · rw [hc, hd]
      exact .found .nil
    · rw [hc, hd]
      exact .ask ⟨hwx, rfl⟩
  | _ => exact .found .nil

theorem nameLeads (h : r.Files c d) (hqp : r.Questions q p) :
    Forall₂ r.Leads (c.nameLeads q) (d.nameLeads p) := by
  simp only [Codebase.nameLeads, ← h.exportsOf_eq hqp.1]
  rw [List.forall₂_map_left_iff, List.forall₂_map_right_iff, List.forall₂_same]
  exact fun e he => h.entryLead hqp he

theorem allLeads (h : r.Files c d) (hqp : r.Questions q p) :
    Forall₂ r.Leads (c.allLeads q) (d.allLeads p) := by
  simp only [Codebase.allLeads, ← h.exportsOf_eq hqp.1, ← hqp.2]
  split
  · exact .nil
  · rw [List.forall₂_map_left_iff, List.forall₂_map_right_iff, List.forall₂_same]
    exact fun e he => h.entryAllLead hqp he

theorem implied (h : r.Files c d) (hqp : r.Questions q p) :
    Forall₂ r.Symbols (c.implied q) (d.implied p) := by
  obtain ⟨t, t', ht, ht', htables⟩ := h.tables hqp.1
  have hdeclared := h.declaredIn hqp.1 q.2
  simp only [Codebase.declaredIn, ht, ht'] at hdeclared
  simp only [Codebase.implied, ht, ht', ← hqp.2, ← htables.isDeclarationFile]
  split
  · exact hdeclared
  · exact .nil

end Files

/-- Two searches that start with corresponding questions asked end in results that are related by `P`
and with corresponding questions asked, if both come to an end. -/
def Runs {α β : Type} (r : Renumbering) (P : α → β → Prop) (m : Search α) (m' : Search β) : Prop :=
  ∀ asked asked', Forall₂ r.Questions asked asked' → ∀ a later b later',
    m asked = some (a, later) → m' asked' = some (b, later') →
      P a b ∧ Forall₂ r.Questions later later'

namespace Runs

variable {r : Renumbering} {α β γ δ : Type} {P : α → β → Prop} {Q : γ → δ → Prop}
  {m : Search α} {m' : Search β}

theorem pure {a : α} {b : β} (h : P a b) : r.Runs P (Pure.pure a) (Pure.pure b) := by
  rintro asked asked' hasked _ _ _ _ ⟨⟩ ⟨⟩
  exact ⟨h, hasked⟩

theorem bind {f : α → Search γ} {g : β → Search δ} (h : r.Runs P m m')
    (hf : ∀ a b, P a b → r.Runs Q (f a) (g b)) : r.Runs Q (m >>= f) (m' >>= g) := by
  intro asked asked' hasked x last y last' hx hy
  obtain ⟨⟨a, later⟩, ha, hx⟩ := Option.bind_eq_some_iff.1 hx
  obtain ⟨⟨b, later'⟩, hb, hy⟩ := Option.bind_eq_some_iff.1 hy
  obtain ⟨hab, hlater⟩ := h _ _ hasked _ _ _ _ ha hb
  exact hf a b hab _ _ hlater _ _ _ _ hx hy

variable {ask ask' : UnitId → String → Search (List Symbol)} {l l' : Lead}

theorem follow
    (hask : ∀ q p, r.Questions q p → r.Runs (Forall₂ r.Symbols) (ask q.1 q.2) (ask' p.1 p.2))
    (h : r.Leads l l') : r.Runs (Forall₂ r.Symbols) (l.follow ask) (l'.follow ask') := by
  cases h with
  | found h => exact pure h
  | ask h => exact hask _ _ h

theorem collect {leads leads' : List Lead}
    (hask : ∀ q p, r.Questions q p → r.Runs (Forall₂ r.Symbols) (ask q.1 q.2) (ask' p.1 p.2))
    (h : Forall₂ r.Leads leads leads') :
    r.Runs (Forall₂ r.Symbols) (Codebase.collect (Lead.follow ask) leads)
      (Codebase.collect (Lead.follow ask') leads') := by
  induction h with
  | nil => exact pure .nil
  | cons hl _ ih =>
    exact bind (follow hask hl) fun _ _ hfound => bind ih fun _ _ hmore =>
      pure (List.rel_append hfound hmore)

theorem scan {c d : Codebase} (h : r.Files c d) {q p : Question} (hqp : r.Questions q p)
    (hask : ∀ q p, r.Questions q p → r.Runs (Forall₂ r.Symbols) (ask q.1 q.2) (ask' p.1 p.2)) :
    r.Runs (Forall₂ r.Symbols) (c.scan ask q) (d.scan ask' p) := by
  refine bind (collect hask (h.nameLeads hqp)) fun byName byName' hbyName => ?_
  rw [← rel_isEmpty hbyName]
  have hresult : ∀ found found', Forall₂ r.Symbols found found' → Forall₂ r.Symbols
      (dropRepeats (if found.isEmpty then c.implied q else found))
      (dropRepeats (if found'.isEmpty then d.implied p else found')) := by
    intro found found' hfound
    apply rel_dropRepeats h.oneToOne.symbols
    rw [← rel_isEmpty hfound]
    split
    · exact h.implied hqp
    · exact hfound
  cases byName.isEmpty
  · exact pure (hresult _ _ hbyName)
  · exact bind (collect hask (h.allLeads hqp)) fun found found' hfound => pure (hresult _ _ hfound)

theorem exportedWithin {c d : Codebase} (h : r.Files c d) (n n' : Nat) {q p : Question}
    (hqp : r.Questions q p) :
    r.Runs (Forall₂ r.Symbols) (c.exportedWithin n q.1 q.2) (d.exportedWithin n' p.1 p.2) := by
  induction n generalizing n' q p with
  | zero => intro _ _ _ _ _ _ _ hrun; cases hrun
  | succ n ih =>
    cases n' with
    | zero => intro _ _ _ _ _ _ _ _ hrun; cases hrun
    | succ n' =>
      intro asked asked' hasked a later b later' hrun hrun'
      rw [Codebase.exportedWithin_succ] at hrun hrun'
      have hmem : q ∈ asked ↔ p ∈ asked' := List.rel_mem h.oneToOne.questions hqp hasked
      by_cases hq : q ∈ asked
      · rw [if_pos hq] at hrun
        rw [if_pos (hmem.1 hq)] at hrun'
        cases hrun
        cases hrun'
        exact ⟨.nil, hasked⟩
      · rw [if_neg hq] at hrun
        rw [if_neg (mt hmem.2 hq)] at hrun'
        exact scan h hqp (fun q p hqp => ih n' hqp) _ _ (.cons hqp hasked) _ _ _ _ hrun hrun'

end Runs

namespace Files

variable {r : Renumbering} {c d : Codebase} {u v : UnitId} {n : String}

theorem exported (h : r.Files c d) (huv : r.unit u v) (n : String) :
    Forall₂ r.Symbols (c.exported u n) (d.exported v n) := by
  obtain ⟨later, hrun⟩ := c.exists_exportedWithin_eq u n
  obtain ⟨later', hrun'⟩ := d.exists_exportedWithin_eq v n
  exact (Runs.exportedWithin h _ _ (q := (u, n)) (p := (v, n)) ⟨huv, rfl⟩ _ _ .nil _ _ _ _
    hrun hrun').1

theorem lookup (h : r.Files c d) (huv : r.unit u v)
    (hmodules : ∀ b, c.import? u n = some b → r.Modules c d u v b.source) :
    Forall₂ r.Symbols (c.lookup u n) (d.lookup v n) := by
  have hlead := h.nameLead huv hmodules
  cases hc : c.nameLead u n <;> cases hd : d.nameLead v n <;> rw [hc, hd] at hlead <;> cases hlead
  case found hsymbols =>
    rw [Codebase.lookup_of_found hc, Codebase.lookup_of_found hd]
    exact hsymbols
  case ask hqp =>
    rw [Codebase.lookup_of_ask hc, Codebase.lookup_of_ask hd, ← hqp.2]
    exact h.exported hqp.1 _

end Files

end Renumbering

end CallDiagram
