import CallDiagram.Proofs.Lookup.Derivable

/-!
Which symbols a search can find for a question, whatever it has asked before. A question passes on
what nothing of an upper level hides; a hidden symbol can surface only where the upper level holds
nothing that is reached by way of the question alone.
-/

namespace CallDiagram

def Along {α : Type} (r : α → α → Prop) (P : α → Prop) (a b : α) : Prop :=
  P a ∧ Relation.ReflTransGen (fun x y => r x y ∧ P y) a b

namespace Along

variable {α : Type} {r : α → α → Prop} {P Q : α → Prop} {a b d : α}

theorem refl (h : P a) : Along r P a a := ⟨h, .refl⟩

theorem tail (h : Along r P a b) (hr : r b d) (hd : P d) : Along r P a d :=
  ⟨h.1, h.2.tail ⟨hr, hd⟩⟩

theorem head (ha : P a) (hr : r a b) (h : Along r P b d) : Along r P a d :=
  ⟨ha, h.2.head ⟨hr, h.1⟩⟩

theorem mono (hPQ : ∀ x, P x → Q x) (h : Along r P a b) : Along r Q a b :=
  ⟨hPQ _ h.1, Relation.ReflTransGen.mono (fun _ y hr => ⟨hr.1, hPQ y hr.2⟩) _ _ h.2⟩

theorem right (h : Along r P a b) : P b := by
  obtain ⟨ha, h⟩ := h
  cases h with
  | refl => exact ha
  | tail _ hr => exact hr.2

theorem induct {M : α → Prop} (h : Along r P a b) (ha : M a)
    (step : ∀ x y, P x → M x → r x y → P y → M y) : M b := by
  obtain ⟨hP, h⟩ := h
  have key : P b ∧ M b := by
    induction h with
    | refl => exact ⟨hP, ha⟩
    | tail _ hr ih => exact ⟨hr.2, step _ _ ih.1 ih.2 hr.1 hr.2⟩
  exact key.2

theorem exit (h : Along r P a b) :
    b = a ∨ ∃ x, r a x ∧ Along r (fun y => y ≠ a ∧ P y) x b := by
  obtain ⟨-, h⟩ := h
  induction h with
  | refl => exact .inl rfl
  | @tail x y _ hr ih =>
    by_cases hy : y = a
    · exact .inl hy
    · rcases ih with rfl | ⟨z, haz, hz⟩
      · exact .inr ⟨y, hr.1, refl ⟨hy, hr.2⟩⟩
      · exact .inr ⟨z, haz, hz.tail hr.1 ⟨hy, hr.2⟩⟩

end Along

namespace Codebase

def Asks (c : Codebase) (q p : Question) : Prop := .ask p ∈ c.nameLeads q ∨ .ask p ∈ c.allLeads q

def Offers (c : Codebase) (q : Question) (s : Symbol) : Prop :=
  (∃ symbols, .found symbols ∈ c.nameLeads q ∧ s ∈ symbols) ∨ s ∈ c.implied q

def LeadsTo (c : Codebase) (blocked : List Question) : Lead → Symbol → Prop
  | .found symbols, s => s ∈ symbols
  | .ask q, s => ∃ p, Along c.Asks (· ∉ blocked) q p ∧ c.Offers p s

def Silent (c : Codebase) (q : Question) (leads : List Lead) : Prop :=
  ∀ l ∈ leads, ∀ s, ¬ c.LeadsTo [q] l s

def Passes (c : Codebase) (q p : Question) : Prop :=
  .ask p ∈ c.nameLeads q ∨ c.Silent q (c.nameLeads q) ∧ .ask p ∈ c.allLeads q

def Gives (c : Codebase) (q : Question) (s : Symbol) : Prop :=
  (∃ symbols, .found symbols ∈ c.nameLeads q ∧ s ∈ symbols)
    ∨ c.Silent q (c.nameLeads q) ∧ c.Silent q (c.allLeads q) ∧ s ∈ c.implied q

def Shows (c : Codebase) (blocked : List Question) : Lead → Symbol → Prop
  | .found symbols, s => s ∈ symbols
  | .ask q, s => ∃ p, Along c.Passes (· ∉ blocked) q p ∧ c.Gives p s

def Inside (c : Codebase) (start q p : Question) : Prop :=
  p ≠ q ∧ ¬ Along c.Asks (· ≠ q) start p

def Holds (c : Codebase) (start q : Question) : Lead → Prop
  | .found symbols => symbols ≠ []
  | .ask p => ∃ p' s, Along c.Passes (c.Inside start q) p p' ∧ c.Gives p' s

/-- Some question that is reached from `start` has the symbol on a level below one that leads to
something but holds nothing. -/
def Surfaces (c : Codebase) (start : Question) (s : Symbol) : Prop :=
  ∃ q, Relation.ReflTransGen c.Asks start q ∧
    ((¬ c.Silent q (c.nameLeads q) ∧ (∀ l ∈ c.nameLeads q, ¬ c.Holds start q l)
        ∧ ∃ l ∈ c.allLeads q, c.LeadsTo [q] l s)
      ∨ ¬ (c.Silent q (c.nameLeads q) ∧ c.Silent q (c.allLeads q))
        ∧ (∀ l ∈ c.nameLeads q ++ c.allLeads q, ¬ c.Holds start q l) ∧ s ∈ c.implied q)

section Levels

variable {c : Codebase} {start q p : Question} {s : Symbol} {l : Lead} {leads : List Lead}
  {blocked : List Question}

theorem Passes.asks (h : c.Passes q p) : c.Asks q p := h.imp id And.right

theorem LeadsTo.mono {fewer : List Question} (h : c.LeadsTo blocked l s) (hsub : fewer ⊆ blocked) :
    c.LeadsTo fewer l s := by
  cases l with
  | found => exact h
  | ask q =>
    obtain ⟨p, hp, hs⟩ := h
    exact ⟨p, hp.mono fun x hx hf => hx (hsub hf), hs⟩

theorem symbols_eq_nil_of_mem_allLeads {symbols : List Symbol}
    (h : .found symbols ∈ c.allLeads q) : symbols = [] := by
  rw [allLeads] at h
  split at h
  · cases h
  · obtain ⟨e, -, he⟩ := List.mem_map.1 h
    cases e with
    | all source =>
      rw [entryAllLead] at he
      split at he
      · cases he
      · exact (Lead.found.inj he).symm
    | _ => exact (Lead.found.inj he).symm

theorem derivable_exported_iff_leadsTo :
    c.Derivable (.exported q.1 q.2) s ↔ c.LeadsTo [] (.ask q) s := by
  constructor
  · refine Derivable.exportedRec (P := fun q s => c.LeadsTo [] (.ask q) s) ?_ ?_ ?_
    · intro q symbols s hl hs
      exact ⟨q, .refl List.not_mem_nil, .inl ⟨symbols, hl, hs⟩⟩
    · intro q s hs
      exact ⟨q, .refl List.not_mem_nil, .inr hs⟩
    · rintro q p s hask - ⟨p', hp, hs⟩
      exact ⟨p', hp.head List.not_mem_nil hask, hs⟩
  · rintro ⟨p, ⟨-, hp⟩, hs⟩
    induction hp using Relation.ReflTransGen.head_induction_on with
    | refl =>
      rcases hs with ⟨symbols, hl, hs⟩ | hs
      · exact derivable_exported_iff.2 (.inl ⟨_, hl, hs⟩)
      · exact derivable_exported_iff.2 (.inr (.inr hs))
    | head hr _ ih =>
      cases hr.1 with
      | inl hl => exact derivable_exported_iff.2 (.inl ⟨_, hl, ih⟩)
      | inr hl => exact derivable_exported_iff.2 (.inr (.inl ⟨_, hl, ih⟩))

theorem Shows.of_gives (h : c.Gives q s) : c.Shows [] (.ask q) s :=
  ⟨q, .refl List.not_mem_nil, h⟩

theorem Shows.of_passes (hp : c.Passes q p) (h : c.Shows [] (.ask p) s) : c.Shows [] (.ask q) s := by
  obtain ⟨p', hp', hs⟩ := h
  exact ⟨p', hp'.head List.not_mem_nil hp, hs⟩

theorem LeadsTo.of_lead (hq : q ∉ blocked) (hl : l ∈ c.nameLeads q ∨ l ∈ c.allLeads q)
    (h : c.LeadsTo (q :: blocked) l s) : c.LeadsTo blocked (.ask q) s := by
  cases l with
  | found symbols =>
    cases hl with
    | inl hl => exact ⟨q, .refl hq, .inl ⟨symbols, hl, h⟩⟩
    | inr hl =>
      rw [symbols_eq_nil_of_mem_allLeads hl] at h
      cases h
  | ask p =>
    obtain ⟨p', hp, hs⟩ := h
    have hp' : Along c.Asks (· ∉ blocked) p p' := hp.mono fun x hx hb => hx (List.mem_cons_of_mem q hb)
    exact ⟨p', hp'.head hq hl, hs⟩

/-- What was found for some leads can be accounted for: a lead comes to it past what was asked
before, and shows it unless it surfaces. -/
def Accounts (c : Codebase) (start : Question) (blocked : List Question) (leads : List Lead)
    (found : List Symbol) : Prop :=
  ∀ s ∈ found, ∃ l ∈ leads, c.LeadsTo blocked l s ∧ (c.Shows [] l s ∨ c.Surfaces start s)

theorem Accounts.mono {found : List Symbol} {fewer : List Question}
    (h : c.Accounts start blocked leads found) (hsub : fewer ⊆ blocked) :
    c.Accounts start fewer leads found := by
  intro s hs
  obtain ⟨l, hl, hlead, hshow⟩ := h s hs
  exact ⟨l, hl, hlead.mono hsub, hshow⟩

theorem Silent.eq_nil {found : List Symbol} (h : c.Silent q leads)
    (hfound : c.Accounts start (q :: blocked) leads found) : found = [] := by
  apply List.eq_nil_iff_forall_not_mem.2
  intro s hs
  obtain ⟨l, hl, hlead, -⟩ := hfound s hs
  exact h l hl s (hlead.mono (List.cons_subset_cons q (List.nil_subset _)))

theorem Accounts.of_names {found : List Symbol} (hq : q ∉ blocked)
    (h : c.Accounts start (q :: blocked) (c.nameLeads q) found) :
    c.Accounts start blocked [.ask q] (dropRepeats found) := by
  intro s hs
  obtain ⟨l, hl, hlead, hshow⟩ := h s (mem_dropRepeats.1 hs)
  refine ⟨_, List.mem_singleton_self _, hlead.of_lead hq (.inl hl), hshow.imp_left fun hshow => ?_⟩
  cases l with
  | found symbols => exact .of_gives (.inl ⟨symbols, hl, hshow⟩)
  | ask p => exact .of_passes (.inl hl) hshow

theorem Accounts.of_all {found : List Symbol} (hq : q ∉ blocked)
    (hstart : Relation.ReflTransGen c.Asks start q)
    (hnames : ∀ l ∈ c.nameLeads q, ¬ c.Holds start q l)
    (h : c.Accounts start (q :: blocked) (c.allLeads q) found) :
    c.Accounts start blocked [.ask q] (dropRepeats found) := by
  intro s hs
  obtain ⟨l, hl, hlead, hshow⟩ := h s (mem_dropRepeats.1 hs)
  refine ⟨_, List.mem_singleton_self _, hlead.of_lead hq (.inr hl), ?_⟩
  by_cases hsilent : c.Silent q (c.nameLeads q)
  · apply hshow.imp_left
    intro hshow
    cases l with
    | found symbols =>
      rw [symbols_eq_nil_of_mem_allLeads hl] at hshow
      cases hshow
    | ask p => exact .of_passes (.inr ⟨hsilent, hl⟩) hshow
  · exact .inr ⟨q, hstart, .inl ⟨hsilent, hnames, l, hl,
      hlead.mono (List.cons_subset_cons q (List.nil_subset _))⟩⟩

theorem Accounts.of_implied (hq : q ∉ blocked) (hstart : Relation.ReflTransGen c.Asks start q)
    (hlevels : ∀ l ∈ c.nameLeads q ++ c.allLeads q, ¬ c.Holds start q l) :
    c.Accounts start blocked [.ask q] (dropRepeats (c.implied q)) := by
  intro s hs
  have hs := mem_dropRepeats.1 hs
  refine ⟨_, List.mem_singleton_self _, ⟨q, .refl hq, .inr hs⟩, ?_⟩
  by_cases hsilent : c.Silent q (c.nameLeads q) ∧ c.Silent q (c.allLeads q)
  · exact .inl (.of_gives (.inr ⟨hsilent.1, hsilent.2, hs⟩))
  · exact .inr ⟨q, hstart, .inr ⟨hsilent, hlevels, hs⟩⟩

end Levels

end Codebase

end CallDiagram
