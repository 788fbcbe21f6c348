import CallDiagram.Proofs.Lookup.Answer

/-!
A lookup beside one that follows the same rules but forgets a question as soon as it is answered, so
that only a question on the chain that leads to it is not asked again. Both find nothing at the same
time, and they differ at most in symbols that surface.
-/

namespace CallDiagram.Codebase

/-- What a file exports under a name, unless that is just being asked; one question may lead to at
most `n` others in a row. -/
def exportedOnChain (c : Codebase) : (n : Nat) → UnitId → String → Search (List Symbol)
  | 0, _, _ => failure
  | n + 1, unit, name => do
    let chain ← get
    if chain.contains (unit, name) then return []
    set ((unit, name) :: chain)
    let found ← match c.tables[unit]? with
      | some table => c.exportedBy (c.exportedOnChain n) unit name table
      | none => pure []
    set chain
    return found

def chainLookup (c : Codebase) (unit : UnitId) (name : String) : List Symbol :=
  answer (c.named (c.exportedOnChain c.searchLimit) unit name)

theorem exportedOnChain_succ (c : Codebase) (n : Nat) (q : Question) (chain : Asked) :
    c.exportedOnChain (n + 1) q.1 q.2 chain =
      if q ∈ chain then some ([], chain)
      else (c.scan (c.exportedOnChain n) q (q :: chain)).map fun result => (result.1, chain) := by
  have hrun : c.exportedOnChain (n + 1) q.1 q.2 chain =
      (if chain.contains q then pure [] else do
        set (q :: chain)
        let found ← match c.tables[q.1]? with
          | some table => c.exportedBy (c.exportedOnChain n) q.1 q.2 table
          | none => pure []
        set chain
        return found : Search (List Symbol)) chain := rfl
  rw [hrun]
  by_cases h : q ∈ chain
  · rw [if_pos h, if_pos (List.contains_iff_mem.2 h)]
    rfl
  · rw [if_neg h, if_neg fun hc => h (List.contains_iff_mem.1 hc)]
    cases ht : c.tables[q.1]? with
    | none => rw [scan_eq_of_none c _ ht]; rfl
    | some table => rw [← exportedBy_eq c _ ht, Option.map_eq_bind]; rfl

section Chain

variable {c : Codebase} {start q p : Question} {s : Symbol} {chain : Asked} {found : List Symbol}
  {leads : List Lead}

theorem LeadsTo.step (h : c.LeadsTo chain (.ask q) s) :
    c.Offers q s ∨ ∃ p, c.Asks q p ∧ c.LeadsTo (q :: chain) (.ask p) s := by
  obtain ⟨p, hp, hs⟩ := h
  rcases hp.exit with rfl | ⟨x, hask, hx⟩
  · exact .inl hs
  · exact .inr ⟨x, hask, p, hx.mono fun y hy => by simpa using hy, hs⟩

theorem Shows.step (h : c.Shows chain (.ask q) s) :
    c.Gives q s ∨ ∃ p, c.Passes q p ∧ c.Shows (q :: chain) (.ask p) s := by
  obtain ⟨p, hp, hs⟩ := h
  rcases hp.exit with rfl | ⟨x, hpass, hx⟩
  · exact .inl hs
  · exact .inr ⟨x, hpass, p, hx.mono fun y hy => by simpa using hy, hs⟩

structure OnChain (c : Codebase) (start : Question) (leads : List Lead) (chain : Asked)
    (found : List Symbol) : Prop where
  shown : ∀ l ∈ leads, ∀ s, c.Shows chain l s → s ∈ found
  barren : found = [] → ∀ l ∈ leads, ∀ s, ¬ c.LeadsTo chain l s
  accounts : c.Accounts start chain leads found

namespace OnChain

theorem nil : c.OnChain start [] chain [] where
  shown := by simp
  barren := by simp
  accounts := by simp [Accounts]

theorem symbols (symbols : List Symbol) : c.OnChain start [.found symbols] chain symbols where
  shown l hl s hs := by rwa [List.mem_singleton.1 hl] at hs
  barren hnil l hl s hs := by
    rw [List.mem_singleton.1 hl, hnil] at hs
    exact List.not_mem_nil hs
  accounts s hs := ⟨_, List.mem_singleton_self _, hs, .inl hs⟩

theorem append {others : List Lead} {more : List Symbol} (h : c.OnChain start leads chain found)
    (h' : c.OnChain start others chain more) :
    c.OnChain start (leads ++ others) chain (found ++ more) where
  shown l hl s hs := by
    cases List.mem_append.1 hl with
    | inl hl => exact List.mem_append_left _ (h.shown l hl s hs)
    | inr hl => exact List.mem_append_right _ (h'.shown l hl s hs)
  barren hnil l hl := by
    obtain ⟨hfound, hmore⟩ := List.append_eq_nil_iff.1 hnil
    cases List.mem_append.1 hl with
    | inl hl => exact h.barren hfound l hl
    | inr hl => exact h'.barren hmore l hl
  accounts s hs := by
    cases List.mem_append.1 hs with
    | inl hs =>
      obtain ⟨l, hl, hlead⟩ := h.accounts s hs
      exact ⟨l, List.mem_append_left _ hl, hlead⟩
    | inr hs =>
      obtain ⟨l, hl, hlead⟩ := h'.accounts s hs
      exact ⟨l, List.mem_append_right _ hl, hlead⟩

theorem not_holds (h : c.OnChain start leads (q :: chain) []) (hlink : c.Linked start chain)
    (hq : q ∉ chain) : ∀ l ∈ leads, ¬ c.Holds start q l := by
  intro l hl hold
  cases l with
  | found symbols =>
    obtain ⟨s, hs⟩ := List.exists_mem_of_ne_nil symbols hold
    exact List.not_mem_nil (h.shown _ hl s hs)
  | ask p =>
    obtain ⟨p', s, hpath, hs⟩ := hold
    exact List.not_mem_nil
      (h.shown _ hl s ⟨p', hpath.mono fun x hx => hlink.not_mem_of_inside hq hx, hs⟩)

theorem on_chain (hq : q ∈ chain) : c.OnChain start [.ask q] chain [] where
  shown l hl s hs := by
    rw [List.mem_singleton.1 hl] at hs
    obtain ⟨p, hp, -⟩ := hs
    exact absurd hq hp.1
  barren _ l hl s hs := by
    rw [List.mem_singleton.1 hl] at hs
    obtain ⟨p, hp, -⟩ := hs
    exact hp.1 hq
  accounts := by simp [Accounts]

theorem of_names (h : c.OnChain start (c.nameLeads q) (q :: chain) found) (hq : q ∉ chain)
    (hne : found ≠ []) : c.OnChain start [.ask q] chain (dropRepeats found) where
  shown l hl s hs := by
    rw [List.mem_singleton.1 hl] at hs
    rw [mem_dropRepeats]
    rcases hs.step with (⟨symbols, hl, hs⟩ | ⟨hsilent, -⟩) | ⟨p, hl | ⟨hsilent, -⟩, hs⟩
    · exact h.shown _ hl s hs
    · exact absurd (hsilent.eq_nil h.accounts) hne
    · exact h.shown _ hl s hs
    · exact absurd (hsilent.eq_nil h.accounts) hne
  barren hnil := absurd (dropRepeats_eq_nil.1 hnil) hne
  accounts := .of_names hq h.accounts

theorem of_all (h : c.OnChain start (c.nameLeads q) (q :: chain) [])
    (h' : c.OnChain start (c.allLeads q) (q :: chain) found) (hlink : c.Linked start chain)
    (hfollows : c.Follows start chain q) (hq : q ∉ chain) (hne : found ≠ []) :
    c.OnChain start [.ask q] chain (dropRepeats found) where
  shown l hl s hs := by
    rw [List.mem_singleton.1 hl] at hs
    rw [mem_dropRepeats]
    rcases hs.step with (⟨symbols, hl, hs⟩ | ⟨-, hsilent, -⟩) | ⟨p, hl | ⟨-, hl⟩, hs⟩
    · exact absurd (h.shown _ hl s hs) List.not_mem_nil
    · exact absurd (hsilent.eq_nil h'.accounts) hne
    · exact absurd (h.shown _ hl s hs) List.not_mem_nil
    · exact h'.shown _ hl s hs
  barren hnil := absurd (dropRepeats_eq_nil.1 hnil) hne
  accounts := .of_all hq ((hlink.cons hfollows).reaches List.mem_cons_self) (h.not_holds hlink hq)
    h'.accounts

theorem of_implied (h : c.OnChain start (c.nameLeads q) (q :: chain) [])
    (h' : c.OnChain start (c.allLeads q) (q :: chain) []) (hlink : c.Linked start chain)
    (hfollows : c.Follows start chain q) (hq : q ∉ chain) :
    c.OnChain start [.ask q] chain (dropRepeats (c.implied q)) where
  shown l hl s hs := by
    rw [List.mem_singleton.1 hl] at hs
    rw [mem_dropRepeats]
    rcases hs.step with (⟨symbols, hl, hs⟩ | ⟨-, -, hs⟩) | ⟨p, hl | ⟨-, hl⟩, hs⟩
    · exact absurd (h.shown _ hl s hs) List.not_mem_nil
    · exact hs
    · exact absurd (h.shown _ hl s hs) List.not_mem_nil
    · exact absurd (h'.shown _ hl s hs) List.not_mem_nil
  barren hnil l hl s hs := by
    rw [List.mem_singleton.1 hl] at hs
    rcases hs.step with (⟨symbols, hl, hs⟩ | hs) | ⟨p, hl | hl, hs⟩
    · exact List.not_mem_nil (h.shown _ hl s hs)
    · rw [dropRepeats_eq_nil.1 hnil] at hs
      exact List.not_mem_nil hs
    · exact h.barren rfl _ hl s hs
    · exact h'.barren rfl _ hl s hs
  accounts := .of_implied hq ((hlink.cons hfollows).reaches List.mem_cons_self)
    ((h.append h').not_holds hlink hq)

theorem collect {ask : UnitId → String → Search (List Symbol)}
    (step : ∀ p, .ask p ∈ leads → Ends (ask p.1 p.2) chain fun found later =>
      later = chain ∧ c.OnChain start [.ask p] chain found) :
    Ends (Codebase.collect (Lead.follow ask) leads) chain fun found later =>
      later = chain ∧ c.OnChain start leads chain found := by
  refine Ends.collect (I := fun before => before = chain)
    (R := fun leads before found later =>
      before = chain → later = chain ∧ c.OnChain start leads chain found)
    (fun _ _ h => ⟨h, .nil⟩) ?_ ?_ rfl |>.mono fun _ _ h => h rfl
  · intro l ls before found middle more later h h' hbefore
    obtain ⟨hmiddle, h⟩ := h hbefore
    obtain ⟨hlater, h'⟩ := h' hmiddle
    exact ⟨hlater, h.append h'⟩
  · rintro l hl _ rfl
    cases l with
    | found found => exact Ends.pure ⟨rfl, fun _ => ⟨rfl, .symbols found⟩⟩
    | ask p => exact (step p hl).mono fun found later h => ⟨h.1, fun _ => h⟩

theorem scan {ask : UnitId → String → Search (List Symbol)}
    (step : ∀ p, c.Asks q p → Ends (ask p.1 p.2) (q :: chain) fun found later =>
      later = q :: chain ∧ c.OnChain start [.ask p] (q :: chain) found)
    (hlink : c.Linked start chain) (hfollows : c.Follows start chain q) (hq : q ∉ chain) :
    Ends (c.scan ask q) (q :: chain) fun found _ => c.OnChain start [.ask q] chain found := by
  refine Ends.scan ((collect fun p hp => step p (.inl hp)).mono ?_)
  rintro byName _ ⟨rfl, h⟩
  refine ⟨fun hne => h.of_names hq hne, ?_⟩
  rintro rfl
  apply (collect fun p hp => step p (.inr hp)).mono
  rintro found _ ⟨rfl, h'⟩
  refine ⟨fun hne => h.of_all h' hlink hfollows hq hne, ?_⟩
  rintro rfl
  exact h.of_implied h' hlink hfollows hq

end OnChain

theorem ends_exportedOnChain {names : List String} (hnames : c.requestedNames ⊆ names) (n : Nat)
    (hq : q.2 ∈ names) (hfuel : c.fresh names chain < n) (hlink : c.Linked start chain)
    (hfollows : c.Follows start chain q) :
    Ends (c.exportedOnChain n q.1 q.2) chain fun found later =>
      later = chain ∧ c.OnChain start [.ask q] chain found := by
  induction n generalizing q chain with
  | zero => exact absurd hfuel (Nat.not_lt_zero _)
  | succ n ih =>
    by_cases hchain : q ∈ chain
    · exact ⟨[], chain, by rw [exportedOnChain_succ, if_pos hchain], rfl, .on_chain hchain⟩
    · have step : ∀ p, c.Asks q p →
          Ends (c.exportedOnChain n p.1 p.2) (q :: chain) fun found later =>
            later = q :: chain ∧ c.OnChain start [.ask p] (q :: chain) found := by
        intro p hask
        have hless : c.fresh names (q :: chain) < n :=
          Nat.lt_of_lt_of_le (fresh_cons_lt hask.known.1 hq hchain) (Nat.le_of_lt_succ hfuel)
        exact ih (hask.known.2.elim (fun h => hnames h) (fun h => h ▸ hq)) hless
          (hlink.cons hfollows) (.inr ⟨q, List.mem_cons_self, hask⟩)
      obtain ⟨found, later, hrun, h⟩ := OnChain.scan step hlink hfollows hchain
      exact ⟨found, chain, by rw [exportedOnChain_succ, if_neg hchain, hrun]; rfl, rfl, h⟩

theorem chainLookup_of_found {u : UnitId} {n : String} {symbols : List Symbol}
    (h : c.nameLead u n = .found symbols) : c.chainLookup u n = symbols := by
  rw [chainLookup, named_eq, h]
  rfl

theorem onChain_chainLookup {u : UnitId} {n : String} (h : c.nameLead u n = .ask q) :
    c.OnChain q [.ask q] [] (c.chainLookup u n) := by
  have hlink : c.Linked q [] := .nil
  obtain ⟨found, later, hrun, -, hfound⟩ := ends_exportedOnChain (List.subset_cons_self q.2 _)
    c.searchLimit List.mem_cons_self fresh_lt_searchLimit hlink (.inl rfl)
  rw [chainLookup, named_eq, h, Lead.follow, answer, hrun]
  exact hfound

theorem Explored.mem_or_surfaces {later : Asked} (h : c.Explored q [.ask q] [] later found) :
    (c.Shows [] (.ask q) s → s ∈ found)
      ∧ (s ∈ found → c.Shows [] (.ask q) s ∨ c.Surfaces q s) := by
  constructor
  · rintro ⟨p, hp, hs⟩
    have hmem : p ∈ later := hp.induct (h.asks q List.mem_cons_self) fun x y _ hx hr _ =>
      h.passed x hx List.not_mem_nil y hr
    exact h.given p hmem List.not_mem_nil s hs
  · intro hs
    obtain ⟨l, hl, -, hshow⟩ := h.accounts s hs
    rwa [List.mem_singleton.1 hl] at hshow

theorem OnChain.mem_or_surfaces (h : c.OnChain q [.ask q] [] found) :
    (c.Shows [] (.ask q) s → s ∈ found)
      ∧ (s ∈ found → c.Shows [] (.ask q) s ∨ c.Surfaces q s) := by
  constructor
  · exact fun hs => h.shown _ (List.mem_singleton_self _) s hs
  · intro hs
    obtain ⟨l, hl, -, hshow⟩ := h.accounts s hs
    rwa [List.mem_singleton.1 hl] at hshow

end Chain

/-- Remembering all questions instead of the chain never turns an empty answer into another or the
other way round, and it changes whether a symbol is found only for symbols that surface. -/
theorem lookup_chainLookup (c : Codebase) (u : UnitId) (n : String) :
    (c.lookup u n = [] ↔ c.chainLookup u n = [])
      ∧ ∀ s, (s ∈ c.lookup u n ↔ s ∈ c.chainLookup u n)
          ∨ ∃ q, c.nameLead u n = .ask q ∧ c.Surfaces q s := by
  cases hlead : c.nameLead u n with
  | found symbols => simp [lookup_of_found hlead, chainLookup_of_found hlead]
  | ask q =>
    obtain ⟨later, h⟩ := c.exists_explored_exported q
    have h' := onChain_chainLookup hlead
    rw [lookup_of_ask hlead]
    refine ⟨⟨fun hnil => ?_, fun hnil => ?_⟩, fun s => ?_⟩
    · apply List.eq_nil_iff_forall_not_mem.2
      intro s hs
      obtain ⟨l, hl, hlead, -⟩ := h'.accounts s hs
      rw [List.mem_singleton.1 hl] at hlead
      exact (hnil ▸ h).not_leadsTo hlead
    · apply List.eq_nil_iff_forall_not_mem.2
      intro s hs
      exact h'.barren hnil _ (List.mem_singleton_self _) s (h.leadsTo hs)
    · by_cases hs : c.Surfaces q s
      · exact .inr ⟨q, rfl, hs⟩
      · have hl := h.mem_or_surfaces (s := s)
        have hc := h'.mem_or_surfaces (s := s)
        exact .inl ⟨fun hmem => hc.1 ((hl.2 hmem).resolve_right hs),
          fun hmem => hl.1 ((hc.2 hmem).resolve_right hs)⟩

/-- File 0 imports `n` from file 1, which exports everything of the files 2 and 3. File 2 declares and
exports `n`; file 3 exports that `n` by name and everything of file 4, which has an `n` of its own. -/
def twoWays : Codebase where
  tables := #[
    { imports := ⟨[("n", ⟨"n", "./barrel", .named "n"⟩)]⟩, modules := ⟨[("./barrel", 1)]⟩ },
    { exports := [.all "./near", .all "./far"], modules := ⟨[("./near", 2), ("./far", 3)]⟩ },
    { functions := ⟨[("n", 0)]⟩, exports := [.local "n" "n"] },
    { exports := [.named "n" "n" "./near", .all "./other"],
      modules := ⟨[("./near", 2), ("./other", 4)]⟩ },
    { functions := ⟨[("n", 1)]⟩, exports := [.local "n" "n"] }]

/-- The second way to file 2 is cut, so file 3 seems to export nothing by name, and what it hides
surfaces. -/
theorem twoWays_lookup :
    .function 1 ∈ twoWays.lookup 0 "n" ∧ .function 1 ∉ twoWays.chainLookup 0 "n" := by
  decide

end CallDiagram.Codebase
