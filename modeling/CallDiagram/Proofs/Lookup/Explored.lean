import CallDiagram.Proofs.Lookup.Search

namespace CallDiagram.Codebase

def Linked (c : Codebase) (start : Question) (asked : Asked) : Prop :=
  ∀ q ∈ asked, Along c.Asks (· ∈ asked) start q

def Follows (c : Codebase) (start : Question) (asked : Asked) (q : Question) : Prop :=
  q = start ∨ ∃ p ∈ asked, c.Asks p q

section Linked

variable {c : Codebase} {start q p : Question} {asked later : Asked}

theorem Linked.nil : c.Linked start [] := fun _ h => absurd h List.not_mem_nil

theorem Linked.cons (h : c.Linked start asked) (hq : c.Follows start asked q) :
    c.Linked start (q :: asked) := by
  intro p hp
  rcases List.mem_cons.1 hp with rfl | hp
  · rcases hq with rfl | ⟨k, hk, hask⟩
    · exact .refl List.mem_cons_self
    · exact ((h k hk).mono fun x => List.mem_cons_of_mem p).tail hask List.mem_cons_self
  · exact (h p hp).mono fun x => List.mem_cons_of_mem q

theorem Linked.reaches (h : c.Linked start asked) (hq : q ∈ asked) :
    Relation.ReflTransGen c.Asks start q :=
  Relation.ReflTransGen.mono (fun _ _ hr => hr.1) _ _ (h q hq).2

theorem Linked.not_mem_of_inside (h : c.Linked start asked) (hq : q ∉ asked)
    (hp : c.Inside start q p) : p ∉ q :: asked := by
  intro hmem
  rcases List.mem_cons.1 hmem with rfl | hmem
  · exact hp.1 rfl
  · exact hp.2 ((h p hmem).mono fun x hx hxq => hq (hxq ▸ hx))

end Linked

/-- What the following of leads comes to in a search that asks each question once. -/
structure Explored (c : Codebase) (start : Question) (leads : List Lead) (asked later : Asked)
    (found : List Symbol) : Prop where
  subset : asked ⊆ later
  linked : c.Linked start later
  asks : ∀ q, .ask q ∈ leads → q ∈ later
  finds : ∀ symbols, .found symbols ∈ leads → symbols ⊆ found
  passed : ∀ q ∈ later, q ∉ asked → ∀ p, c.Passes q p → p ∈ later
  given : ∀ q ∈ later, q ∉ asked → ∀ s, c.Gives q s → s ∈ found
  barren : found = [] → ∀ q ∈ later, q ∉ asked → (∀ p, c.Asks q p → p ∈ later) ∧ ∀ s, ¬ c.Offers q s
  accounts : c.Accounts start asked leads found

namespace Explored

variable {c : Codebase} {start q : Question} {asked middle later : Asked} {found more : List Symbol}
  {leads others : List Lead}

theorem nil (h : c.Linked start asked) : c.Explored start [] asked asked [] where
  subset := List.Subset.refl _
  linked := h
  asks := by simp
  finds := by simp
  passed q hq hn := absurd hq hn
  given q hq hn := absurd hq hn
  barren _ q hq hn := absurd hq hn
  accounts := by simp [Accounts]

theorem symbols (h : c.Linked start asked) (symbols : List Symbol) :
    c.Explored start [.found symbols] asked asked symbols where
  subset := List.Subset.refl _
  linked := h
  asks := by simp
  finds := by simp
  passed q hq hn := absurd hq hn
  given q hq hn := absurd hq hn
  barren _ q hq hn := absurd hq hn
  accounts s hs := ⟨_, List.mem_singleton_self _, hs, .inl hs⟩

theorem append (h : c.Explored start leads asked middle found)
    (h' : c.Explored start others middle later more) :
    c.Explored start (leads ++ others) asked later (found ++ more) where
  subset := List.Subset.trans h.subset h'.subset
  linked := h'.linked
  asks q hq := by
    cases List.mem_append.1 hq with
    | inl hq => exact h'.subset (h.asks q hq)
    | inr hq => exact h'.asks q hq
  finds symbols hs := by
    cases List.mem_append.1 hs with
    | inl hs => exact List.Subset.trans (h.finds symbols hs) (List.subset_append_left _ _)
    | inr hs => exact List.Subset.trans (h'.finds symbols hs) (List.subset_append_right _ _)
  passed q hq hn p hp := by
    by_cases hm : q ∈ middle
    · exact h'.subset (h.passed q hm hn p hp)
    · exact h'.passed q hq hm p hp
  given q hq hn s hs := by
    by_cases hm : q ∈ middle
    · exact List.mem_append_left _ (h.given q hm hn s hs)
    · exact List.mem_append_right _ (h'.given q hq hm s hs)
  barren hnil q hq hn := by
    obtain ⟨hfound, hmore⟩ := List.append_eq_nil_iff.1 hnil
    by_cases hm : q ∈ middle
    · obtain ⟨hasks, hoffers⟩ := h.barren hfound q hm hn
      exact ⟨fun p hp => h'.subset (hasks p hp), hoffers⟩
    · exact h'.barren hmore q hq hm
  accounts s hs := by
    cases List.mem_append.1 hs with
    | inl hs =>
      obtain ⟨l, hl, hlead⟩ := h.accounts s hs
      exact ⟨l, List.mem_append_left _ hl, hlead⟩
    | inr hs =>
      obtain ⟨l, hl, hlead, hshow⟩ := h'.accounts s hs
      exact ⟨l, List.mem_append_right _ hl, hlead.mono h.subset, hshow⟩

theorem not_holds (h : c.Explored start leads (q :: asked) later []) (hlink : c.Linked start asked)
    (hq : q ∉ asked) : ∀ l ∈ leads, ¬ c.Holds start q l := by
  intro l hl hold
  cases l with
  | found symbols =>
    exact hold (List.subset_nil.1 (h.finds symbols hl))
  | ask p =>
    obtain ⟨p', s, hpath, hs⟩ := hold
    have hp' : p' ∈ later := by
      apply hpath.induct (h.asks p hl)
      intro x y hx hmem hr hy
      exact h.passed x hmem (hlink.not_mem_of_inside hq hx) y hr
    exact List.not_mem_nil (h.given p' hp' (hlink.not_mem_of_inside hq hpath.right) s hs)

theorem ask (h : c.Explored start leads (q :: asked) later found) (hq : q ∉ asked)
    {result : List Symbol} (hsub : found ⊆ result)
    (hpasses : ∀ p, c.Passes q p → p ∈ later) (hgives : ∀ s, c.Gives q s → s ∈ result)
    (hbarren : result = [] → (∀ p, c.Asks q p → p ∈ later) ∧ ∀ s, ¬ c.Offers q s)
    (haccounts : c.Accounts start asked [.ask q] result) :
    c.Explored start [.ask q] asked later result where
  subset := List.Subset.trans (List.subset_cons_self q asked) h.subset
  linked := h.linked
  asks p hp := by
    obtain rfl : p = q := by simpa using hp
    exact h.subset List.mem_cons_self
  finds := by simp
  passed p hp hn := by
    by_cases hpq : p = q
    · exact hpq ▸ hpasses
    · exact h.passed p hp (by simp [hpq, hn])
  given p hp hn s hs := by
    by_cases hpq : p = q
    · exact hgives s (hpq ▸ hs)
    · exact hsub (h.given p hp (by simp [hpq, hn]) s hs)
  barren hnil p hp hn := by
    by_cases hpq : p = q
    · exact hpq ▸ hbarren hnil
    · exact h.barren (List.subset_nil.1 (hnil ▸ hsub)) p hp (by simp [hpq, hn])
  accounts := haccounts

theorem asked_before (h : c.Linked start asked) (hq : q ∈ asked) :
    c.Explored start [.ask q] asked asked [] where
  subset := List.Subset.refl _
  linked := h
  asks p hp := by
    obtain rfl : p = q := by simpa using hp
    exact hq
  finds := by simp
  passed p hp hn := absurd hp hn
  given p hp hn := absurd hp hn
  barren _ p hp hn := absurd hp hn
  accounts := by simp [Accounts]

theorem of_names (h : c.Explored start (c.nameLeads q) (q :: asked) later found) (hq : q ∉ asked)
    (hne : found ≠ []) : c.Explored start [.ask q] asked later (dropRepeats found) := by
  refine h.ask hq (fun s => mem_dropRepeats.2) ?_ ?_ ?_ (.of_names hq h.accounts)
  · rintro p (hp | ⟨hsilent, -⟩)
    · exact h.asks p hp
    · exact absurd (hsilent.eq_nil h.accounts) hne
  · rintro s (⟨symbols, hl, hs⟩ | ⟨hsilent, -⟩)
    · exact mem_dropRepeats.2 (h.finds symbols hl hs)
    · exact absurd (hsilent.eq_nil h.accounts) hne
  · exact fun hnil => absurd (dropRepeats_eq_nil.1 hnil) hne

theorem of_all (h : c.Explored start (c.nameLeads q) (q :: asked) middle [])
    (h' : c.Explored start (c.allLeads q) middle later found) (hlink : c.Linked start asked)
    (hq : q ∉ asked) (hne : found ≠ []) :
    c.Explored start [.ask q] asked later (dropRepeats found) := by
  have hboth := h.append h'
  have haccounts := h'.accounts.mono h.subset
  refine hboth.ask hq (fun s => mem_dropRepeats.2) ?_ ?_ ?_
    (.of_all hq (h.linked.reaches (h.subset List.mem_cons_self)) (h.not_holds hlink hq) haccounts)
  · rintro p (hp | ⟨-, hp⟩)
    · exact hboth.asks p (List.mem_append_left _ hp)
    · exact hboth.asks p (List.mem_append_right _ hp)
  · rintro s (⟨symbols, hl, hs⟩ | ⟨-, hsilent, -⟩)
    · exact absurd (h.finds symbols hl hs) List.not_mem_nil
    · exact absurd (hsilent.eq_nil haccounts) hne
  · exact fun hnil => absurd (dropRepeats_eq_nil.1 hnil) hne

theorem of_implied (h : c.Explored start (c.nameLeads q) (q :: asked) middle [])
    (h' : c.Explored start (c.allLeads q) middle later []) (hlink : c.Linked start asked)
    (hq : q ∉ asked) : c.Explored start [.ask q] asked later (dropRepeats (c.implied q)) := by
  have hboth := h.append h'
  have hasks : ∀ p, c.Asks q p → p ∈ later := fun p hp => hboth.asks p (List.mem_append.2 hp)
  refine hboth.ask hq (List.nil_subset _) (fun p hp => hasks p hp.asks) ?_ ?_
    (.of_implied hq (h.linked.reaches (h.subset List.mem_cons_self)) (hboth.not_holds hlink hq))
  · rintro s (⟨symbols, hl, hs⟩ | ⟨-, -, hs⟩)
    · exact absurd (h.finds symbols hl hs) List.not_mem_nil
    · exact mem_dropRepeats.2 hs
  · rintro hnil
    refine ⟨hasks, fun s hs => ?_⟩
    rcases hs with ⟨symbols, hl, hs⟩ | hs
    · exact List.not_mem_nil (h.finds symbols hl hs)
    · rw [dropRepeats_eq_nil.1 hnil] at hs
      exact List.not_mem_nil hs

theorem collect {ask : UnitId → String → Search (List Symbol)}
    (step : ∀ p before, .ask p ∈ leads → asked ⊆ before → c.Linked start before →
      Ends (ask p.1 p.2) before fun found later => c.Explored start [.ask p] before later found)
    (hsub : asked ⊆ middle) (h : c.Linked start middle) :
    Ends (Codebase.collect (Lead.follow ask) leads) middle fun found later =>
      c.Explored start leads middle later found := by
  refine Ends.collect (I := fun before => asked ⊆ before ∧ c.Linked start before)
    (R := fun leads before found later => c.Explored start leads before later found)
    (fun _ h => .nil h.2) (fun _ _ _ _ _ _ _ h h' => h.append h') ?_ ⟨hsub, h⟩
  intro l hl before ⟨hsub, hbefore⟩
  cases l with
  | found symbols => exact Ends.pure ⟨⟨hsub, hbefore⟩, .symbols hbefore symbols⟩
  | ask p =>
    apply (step p before hl hsub hbefore).mono
    intro found later h
    exact ⟨⟨List.Subset.trans hsub h.subset, h.linked⟩, h⟩

theorem scan {ask : UnitId → String → Search (List Symbol)}
    (step : ∀ p before, c.Asks q p → q :: asked ⊆ before → c.Linked start before →
      Ends (ask p.1 p.2) before fun found later => c.Explored start [.ask p] before later found)
    (hlink : c.Linked start asked) (hfollows : c.Follows start asked q) (hq : q ∉ asked) :
    Ends (c.scan ask q) (q :: asked) fun found later =>
      c.Explored start [.ask q] asked later found := by
  refine Ends.scan ((collect (fun p before hp => step p before (.inl hp)) (List.Subset.refl _)
    (hlink.cons hfollows)).mono fun byName middle h => ⟨fun hne => h.of_names hq hne, ?_⟩)
  rintro rfl
  refine (collect (fun p before hp => step p before (.inr hp)) h.subset h.linked).mono
    fun found later h' => ⟨fun hne => h.of_all h' hlink hq hne, ?_⟩
  rintro rfl
  exact h.of_implied h' hlink hq

end Explored

theorem ends_exportedWithin {c : Codebase} {start : Question} {names : List String}
    (hnames : c.requestedNames ⊆ names) (n : Nat) {q : Question} {asked : Asked}
    (hq : q.2 ∈ names) (hfuel : c.fresh names asked < n) (hlink : c.Linked start asked)
    (hfollows : c.Follows start asked q) :
    Ends (c.exportedWithin n q.1 q.2) asked fun found later =>
      c.Explored start [.ask q] asked later found := by
  induction n generalizing q asked with
  | zero => exact absurd hfuel (Nat.not_lt_zero _)
  | succ n ih =>
    by_cases hasked : q ∈ asked
    · exact ⟨[], asked, by rw [exportedWithin_succ, if_pos hasked], .asked_before hlink hasked⟩
    · have step : ∀ p before, c.Asks q p → q :: asked ⊆ before → c.Linked start before →
          Ends (c.exportedWithin n p.1 p.2) before fun found later =>
            c.Explored start [.ask p] before later found := by
        intro p before hask hsub hbefore
        have hless : c.fresh names before < n :=
          calc c.fresh names before ≤ c.fresh names (q :: asked) := fresh_anti hsub
            _ < c.fresh names asked := fresh_cons_lt hask.known.1 hq hasked
            _ ≤ n := Nat.le_of_lt_succ hfuel
        exact ih (hask.known.2.elim (fun h => hnames h) (fun h => h ▸ hq)) hless hbefore
          (.inr ⟨q, hsub List.mem_cons_self, hask⟩)
      obtain ⟨found, later, hrun, h⟩ := Explored.scan step hlink hfollows hasked
      exact ⟨found, later, by rw [exportedWithin_succ, if_neg hasked, hrun], h⟩

end CallDiagram.Codebase
