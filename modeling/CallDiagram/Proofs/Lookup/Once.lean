import CallDiagram.Proofs.Lookup.Answer

namespace CallDiagram.Codebase

variable {c : Codebase} {q : Question} {leads : List Lead} {asked later later' : Asked}
  {scans scans' : List Question} {found found' : List Symbol}

/-- The run of a search along some leads: the questions asked before it, the scans that it makes, what
it finds and the questions asked by its end. -/
inductive Runs (c : Codebase) : List Lead → Asked → List Question → List Symbol → Asked → Prop
  | nil {asked : Asked} : Runs c [] asked [] [] asked
  | found {symbols more : List Symbol} {leads : List Lead} {asked later : Asked} {scans : List Question} :
    Runs c leads asked scans more later → Runs c (.found symbols :: leads) asked scans (symbols ++ more) later
  | again {q : Question} {more : List Symbol} {leads : List Lead} {asked later : Asked}
      {scans : List Question} :
    q ∈ asked → Runs c leads asked scans more later → Runs c (.ask q :: leads) asked scans more later
  | byName {q : Question} {byName more : List Symbol} {leads : List Lead} {asked middle later : Asked}
      {named rest : List Question} :
    q ∉ asked → Runs c (c.nameLeads q) (q :: asked) named byName middle → byName ≠ [] →
      Runs c leads middle rest more later →
        Runs c (.ask q :: leads) asked (q :: named ++ rest) (dropRepeats byName ++ more) later
  | byAll {q : Question} {all more : List Symbol} {leads : List Lead} {asked first middle later : Asked}
      {named listed rest : List Question} :
    q ∉ asked → Runs c (c.nameLeads q) (q :: asked) named [] first →
      Runs c (c.allLeads q) first listed all middle → Runs c leads middle rest more later →
        Runs c (.ask q :: leads) asked (q :: named ++ listed ++ rest)
          (dropRepeats (if all.isEmpty then c.implied q else all) ++ more) later

namespace Runs

theorem later_eq (h : c.Runs leads asked scans found later) : later = scans.reverse ++ asked := by
  induction h with
  | nil => rfl
  | found _ ih => exact ih
  | again _ _ ih => exact ih
  | byName _ _ _ _ ihnamed ihrest => simp [ihrest, ihnamed]
  | byAll _ _ _ _ ihnamed ihall ihrest => simp [ihrest, ihall, ihnamed]

theorem nodup (h : c.Runs leads asked scans found later) (hasked : asked.Nodup) : later.Nodup := by
  induction h with
  | nil => exact hasked
  | found _ ih => exact ih hasked
  | again _ _ ih => exact ih hasked
  | byName hq _ _ _ ihnamed ihrest => exact ihrest (ihnamed (List.nodup_cons.2 ⟨hq, hasked⟩))
  | byAll hq _ _ _ ihnamed ihall ihrest =>
    exact ihrest (ihall (ihnamed (List.nodup_cons.2 ⟨hq, hasked⟩)))

theorem unique (h : c.Runs leads asked scans found later) (h' : c.Runs leads asked scans' found' later') :
    scans = scans' ∧ found = found' ∧ later = later' := by
  induction h generalizing scans' found' later' with
  | nil =>
    cases h'
    exact ⟨rfl, rfl, rfl⟩
  | found _ ih =>
    cases h' with
    | found hrest =>
      obtain ⟨rfl, rfl, rfl⟩ := ih hrest
      exact ⟨rfl, rfl, rfl⟩
  | again hq _ ih =>
    cases h' with
    | again _ hrest => exact ih hrest
    | byName hn | byAll hn => exact absurd hq hn
  | byName hq _ hne _ ihnamed ihrest =>
    cases h' with
    | again hasked => exact absurd hasked hq
    | byName _ hnamed _ hrest =>
      obtain ⟨rfl, rfl, rfl⟩ := ihnamed hnamed
      obtain ⟨rfl, rfl, rfl⟩ := ihrest hrest
      exact ⟨rfl, rfl, rfl⟩
    | byAll _ hnamed => exact absurd (ihnamed hnamed).2.1 hne
  | byAll hq _ _ _ ihnamed ihall ihrest =>
    cases h' with
    | again hasked => exact absurd hasked hq
    | byName _ hnamed hne => exact absurd (ihnamed hnamed).2.1.symm hne
    | byAll _ hnamed hall hrest =>
      obtain ⟨rfl, -, rfl⟩ := ihnamed hnamed
      obtain ⟨rfl, rfl, rfl⟩ := ihall hall
      obtain ⟨rfl, rfl, rfl⟩ := ihrest hrest
      exact ⟨rfl, rfl, rfl⟩

theorem mem_names {names : List String} (h : c.Runs leads asked scans found later)
    (hnames : c.requestedNames ⊆ names) (hleads : ∀ q, .ask q ∈ leads → q.2 ∈ names) :
    ∀ q ∈ scans, q.2 ∈ names := by
  have hstep : ∀ {q p : Question}, q.2 ∈ names → c.Asks q p → p.2 ∈ names := fun hq hasks =>
    hasks.known.2.elim (fun h => hnames h) fun h => h ▸ hq
  induction h with
  | nil => simp
  | found _ ih => exact ih fun q hq => hleads q (List.mem_cons_of_mem _ hq)
  | again _ _ ih => exact ih fun q hq => hleads q (List.mem_cons_of_mem _ hq)
  | @byName q _ _ _ _ _ _ _ _ _ _ _ _ ihnamed ihrest =>
    have hq := hleads q List.mem_cons_self
    intro p hp
    rcases List.mem_append.1 hp with hp | hp
    · rcases List.mem_cons.1 hp with rfl | hp
      · exact hq
      · exact ihnamed (fun k hk => hstep hq (.inl hk)) p hp
    · exact ihrest (fun k hk => hleads k (List.mem_cons_of_mem _ hk)) p hp
  | @byAll q _ _ _ _ _ _ _ _ _ _ _ _ _ _ ihnamed ihall ihrest =>
    have hq := hleads q List.mem_cons_self
    intro p hp
    rcases List.mem_append.1 hp with hp | hp
    · rcases List.mem_append.1 hp with hp | hp
      · rcases List.mem_cons.1 hp with rfl | hp
        · exact hq
        · exact ihnamed (fun k hk => hstep hq (.inl hk)) p hp
      · exact ihall (fun k hk => hstep hq (.inr hk)) p hp
    · exact ihrest (fun k hk => hleads k (List.mem_cons_of_mem _ hk)) p hp

end Runs

section Search

variable {α β : Type}

theorem bind_eq_some_iff {m : Search α} {f : α → Search β} {b : β} :
    (m >>= f) asked = some (b, later) ↔
      ∃ a middle, m asked = some (a, middle) ∧ f a middle = some (b, later) := by
  change (m asked).bind (fun p => f p.1 p.2) = _ ↔ _
  rw [Option.bind_eq_some_iff, Prod.exists]

theorem pure_eq_some_iff {a b : α} :
    (pure a : Search α) asked = some (b, later) ↔ a = b ∧ asked = later := by
  change some (a, asked) = some (b, later) ↔ _
  rw [Option.some.injEq, Prod.mk.injEq]

theorem collect_cons_eq_some {f : α → Search (List Symbol)} {a : α} {rest : List α}
    (h : collect f (a :: rest) asked = some (found, later)) :
    ∃ own middle more, f a asked = some (own, middle) ∧ collect f rest middle = some (more, later)
      ∧ own ++ more = found := by
  obtain ⟨own, middle, hown, h⟩ := bind_eq_some_iff.1 h
  obtain ⟨more, last, hmore, h⟩ := bind_eq_some_iff.1 h
  obtain ⟨heq, rfl⟩ := pure_eq_some_iff.1 h
  exact ⟨own, middle, more, hown, hmore, heq⟩

theorem scan_eq_some {ask : UnitId → String → Search (List Symbol)}
    (h : c.scan ask q asked = some (found, later)) :
    ∃ byName middle, collect (Lead.follow ask) (c.nameLeads q) asked = some (byName, middle)
      ∧ ((byName ≠ [] ∧ middle = later ∧ dropRepeats byName = found)
        ∨ (byName = [] ∧ ∃ all, collect (Lead.follow ask) (c.allLeads q) middle = some (all, later)
            ∧ dropRepeats (if all.isEmpty then c.implied q else all) = found)) := by
  obtain ⟨byName, middle, hnamed, h⟩ := bind_eq_some_iff.1 h
  refine ⟨byName, middle, hnamed, ?_⟩
  by_cases hempty : byName = []
  · subst hempty
    obtain ⟨all, last, hall, h⟩ := bind_eq_some_iff.1 h
    obtain ⟨heq, rfl⟩ := pure_eq_some_iff.1 h
    exact .inr ⟨rfl, all, hall, heq⟩
  · have hfull : byName.isEmpty = false := by simpa using hempty
    simp only [hfull, Bool.false_eq_true, if_false] at h
    obtain ⟨all, last, hall, h⟩ := bind_eq_some_iff.1 h
    obtain ⟨rfl, rfl⟩ := pure_eq_some_iff.1 hall
    obtain ⟨heq, rfl⟩ := pure_eq_some_iff.1 h
    rw [hfull] at heq
    exact .inl ⟨hempty, rfl, heq⟩

theorem exists_runs {n : Nat}
    (h : collect (Lead.follow (c.exportedWithin n)) leads asked = some (found, later)) :
    ∃ scans, c.Runs leads asked scans found later := by
  induction n using Nat.strong_induction_on generalizing leads asked found later with
  | h n ihn =>
    induction leads generalizing asked found later with
    | nil =>
      obtain ⟨rfl, rfl⟩ := pure_eq_some_iff.1 h
      exact ⟨[], .nil⟩
    | cons l leads ih =>
      obtain ⟨own, middle, more, hown, hmore, rfl⟩ := collect_cons_eq_some h
      obtain ⟨rest, hrest⟩ := ih hmore
      cases l with
      | found symbols =>
        obtain ⟨rfl, rfl⟩ := pure_eq_some_iff.1 hown
        exact ⟨rest, .found hrest⟩
      | ask q =>
        cases n with
        | zero => cases hown
        | succ n =>
          change c.exportedWithin (n + 1) q.1 q.2 asked = _ at hown
          rw [exportedWithin_succ] at hown
          split at hown
          · next hq =>
            obtain ⟨rfl, rfl⟩ := Prod.mk.inj (Option.some.inj hown)
            exact ⟨rest, .again hq hrest⟩
          · next hq =>
            obtain ⟨byName, first, hnamed, hall⟩ := scan_eq_some hown
            obtain ⟨named, hnamed⟩ := ihn n (Nat.lt_succ_self n) hnamed
            rcases hall with ⟨hne, rfl, rfl⟩ | ⟨rfl, all, hall, rfl⟩
            · exact ⟨_, .byName hq hnamed hne hrest⟩
            · obtain ⟨listed, hall⟩ := ihn n (Nat.lt_succ_self n) hall
              exact ⟨_, .byAll hq hnamed hall hrest⟩

end Search

/-- The search along a lead comes to an end and has one run, which scans no file twice for one name,
and for these names alone. -/
def ScansOnce (c : Codebase) (names : List String) (lead : Lead) (search : Search (List Symbol)) : Prop :=
  ∃ found scans, search [] = some (found, scans.reverse)
    ∧ (∀ scans' found' later, c.Runs [lead] [] scans' found' later ↔
        scans' = scans ∧ found' = found ∧ later = scans.reverse)
    ∧ scans.Nodup ∧ ∀ q ∈ scans, q.2 ∈ names

theorem ends_follow (c : Codebase) (lead : Lead) :
    ∃ found later, lead.follow (c.exportedWithin c.searchLimit) [] = some (found, later) := by
  cases lead with
  | found symbols => exact ⟨symbols, [], rfl⟩
  | ask q =>
    have hlink : c.Linked q [] := .nil
    obtain ⟨found, later, hrun, -⟩ := ends_exportedWithin (List.subset_cons_self q.2 _) c.searchLimit
      List.mem_cons_self fresh_lt_searchLimit hlink (.inl rfl)
    exact ⟨found, later, hrun⟩

theorem scansOnce_follow {lead : Lead} {names : List String} (hnames : c.requestedNames ⊆ names)
    (hlead : ∀ q, lead = .ask q → q.2 ∈ names) :
    c.ScansOnce names lead (lead.follow (c.exportedWithin c.searchLimit)) := by
  obtain ⟨found, later, hsearch⟩ := c.ends_follow lead
  have hcollect : collect (Lead.follow (c.exportedWithin c.searchLimit)) [lead] [] = some (found, later) := by
    simp only [collect]
    refine bind_eq_some_iff.2 ⟨found, later, hsearch, bind_eq_some_iff.2 ⟨[], later, rfl, ?_⟩⟩
    rw [List.append_nil]
    rfl
  obtain ⟨scans, hruns⟩ := exists_runs hcollect
  obtain rfl : later = scans.reverse := by simpa using hruns.later_eq
  refine ⟨found, scans, hsearch, fun scans' found' later => ⟨fun h => h.unique hruns, ?_⟩, ?_, ?_⟩
  · rintro ⟨rfl, rfl, rfl⟩
    exact hruns
  · exact List.nodup_reverse.1 (hruns.nodup List.nodup_nil)
  · exact hruns.mem_names hnames fun q hq => hlead q (List.mem_singleton.1 hq).symm

/-- Every search for a name, for an import or for an export ends, whatever files export from each other
and however they rename, and goes through the exports of each file at most once for each name. -/
theorem searches_scan_once (c : Codebase) (u : UnitId) (n : String) (binding : ImportBinding) :
    c.ScansOnce c.requestedNames (c.nameLead u n) (c.named (c.exportedWithin c.searchLimit) u n)
      ∧ c.ScansOnce ((requestedName binding.imported).toList ++ c.requestedNames)
          (c.importLead u binding) (c.imported (c.exportedWithin c.searchLimit) u binding)
      ∧ c.ScansOnce (n :: c.requestedNames) (.ask (u, n)) (c.exportedWithin c.searchLimit u n) := by
  refine ⟨?_, ?_, ?_⟩
  · rw [named_eq]
    exact scansOnce_follow (List.Subset.refl _) fun q hq => requested_of_nameLead hq
  · rw [imported_eq]
    refine scansOnce_follow (List.subset_append_right _ _) fun q hq => List.mem_append_left _ ?_
    rw [importLead] at hq
    split at hq
    · cases hq
    · next hname =>
      cases hq
      simp [hname]
    · cases hq
  · have hlead : ∀ q, Lead.ask (u, n) = .ask q → q.2 ∈ n :: c.requestedNames := by
      rintro q ⟨⟩
      exact List.mem_cons_self
    exact scansOnce_follow (List.subset_cons_self n _) hlead

end CallDiagram.Codebase
