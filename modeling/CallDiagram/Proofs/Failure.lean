import CallDiagram.Failure

namespace CallDiagram

variable {ε ε' α β : Type} {x : Except ε α} {a : α} {b : β}

theorem bind_eq_ok {f : α → Except ε β} :
    x >>= f = .ok b ↔ ∃ a, x = .ok a ∧ f a = .ok b := by
  cases x with
  | error e => simp [bind, Except.bind]
  | ok a => simp [bind, Except.bind]

theorem mapError_eq_ok {f : ε → ε'} : x.mapError f = .ok a ↔ x = .ok a := by
  cases x with
  | error e => constructor <;> intro h <;> cases h
  | ok b => constructor <;> intro h <;> cases h <;> rfl

theorem exists_ok_of_toOption {q : α → Prop} (h : ∃ a ∈ x.toOption, q a) : ∃ a, x = .ok a ∧ q a := by
  obtain ⟨a, ha, hq⟩ := h
  cases x with
  | error e => cases ha
  | ok b =>
    obtain rfl : b = a := Option.some.inj ha
    exact ⟨b, rfl, hq⟩

theorem mapM_eq_ok {f : α → Except ε β} {as : List α} {bs : List β} :
    as.mapM f = .ok bs ↔ as.map f = bs.map .ok := by
  induction as generalizing bs with
  | nil => cases bs <;> simp [pure, Except.pure]
  | cons a as ih =>
    rw [List.mapM_cons, bind_eq_ok]
    simp only [bind_eq_ok, ih]
    cases bs with
    | nil => simp [pure, Except.pure]
    | cons b bs =>
      simp only [List.map_cons, List.cons.injEq, pure, Except.pure, Except.ok.injEq]
      constructor
      · rintro ⟨b', hb, bs', hbs, rfl, rfl⟩
        exact ⟨hb, hbs⟩
      · rintro ⟨hb, hbs⟩
        exact ⟨b, hb, bs, hbs, rfl, rfl⟩

theorem mem_of_mapM_eq_ok {f : α → Except ε β} {as : List α} {bs : List β} (h : as.mapM f = .ok bs) :
    b ∈ bs ↔ ∃ a ∈ as, f a = .ok b := by
  have hmem : b ∈ bs ↔ (.ok b : Except ε β) ∈ bs.map .ok := by simp
  rw [hmem, ← mapM_eq_ok.1 h, List.mem_map]

theorem exists_mapM_iff {f : α → Except ε β} {as : List α} :
    (∃ bs, as.mapM f = .ok bs) ↔ ∀ a ∈ as, ∃ b, f a = .ok b := by
  simp only [mapM_eq_ok]
  induction as with
  | nil => simp
  | cons a as ih =>
    rw [List.forall_mem_cons, ← ih]
    constructor
    · rintro ⟨_ | ⟨b, bs⟩, h⟩
      · cases h
      · obtain ⟨hb, hbs⟩ := List.cons.inj h
        exact ⟨⟨b, hb⟩, bs, hbs⟩
    · rintro ⟨⟨b, hb⟩, bs, hbs⟩
      exact ⟨b :: bs, by rw [List.map_cons, hb, hbs, List.map_cons]⟩

theorem exists_given {γ : Type} {f : α → Except ε γ} {as : List α} (h : ∀ a ∈ as, ∃ c, f a = .ok c) :
    ∃ given : List (α × γ), given.map Prod.fst = as ∧ ∀ p ∈ given, f p.1 = .ok p.2 := by
  induction as with
  | nil => exact ⟨[], rfl, by simp⟩
  | cons a as ih =>
    obtain ⟨⟨c, hc⟩, has⟩ := List.forall_mem_cons.1 h
    obtain ⟨given, rfl, hgiven⟩ := ih has
    exact ⟨(a, c) :: given, rfl, List.forall_mem_cons.2 ⟨hc, hgiven⟩⟩

theorem foldlM_eq_ok {γ : Type} {f : α → Except ε γ} {g : β → α → γ → β} {as : List α}
    {start : β} :
    as.foldlM (fun b a => do return g b a (← f a)) start = .ok b ↔
      ∃ given : List (α × γ), given.map Prod.fst = as ∧ (∀ p ∈ given, f p.1 = .ok p.2)
        ∧ b = given.foldl (fun b p => g b p.1 p.2) start := by
  induction as generalizing start with
  | nil =>
    constructor
    · rintro ⟨⟩
      exact ⟨[], rfl, by simp, rfl⟩
    · rintro ⟨given, hfst, -, rfl⟩
      rw [List.map_eq_nil_iff.1 hfst]
      rfl
  | cons a as ih =>
    rw [List.foldlM_cons]
    constructor
    · intro h
      obtain ⟨_, hstep, hrest⟩ := bind_eq_ok.1 h
      obtain ⟨c, hc, hstep⟩ := bind_eq_ok.1 hstep
      cases hstep
      obtain ⟨given, rfl, hgiven, rfl⟩ := ih.1 hrest
      exact ⟨(a, c) :: given, rfl, List.forall_mem_cons.2 ⟨hc, hgiven⟩, rfl⟩
    · rintro ⟨given, hfst, hgiven, rfl⟩
      cases given with
      | nil => cases hfst
      | cons p given =>
        obtain ⟨rfl, rfl⟩ := List.cons.inj hfst
        obtain ⟨hp, hgiven⟩ := List.forall_mem_cons.1 hgiven
        refine bind_eq_ok.2 ⟨g start p.1 p.2, ?_, ih.2 ⟨given, rfl, hgiven, rfl⟩⟩
        rw [hp]
        rfl

end CallDiagram
