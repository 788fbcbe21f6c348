import CallDiagram.Module.Finder

namespace CallDiagram.ModuleFinder

variable {t : FileTree} {resolve other : Path → Attempt} {base directory target file : Path}
  {found found' : Option Path} {m n : Nat}

section FirstFound

variable {α : Type} {resolve other : α → Attempt} {targets : List α}

theorem firstFound_eq_none_iff :
    firstFound resolve targets = some none ↔ ∀ target ∈ targets, resolve target = some none := by
  induction targets with
  | nil => simp [firstFound]
  | cons target rest ih =>
    rw [firstFound, List.forall_mem_cons, ← ih]
    rcases resolve target with _ | _ | file <;> simp

theorem firstFound_eq_file_iff :
    firstFound resolve targets = some (some file) ↔
      ∃ before target after, targets = before ++ target :: after
        ∧ (∀ earlier ∈ before, resolve earlier = some none) ∧ resolve target = some (some file) := by
  induction targets with
  | nil => simp [firstFound]
  | cons first rest ih =>
    rw [firstFound]
    constructor
    · intro h
      obtain ⟨found, hfirst, hrest⟩ := Option.bind_eq_some_iff.1 h
      cases found with
      | some f =>
        cases hrest
        exact ⟨[], first, rest, rfl, by simp, hfirst⟩
      | none =>
        obtain ⟨before, target, after, rfl, hbefore, htarget⟩ := ih.1 hrest
        exact ⟨first :: before, target, after, rfl, List.forall_mem_cons.2 ⟨hfirst, hbefore⟩, htarget⟩
    · rintro ⟨before, target, after, heq, hbefore, htarget⟩
      cases before with
      | nil =>
        obtain ⟨rfl, rfl⟩ := List.cons.inj heq
        rw [htarget]
        rfl
      | cons b before =>
        obtain ⟨rfl, rfl⟩ := List.cons.inj heq
        obtain ⟨hfirst, hbefore⟩ := List.forall_mem_cons.1 hbefore
        rw [hfirst]
        exact ih.2 ⟨before, target, after, rfl, hbefore, htarget⟩

theorem firstFound_mono (hother : ∀ target found, resolve target = some found → other target = some found)
    (h : firstFound resolve targets = some found) : firstFound other targets = some found := by
  cases found with
  | none =>
    rw [firstFound_eq_none_iff] at h ⊢
    exact fun target htarget => hother target none (h target htarget)
  | some file =>
    rw [firstFound_eq_file_iff] at h ⊢
    obtain ⟨before, target, after, heq, hbefore, htarget⟩ := h
    exact ⟨before, target, after, heq, fun b hb => hother b none (hbefore b hb), hother target _ htarget⟩

end FirstFound

theorem inDirectory?_eq_some_iff :
    inDirectory? t resolve directory = some found ↔
      ∃ entry, firstFound resolve (entryTargets t directory) = some entry
        ∧ entry.or ((indexFiles.map directory.join).find? t.isFile) = found :=
  Option.map_eq_some_iff

theorem inDirectory?_mono (hother : ∀ target found, resolve target = some found → other target = some found)
    (h : inDirectory? t resolve directory = some found) : inDirectory? t other directory = some found := by
  rw [inDirectory?_eq_some_iff] at h ⊢
  obtain ⟨entry, hentry, hfound⟩ := h
  exact ⟨entry, firstFound_mono hother hentry, hfound⟩

def Opens (t : FileTree) (base : Path) : Prop :=
  (candidates base).find? t.isFile = none ∧ t.isDirectory base

theorem resolveWithin_of_opens (h : Opens t base) :
    resolveWithin t (n + 1) base = inDirectory? t (resolveWithin t n) base := by
  simp only [resolveWithin, h.1, h.2, if_true]

theorem resolveWithin_of_not_opens (h : ¬ Opens t base) :
    resolveWithin t (n + 1) base = some ((candidates base).find? t.isFile) := by
  rw [resolveWithin]
  cases hfile : (candidates base).find? t.isFile with
  | some file => rfl
  | none => simp only [show t.isDirectory base = false by simpa [Opens, hfile] using h, Bool.false_eq_true,
      if_false]

theorem resolveWithin_succ (h : resolveWithin t n base = some found) :
    resolveWithin t (n + 1) base = some found := by
  induction n generalizing base found with
  | zero => cases h
  | succ n ih =>
    by_cases hopens : Opens t base
    · rw [resolveWithin_of_opens hopens] at h ⊢
      exact inDirectory?_mono (fun target found => ih) h
    · rwa [resolveWithin_of_not_opens hopens] at h ⊢

theorem resolveWithin_mono (hle : m ≤ n) (h : resolveWithin t m base = some found) :
    resolveWithin t n base = some found := by
  induction hle with
  | refl => exact h
  | step _ ih => exact resolveWithin_succ ih

def Finds (t : FileTree) (base : Path) (found : Option Path) : Prop :=
  ∃ n, resolveWithin t n base = some found

/-- What the search in a directory comes to in the end. -/
def FindsIn (t : FileTree) (directory : Path) (found : Option Path) : Prop :=
  ∃ n, inDirectory? t (resolveWithin t n) directory = some found

theorem Finds.unique (h : Finds t base found) (h' : Finds t base found') : found = found' := by
  obtain ⟨m, hm⟩ := h
  obtain ⟨n, hn⟩ := h'
  have hm' := resolveWithin_mono (Nat.le_max_left m n) hm
  have hn' := resolveWithin_mono (Nat.le_max_right m n) hn
  exact Option.some.inj (hm'.symm.trans hn')

theorem FindsIn.unique (h : FindsIn t directory found) (h' : FindsIn t directory found') :
    found = found' := by
  obtain ⟨m, hm⟩ := h
  obtain ⟨n, hn⟩ := h'
  have hm' := inDirectory?_mono (fun _ _ => resolveWithin_mono (Nat.le_max_left m n)) hm
  have hn' := inDirectory?_mono (fun _ _ => resolveWithin_mono (Nat.le_max_right m n)) hn
  exact Option.some.inj (hm'.symm.trans hn')

theorem finds_iff_of_opens (h : Opens t base) : Finds t base found ↔ FindsIn t base found := by
  constructor
  · rintro ⟨n, hn⟩
    cases n with
    | zero => cases hn
    | succ n => exact ⟨n, resolveWithin_of_opens h ▸ hn⟩
  · rintro ⟨n, hn⟩
    exact ⟨n + 1, resolveWithin_of_opens h ▸ hn⟩

def Tries (t : FileTree) (directory target : Path) : Prop :=
  ∃ before after, entryTargets t directory = before ++ target :: after
    ∧ ∀ earlier ∈ before, Finds t earlier none

/-- The search in one directory goes on in another. -/
def Enters (t : FileTree) (directory inner : Path) : Prop := Tries t directory inner ∧ Opens t inner

theorem exists_of_firstFound {before after : List Path}
    (h : firstFound (resolveWithin t n) (before ++ target :: after) = some found)
    (hbefore : ∀ earlier ∈ before, Finds t earlier none) :
    ∃ found, resolveWithin t n target = some found := by
  induction before with
  | nil =>
    obtain ⟨own, hown, -⟩ := Option.bind_eq_some_iff.1 h
    exact ⟨own, hown⟩
  | cons earlier before ih =>
    obtain ⟨hearlier, hbefore⟩ := List.forall_mem_cons.1 hbefore
    obtain ⟨own, hown, hrest⟩ := Option.bind_eq_some_iff.1 h
    obtain rfl : own = none := Finds.unique ⟨n, hown⟩ hearlier
    exact ih hrest hbefore

theorem exists_inDirectory?_of_enters {inner : Path}
    (h : inDirectory? t (resolveWithin t n) directory = some found) (hinner : Enters t directory inner) :
    ∃ m < n, ∃ found, inDirectory? t (resolveWithin t m) inner = some found := by
  obtain ⟨⟨before, after, heq, hbefore⟩, hopens⟩ := hinner
  obtain ⟨entry, hentry, -⟩ := inDirectory?_eq_some_iff.1 h
  obtain ⟨found, hfound⟩ := exists_of_firstFound (heq ▸ hentry) hbefore
  cases n with
  | zero => cases hfound
  | succ m => exact ⟨m, Nat.lt_succ_self m, found, resolveWithin_of_opens hopens ▸ hfound⟩

theorem exists_firstFound {before after : List Path} (heq : entryTargets t directory = before ++ after)
    (hbefore : ∀ earlier ∈ before, Finds t earlier none)
    (h : ∀ target, Tries t directory target → ∃ found, resolveWithin t n target = some found) :
    ∃ entry, firstFound (resolveWithin t n) after = some entry := by
  induction after generalizing before with
  | nil => exact ⟨none, rfl⟩
  | cons target after ih =>
    obtain ⟨found, hfound⟩ := h target ⟨before, after, heq, hbefore⟩
    rw [firstFound, hfound]
    cases found with
    | some file => exact ⟨some file, rfl⟩
    | none =>
      refine ih (heq.trans (List.append_cons before target after)) fun earlier hearlier => ?_
      rcases List.mem_append.1 hearlier with hearlier | hearlier
      · exact hbefore earlier hearlier
      · rw [List.mem_singleton.1 hearlier]
        exact ⟨n, hfound⟩

theorem exists_inDirectory?_succ
    (h : ∀ inner, Enters t directory inner →
      ∃ found, inDirectory? t (resolveWithin t n) inner = some found) :
    ∃ found, inDirectory? t (resolveWithin t (n + 1)) directory = some found := by
  have htries : ∀ target, Tries t directory target →
      ∃ found, resolveWithin t (n + 1) target = some found := by
    intro target htarget
    by_cases hopens : Opens t target
    · rw [resolveWithin_of_opens hopens]
      exact h target ⟨htarget, hopens⟩
    · exact ⟨_, resolveWithin_of_not_opens hopens⟩
  obtain ⟨entry, hentry⟩ := exists_firstFound (List.nil_append _).symm (by simp) htries
  exact ⟨_, inDirectory?_eq_some_iff.2 ⟨entry, hentry, rfl⟩⟩

theorem exists_inDirectory?_of_weight (weight : Path → Nat) {P : Path → Prop}
    (hless : ∀ directory inner, P directory → Enters t directory inner →
      P inner ∧ weight inner < weight directory)
    (hP : P directory) (hn : weight directory < n) :
    ∃ found, inDirectory? t (resolveWithin t n) directory = some found := by
  induction n generalizing directory with
  | zero => exact absurd hn (Nat.not_lt_zero _)
  | succ n ih =>
    refine exists_inDirectory?_succ fun inner hinner => ?_
    obtain ⟨hPinner, hlt⟩ := hless directory inner hP hinner
    exact ih hPinner (Nat.lt_of_lt_of_le hlt (Nat.le_of_lt_succ hn))

end CallDiagram.ModuleFinder
