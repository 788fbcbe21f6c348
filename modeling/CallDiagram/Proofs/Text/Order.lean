import CallDiagram.Text.Order
import Mathlib.Data.List.Chain

namespace CallDiagram

theorem lexLe_trans (a b c : List String) (hab : lexLe a b) (hbc : lexLe b c) : lexLe a c := by
  induction a generalizing b c with
  | nil => rfl
  | cons s ss ih =>
    cases b with
    | nil => simp [lexLe] at hab
    | cons t ts =>
      cases c with
      | nil => simp [lexLe] at hbc
      | cons u us =>
        by_cases hst : s = t
        · by_cases htu : t = u
          · subst hst htu
            simp only [lexLe, if_true] at hab hbc ⊢
            exact ih ts us hab hbc
          · subst hst
            simpa [lexLe, htu] using hbc
        · by_cases htu : t = u
          · subst htu
            simpa [lexLe, hst] using hab
          · simp only [lexLe, if_neg hst, decide_eq_true_eq] at hab
            simp only [lexLe, if_neg htu, decide_eq_true_eq] at hbc
            have hsu : s < u := String.lt_trans hab hbc
            by_cases h : s = u
            · exact absurd (h ▸ hsu) (String.lt_irrefl u)
            · simpa [lexLe, h] using hsu

theorem lexLe_total (a b : List String) : lexLe a b || lexLe b a := by
  induction a generalizing b with
  | nil => rfl
  | cons s ss ih =>
    cases b with
    | nil => rfl
    | cons t ts =>
      by_cases h : s = t
      · subst h
        simpa [lexLe] using ih ts
      · have hne : ¬ t = s := fun heq => h heq.symm
        cases Decidable.em (s < t) with
        | inl hlt => simp [lexLe, h, hlt]
        | inr hlt =>
          cases Decidable.em (t < s) with
          | inl hgt => simp [lexLe, hne, hgt]
          | inr hgt => exact absurd (String.le_antisymm hgt hlt) h

theorem lexLe_antisymm (a b : List String) (hab : lexLe a b) (hba : lexLe b a) : a = b := by
  induction a generalizing b with
  | nil =>
    cases b with
    | nil => rfl
    | cons t ts => simp [lexLe] at hba
  | cons s ss ih =>
    cases b with
    | nil => simp [lexLe] at hab
    | cons t ts =>
      by_cases h : s = t
      · subst h
        simp only [lexLe, if_true] at hab hba
        rw [ih ts hab hba]
      · have hne : ¬ t = s := fun heq => h heq.symm
        simp only [lexLe, if_neg h, decide_eq_true_eq] at hab
        simp only [lexLe, if_neg hne, decide_eq_true_eq] at hba
        exact absurd hba (String.lt_asymm hab)

theorem lt_of_lexLe {a b : List String} (h : lexLe a b) (hne : a ≠ b) : a < b := by
  induction a generalizing b with
  | nil =>
    cases b with
    | nil => exact absurd rfl hne
    | cons t ts => exact .nil
  | cons s ss ih =>
    cases b with
    | nil => simp [lexLe] at h
    | cons t ts =>
      by_cases hst : s = t
      · subst hst
        simp only [lexLe, if_true] at h
        exact .cons (ih h fun heq => hne (by rw [heq]))
      · simp only [lexLe, if_neg hst, decide_eq_true_eq] at h
        exact .rel h

theorem isChain_dropRepeats [DecidableEq α] (l : List α) : (dropRepeats l).IsChain (· ≠ ·) := by
  induction l with
  | nil => exact .nil
  | cons a l ih =>
    rw [dropRepeats]
    split
    · exact .singleton a
    · next b kept heq =>
      rw [heq] at ih
      split
      · next hab => exact hab ▸ ih
      · next hab => exact .cons_cons hab ih

theorem dropRepeats_of_isChain [DecidableEq α] {l : List α} (h : l.IsChain (· ≠ ·)) :
    dropRepeats l = l := by
  induction h with
  | nil => rfl
  | singleton a => rfl
  | cons_cons hab _ ih =>
    rw [dropRepeats, ih]
    exact if_neg hab

theorem dropRepeats_sublist [DecidableEq α] (l : List α) : (dropRepeats l).Sublist l := by
  induction l with
  | nil => exact .slnil
  | cons a l ih =>
    rw [dropRepeats]
    split
    · exact List.singleton_sublist.2 List.mem_cons_self
    · next b kept heq =>
      rw [heq] at ih
      split
      · next hab => exact hab ▸ ih.cons a
      · exact ih.cons_cons a

theorem nodup_dropRepeats [DecidableEq α] {le : α → α → Bool} {l : List α}
    (hanti : ∀ a b, le a b → le b a → a = b) (h : l.Pairwise fun a b => le a b) :
    (dropRepeats l).Nodup := by
  induction l with
  | nil => exact List.nodup_nil
  | cons a l ih =>
    obtain ⟨hle, htail⟩ := List.pairwise_cons.1 h
    have hkept := ih htail
    have hsorted := htail.sublist (dropRepeats_sublist l)
    rw [dropRepeats]
    split
    · simp
    · next b kept heq =>
      rw [heq] at hkept hsorted
      split
      · next hab => exact hab ▸ hkept
      · next hab =>
        refine List.nodup_cons.2 ⟨fun ha => hab ?_, hkept⟩
        have hb : b ∈ l := (dropRepeats_sublist l).subset (by rw [heq]; exact List.mem_cons_self)
        rcases List.mem_cons.1 ha with rfl | ha
        · rfl
        · exact hanti a b (hle b hb) ((List.pairwise_cons.1 hsorted).1 a ha)

end CallDiagram
