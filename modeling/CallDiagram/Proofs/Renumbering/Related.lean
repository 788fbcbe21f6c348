import CallDiagram.Data.Table
import CallDiagram.Text.Order
import Mathlib.Data.List.Forall2

namespace CallDiagram

open List (Forall₂)

variable {α β γ δ κ : Type} {R : α → β → Prop} {P : γ → δ → Prop}

theorem rel_eq_iff {o o' : Option α} : Option.Rel Eq o o' ↔ o = o' := by
  constructor
  · rintro (h | _)
    · rw [h]
    · rfl
  · rintro rfl
    cases o with
    | none => exact .none
    | some a => exact .some rfl

theorem rel_cases {o : Option α} {o' : Option β} (h : Option.Rel R o o') :
    o = none ∧ o' = none ∨ ∃ a b, o = some a ∧ o' = some b ∧ R a b := by
  cases h with
  | some hab => exact .inr ⟨_, _, rfl, rfl, hab⟩
  | none => exact .inl ⟨rfl, rfl⟩

theorem rel_isSome {o : Option α} {o' : Option β} (h : Option.Rel R o o') : o.isSome = o'.isSome := by
  cases h <;> rfl

theorem rel_bind {o : Option α} {o' : Option β} {f : α → Option γ} {g : β → Option δ}
    (h : Option.Rel R o o') (hf : ∀ a b, R a b → Option.Rel P (f a) (g b)) :
    Option.Rel P (o.bind f) (o'.bind g) := by
  cases h with
  | some hab => exact hf _ _ hab
  | none => exact .none

theorem rel_optionMap {o : Option α} {o' : Option β} {f : α → γ} {g : β → δ}
    (h : Option.Rel R o o') (hf : ∀ a b, R a b → P (f a) (g b)) :
    Option.Rel P (o.map f) (o'.map g) := by
  cases h with
  | some hab => exact .some (hf _ _ hab)
  | none => exact .none

theorem rel_toList {o : Option α} {o' : Option β} (h : Option.Rel R o o') :
    Forall₂ R o.toList o'.toList := by
  cases h with
  | some hab => exact .cons hab .nil
  | none => exact .nil

section Lists

variable {l : List α} {l' : List β}

theorem rel_isEmpty (h : Forall₂ R l l') : l.isEmpty = l'.isEmpty := by
  cases h <;> rfl

theorem rel_getElem? (h : Forall₂ R l l') (n : Nat) : Option.Rel R l[n]? l'[n]? := by
  induction h generalizing n with
  | nil => exact .none
  | cons hab _ ih =>
    cases n with
    | zero => exact .some hab
    | succ n => exact ih n

theorem exists_rel_of_lt (h : Forall₂ R l l') {n : Nat} (hn : n < l.length) :
    ∃ a b, R a b ∧ l[n]? = some a ∧ l'[n]? = some b := by
  rcases rel_cases (rel_getElem? h n) with ⟨hnone, -⟩ | ⟨a, b, ha, hb, hab⟩
  · exact absurd (List.getElem?_eq_none_iff.1 hnone) (Nat.not_le.2 hn)
  · exact ⟨a, b, hab, ha, hb⟩

theorem rel_findSome? {f : α → Option γ} {g : β → Option δ} (h : Forall₂ R l l')
    (hf : ∀ a b, R a b → Option.Rel P (f a) (g b)) :
    Option.Rel P (l.findSome? f) (l'.findSome? g) := by
  induction h with
  | nil => exact .none
  | @cons a b l l' hab _ ih =>
    have hhead := hf a b hab
    simp only [List.findSome?_cons]
    cases ha : f a <;> cases hb : g b <;> rw [ha, hb] at hhead <;> cases hhead
    · exact ih
    · exact .some ‹_›

theorem rel_flatMap {f : α → List γ} {g : β → List δ} (h : Forall₂ R l l')
    (hf : ∀ a b, R a b → Forall₂ P (f a) (g b)) : Forall₂ P (l.flatMap f) (l'.flatMap g) :=
  List.rel_flatMap h hf

theorem rel_dropRepeats [DecidableEq α] [DecidableEq β] (hR : Relator.BiUnique R)
    (h : Forall₂ R l l') : Forall₂ R (dropRepeats l) (dropRepeats l') := by
  induction h with
  | nil => exact .nil
  | @cons a b l l' hab _ ih =>
    simp only [dropRepeats]
    generalize dropRepeats l = kept at ih
    generalize dropRepeats l' = kept' at ih
    cases ih with
    | nil => exact .cons hab .nil
    | @cons x y kept kept' hxy hrest =>
      have hiff : a = x ↔ b = y := Relator.rel_eq hR hab hxy
      by_cases heq : a = x
      · simp only [if_pos heq, if_pos (hiff.1 heq)]
        exact .cons hab hrest
      · simp only [if_neg heq, if_neg (mt hiff.2 heq)]
        exact .cons hab (.cons hxy hrest)

theorem rel_mapIdx {xs : List κ} {f : Nat → κ → α} {g : Nat → κ → β}
    (h : ∀ k (x : κ), k < xs.length → R (f k x) (g k x)) : Forall₂ R (xs.mapIdx f) (xs.mapIdx g) := by
  induction xs generalizing f g with
  | nil => exact .nil
  | cons x xs ih =>
    simp only [List.mapIdx_cons]
    exact .cons (h 0 x (Nat.zero_lt_succ _)) (ih fun k y hk => h (k + 1) y (Nat.succ_lt_succ hk))

end Lists

theorem rel_lookup [BEq κ] {l : List (κ × α)} {l' : List (κ × β)}
    (h : Forall₂ (fun e e' => e.1 = e'.1 ∧ R e.2 e'.2) l l') (key : κ) :
    Option.Rel R (l.lookup key) (l'.lookup key) := by
  induction h with
  | nil => exact .none
  | @cons e e' l l' he _ ih =>
    obtain ⟨k, a⟩ := e
    obtain ⟨k', b⟩ := e'
    obtain ⟨rfl, hab⟩ := he
    simp only [List.lookup_cons]
    cases key == k
    · exact ih
    · exact .some hab

theorem Table.rel_get? [DecidableEq κ] {t : Table κ α} {t' : Table κ β}
    (h : Forall₂ (fun e e' => e.1 = e'.1 ∧ R e.2 e'.2) t.entries t'.entries) (key : κ) :
    Option.Rel R (t.get? key) (t'.get? key) :=
  rel_lookup (List.rel_reverse h) key

end CallDiagram
