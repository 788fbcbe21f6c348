import CallDiagram.Path.Basic
import CallDiagram.Proofs.Text.Cut
import Mathlib.Data.List.DropRight

namespace CallDiagram.Path

inductive IsAbove : Path → Nat → Path → Prop
  | here (p : Path) : IsAbove p 0 p
  | up {p q a : Path} {k : Nat} : p.parent = some q → IsAbove q k a → IsAbove p (k + 1) a

variable {p q a : Path} {n k : Nat} {cs ds : List Char} {pieces : List (List Char)}

section Pieces

theorem filter_rdropWhile (pieces : List (List Char)) :
    (pieces.rdropWhile isIdle).filter (! isIdle ·) = pieces.filter (! isIdle ·) := by
  have hrest : (pieces.rtakeWhile isIdle).filter (! isIdle ·) = [] :=
    List.filter_eq_nil_iff.2 fun piece hpiece => by simp [List.mem_rtakeWhile_imp hpiece]
  have hall : (pieces.rdropWhile isIdle ++ pieces.rtakeWhile isIdle).filter (! isIdle ·) =
      pieces.filter (! isIdle ·) := by
    rw [List.rdropWhile_append_rtakeWhile]
  rwa [List.filter_append, hrest, List.append_nil] at hall

theorem anchor_append_drop (cs : List Char) : anchor cs ++ cs.drop (anchor cs).length = cs := by
  unfold anchor
  split <;> rfl

theorem anchor_cases (cs : List Char) : anchor cs = ['/'] ∨ anchor cs = ['.'] ∨ anchor cs = [] := by
  unfold anchor
  split <;> simp

theorem anchor_anchor (cs : List Char) : anchor (anchor cs) = anchor cs := by
  rcases anchor_cases cs with h | h | h <;> rw [h] <;> rfl

theorem anchor_append_slash (h : cs ≠ []) : anchor (cs ++ '/' :: ds) = anchor cs := by
  cases cs with
  | nil => exact absurd rfl h
  | cons c cs =>
    by_cases hslash : c = '/'
    · subst hslash
      rfl
    · by_cases hdot : c = '.'
      · subst hdot
        cases cs with
        | nil => rfl
        | cons d cs =>
          by_cases hd : d = '/'
          · subst hd
            rfl
          · simp [anchor, hd]
      · simp [anchor, hslash, hdot]

theorem anchor_append_join (h : pieces <+: body cs) : anchor (anchor cs ++ Text.join '/' pieces) = anchor cs := by
  by_cases hne : pieces = []
  · rw [hne, Text.join, List.append_nil, anchor_anchor]
  · obtain ⟨rest, hrest⟩ := h
    have hbody : Text.join '/' (pieces ++ rest) = cs.drop (anchor cs).length := by
      rw [hrest, body, Text.join_cut]
    have htext := anchor_append_drop cs
    by_cases hrestNil : rest = []
    · rw [hrestNil, List.append_nil] at hbody
      rw [hbody, htext]
    · rw [← hbody, Text.join_append hne hrestNil, ← List.append_assoc] at htext
      by_cases hempty : anchor cs ++ Text.join '/' pieces = []
      · have hanchor := (List.append_eq_nil_iff.1 hempty).1
        rw [hempty] at htext
        rw [← htext] at hanchor
        cases hanchor
      · rw [← anchor_append_slash hempty, htext]

def componentsOf (cs : List Char) (pieces : List (List Char)) : List Component :=
  (match anchor cs with
    | ['/'] => [.root]
    | ['.'] => [.here]
    | _ => []) ++ (pieces.filter (! isIdle ·)).map pieceComponent

theorem components_eq (p : Path) : p.components = componentsOf p.text.toList (body p.text.toList) := rfl

theorem components_append_join (h : pieces <+: body cs) :
    (Path.mk (String.ofList (anchor cs ++ Text.join '/' pieces))).components = componentsOf cs pieces := by
  have hfilter : (Text.cut '/' (Text.join '/' pieces)).filter (! isIdle ·) = pieces.filter (! isIdle ·) := by
    by_cases hne : pieces = []
    · rw [hne]
      rfl
    · rw [Text.cut_join hne fun piece hpiece => Text.not_mem_of_mem_cut (h.subset hpiece)]
  rw [components_eq, String.toList_ofList, componentsOf, componentsOf, body, anchor_append_join h,
    List.drop_left, hfilter]

theorem componentsOf_rdropWhile (cs : List Char) (pieces : List (List Char)) :
    componentsOf cs (pieces.rdropWhile isIdle) = componentsOf cs pieces := by
  rw [componentsOf, filter_rdropWhile, componentsOf]

theorem componentsOf_concat {piece : List Char} (h : isIdle piece = false) :
    componentsOf cs (pieces ++ [piece]) = componentsOf cs pieces ++ [pieceComponent piece] := by
  rw [componentsOf, List.filter_append, List.filter_cons_of_pos (by simp [h]), List.filter_nil, List.map_append,
    ← List.append_assoc, ← componentsOf, List.map_singleton]

end Pieces

theorem exists_component_of_parent (h : p.parent = some q) : ∃ c, p.components = q.components ++ [c] := by
  obtain ⟨text⟩ := p
  simp only [parent, ← List.rdropWhile.eq_def] at h
  rw [components_eq, ← componentsOf_rdropWhile]
  have hprefix : (body text.toList).rdropWhile isIdle <+: body text.toList := List.rdropWhile_prefix _ _
  have hlast := List.rdropWhile_last_not isIdle (body text.toList)
  generalize (body text.toList).rdropWhile isIdle = pieces at h hprefix hlast
  rcases List.eq_nil_or_concat' pieces with rfl | ⟨before, piece, rfl⟩
  · dsimp only at h
    split at h
    next hanchor =>
      obtain rfl := Option.some.inj h
      refine ⟨.here, ?_⟩
      simp only [componentsOf, hanchor]
      rfl
    next => cases h
  · have hidle : isIdle piece = false := by simpa using hlast
    have hbefore : before.rdropWhile isIdle <+: body text.toList :=
      (List.rdropWhile_prefix _ _).trans ((List.prefix_append before [piece]).trans hprefix)
    have hq : q = ⟨String.ofList (anchor text.toList ++ Text.join '/' (before.rdropWhile isIdle))⟩ := by
      split at h
      next heq => simp at heq
      next => rw [← Option.some.inj h, List.dropLast_concat]
    rw [hq, components_append_join hbefore, componentsOf_rdropWhile, componentsOf_concat hidle]
    exact ⟨_, rfl⟩

theorem isAbove_iff_of_none (h : p.parent = none) : IsAbove p k a ↔ [p][k]? = some a := by
  constructor
  · intro habove
    cases habove with
    | here => rfl
    | up hparent => rw [h] at hparent; cases hparent
  · intro hget
    obtain ⟨hk, rfl⟩ := List.getElem?_eq_some_iff.1 hget
    obtain rfl := Nat.lt_one_iff.1 hk
    exact .here p

theorem isAbove_iff_of_some (h : p.parent = some q) :
    IsAbove p k a ↔ k = 0 ∧ a = p ∨ ∃ j, k = j + 1 ∧ IsAbove q j a := by
  constructor
  · intro habove
    cases habove with
    | here => exact .inl ⟨rfl, rfl⟩
    | up hparent hup =>
      obtain rfl := Option.some.inj (h.symm.trans hparent)
      exact .inr ⟨_, rfl, hup⟩
  · rintro (⟨rfl, rfl⟩ | ⟨j, rfl, hup⟩)
    · exact .here _
    · exact .up h hup

theorem getElem?_climb (h : p.components.length ≤ n) :
    (ancestors.climb n p)[k]? = some a ↔ IsAbove p k a := by
  induction n generalizing p k with
  | zero =>
    cases hparent : p.parent with
    | none => exact (isAbove_iff_of_none hparent).symm
    | some q =>
      obtain ⟨c, hc⟩ := exists_component_of_parent hparent
      rw [hc, List.length_append, List.length_singleton] at h
      exact absurd h (Nat.not_succ_le_zero _)
  | succ n ih =>
    rw [ancestors.climb]
    cases hparent : p.parent with
    | none => exact (isAbove_iff_of_none hparent).symm
    | some q =>
      obtain ⟨c, hc⟩ := exists_component_of_parent hparent
      rw [hc, List.length_append, List.length_singleton] at h
      rw [isAbove_iff_of_some hparent]
      cases k with
      | zero => simp [eq_comm]
      | succ k => simp [ih (Nat.le_of_succ_le_succ h)]

theorem getElem?_ancestors : p.ancestors[k]? = some a ↔ IsAbove p k a := getElem?_climb (Nat.le_refl _)

end CallDiagram.Path
