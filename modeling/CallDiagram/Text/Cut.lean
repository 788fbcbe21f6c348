namespace CallDiagram.Text

def cut (sep : Char) : List Char → List (List Char)
  | [] => [[]]
  | c :: cs =>
    if c = sep then [] :: cut sep cs
    else match cut sep cs with
      | [] => [[c]]
      | piece :: pieces => (c :: piece) :: pieces

def join (sep : Char) : List (List Char) → List Char
  | [] => []
  | [piece] => piece
  | piece :: next :: pieces => piece ++ sep :: join sep (next :: pieces)

@[simp] theorem cut_ne_nil (sep : Char) (cs : List Char) : cut sep cs ≠ [] := by
  induction cs with
  | nil => simp [cut]
  | cons c cs ih =>
    by_cases h : c = sep
    · simp [cut, h]
    · cases hc : cut sep cs <;> simp [cut, h, hc]

theorem join_cut (sep : Char) (cs : List Char) : join sep (cut sep cs) = cs := by
  induction cs with
  | nil => rfl
  | cons c cs ih =>
    obtain ⟨piece, pieces, hc⟩ := List.exists_cons_of_ne_nil (cut_ne_nil sep cs)
    by_cases h : c = sep
    · simp only [cut, if_pos h, hc, join]
      rw [← hc, ih, h]
      rfl
    · rw [hc] at ih
      simp only [cut, if_neg h, hc]
      cases pieces <;> simp_all [join]

def pieces (sep : Char) (s : String) : List String := (cut sep s.toList).map String.ofList

def unpieces (sep : Char) (parts : List String) : String :=
  String.ofList (join sep (parts.map String.toList))

end CallDiagram.Text
