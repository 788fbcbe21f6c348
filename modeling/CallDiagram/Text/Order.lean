namespace CallDiagram

def lexLe : List String → List String → Bool
  | [], _ => true
  | _ :: _, [] => false
  | s :: ss, t :: ts => if s = t then lexLe ss ts else s < t

def dropRepeats [DecidableEq α] : List α → List α
  | [] => []
  | a :: rest =>
    match dropRepeats rest with
    | [] => [a]
    | b :: kept => if a = b then a :: kept else a :: b :: kept

@[simp] theorem mem_dropRepeats [DecidableEq α] {a : α} {l : List α} :
    a ∈ dropRepeats l ↔ a ∈ l := by
  induction l with
  | nil => rfl
  | cons b l ih =>
    rw [List.mem_cons, ← ih, dropRepeats]
    split
    · next h => simp [h]
    · next c kept h =>
      rw [h]
      split
      · next hbc => simp [hbc]
      · rw [List.mem_cons]

@[simp] theorem dropRepeats_eq_nil [DecidableEq α] {l : List α} : dropRepeats l = [] ↔ l = [] := by
  simp only [List.eq_nil_iff_forall_not_mem, mem_dropRepeats]

def sortStrings (ss : List String) : List String :=
  dropRepeats (ss.mergeSort fun s t => !(t < s))

end CallDiagram
