import CallDiagram.Call.Resolver
import Mathlib.Data.List.Basic

namespace CallDiagram.Resolver

def firstSeen (seen : List DeclarationId) : List DeclarationId → List DeclarationId
  | [] => []
  | d :: rest => if d ∈ seen then firstSeen seen rest else d :: firstSeen (seen ++ [d]) rest

section FirstSeen

variable {seen new more : List DeclarationId} {d : DeclarationId}

theorem firstSeen_cons_of_mem (h : d ∈ seen) : firstSeen seen (d :: new) = firstSeen seen new := by
  rw [firstSeen, if_pos h]

theorem firstSeen_cons_of_not_mem (h : d ∉ seen) :
    firstSeen seen (d :: new) = d :: firstSeen (seen ++ [d]) new := by
  rw [firstSeen, if_neg h]

@[simp] theorem mem_firstSeen : d ∈ firstSeen seen new ↔ d ∈ new ∧ d ∉ seen := by
  induction new generalizing seen with
  | nil => simp [firstSeen]
  | cons e new ih =>
    by_cases he : e ∈ seen
    · rw [firstSeen_cons_of_mem he, ih, List.mem_cons]
      refine and_congr_left fun hd => (or_iff_right ?_).symm
      rintro rfl
      exact hd he
    · rw [firstSeen_cons_of_not_mem he, List.mem_cons, ih, List.mem_cons, List.mem_append,
        List.mem_singleton]
      by_cases hd : d = e
      · simp [hd, he]
      · simp [hd]

theorem nodup_firstSeen (seen new : List DeclarationId) : (firstSeen seen new).Nodup := by
  induction new generalizing seen with
  | nil => exact List.nodup_nil
  | cons d new ih =>
    rw [firstSeen]
    split
    · exact ih seen
    · exact List.nodup_cons.2 ⟨by simp, ih _⟩

theorem firstSeen_sublist (seen new : List DeclarationId) : (firstSeen seen new).Sublist new := by
  induction new generalizing seen with
  | nil => exact .slnil
  | cons d new ih =>
    rw [firstSeen]
    split
    · exact (ih seen).cons d
    · exact (ih _).cons_cons d

theorem firstSeen_append :
    firstSeen seen (new ++ more)
      = firstSeen seen new ++ firstSeen (seen ++ firstSeen seen new) more := by
  induction new generalizing seen with
  | nil => simp [firstSeen]
  | cons d new ih =>
    by_cases hd : d ∈ seen
    · rw [List.cons_append, firstSeen_cons_of_mem hd, firstSeen_cons_of_mem hd, ih]
    · rw [List.cons_append, firstSeen_cons_of_not_mem hd, firstSeen_cons_of_not_mem hd, ih,
        List.append_assoc seen, List.singleton_append, List.cons_append]

theorem firstSeen_filter {keep : DeclarationId → Bool} (h : ∀ d ∈ new, keep d = false → d ∈ seen) :
    firstSeen seen (new.filter keep) = firstSeen seen new := by
  induction new generalizing seen with
  | nil => rfl
  | cons d new ih =>
    have hnew : ∀ e ∈ new, keep e = false → e ∈ seen :=
      fun e he => h e (List.mem_cons_of_mem d he)
    cases hd : keep d with
    | false =>
      rw [List.filter_cons_of_neg (by simp [hd]), ih hnew,
        firstSeen_cons_of_mem (h d List.mem_cons_self hd)]
    | true =>
      rw [List.filter_cons_of_pos hd, firstSeen, firstSeen, ih hnew,
        ih fun e he hk => List.mem_append_left [d] (hnew e he hk)]

theorem appendNew_eq (seen new : List DeclarationId) :
    appendNew seen new = seen ++ firstSeen seen new := by
  induction new generalizing seen with
  | nil => simp [appendNew, firstSeen]
  | cons d new ih =>
    have hstep : appendNew seen (d :: new)
        = appendNew (if seen.contains d then seen else seen ++ [d]) new := rfl
    by_cases hd : d ∈ seen
    · rw [hstep, if_pos (by simpa using hd), ih, firstSeen_cons_of_mem hd]
    · rw [hstep, if_neg (by simpa using hd), ih, firstSeen_cons_of_not_mem hd, List.append_assoc,
        List.singleton_append]

end FirstSeen

theorem nodup_directCallees (r : Resolver) (d : DeclarationId) : (r.directCallees d).Nodup := by
  rw [directCallees]
  split
  · exact List.nodup_nil
  · rw [appendNew_eq, List.nil_append]
    exact nodup_firstSeen _ _

end CallDiagram.Resolver
