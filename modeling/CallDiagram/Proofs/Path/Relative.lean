import CallDiagram.Path.Relative
import CallDiagram.Proofs.Path.Location

namespace CallDiagram.Path

section Shared

variable {source target more : List Component}

theorem sharedLength_le (source target : List Component) : sharedLength source target ≤ source.length := by
  fun_induction sharedLength source target with
  | case1 a as bs ih => exact Nat.succ_le_succ ih
  | case2 => exact Nat.zero_le _
  | case3 => exact Nat.zero_le _

theorem take_sharedLength (source target : List Component) :
    target.take (sharedLength source target) = source.take (sharedLength source target) := by
  fun_induction sharedLength source target with
  | case1 a as bs ih => rw [List.take_succ_cons, List.take_succ_cons, ih]
  | case2 => rfl
  | case3 => rfl

theorem sharedLength_append (source rest : List Component) :
    sharedLength source (source ++ rest) = source.length := by
  induction source with
  | nil => simp [sharedLength]
  | cons a source ih => rw [List.cons_append, sharedLength, if_pos rfl, ih, List.length_cons]

theorem replicate_append_inj {α : Type} {a : α} {i j : Nat} {l m : List α} (hl : a ∉ l) (hm : a ∉ m)
    (h : List.replicate i a ++ l = List.replicate j a ++ m) : i = j ∧ l = m := by
  induction i generalizing j with
  | zero =>
    cases j with
    | zero => exact ⟨rfl, h⟩
    | succ j =>
      rw [List.replicate_zero, List.nil_append, List.replicate_succ] at h
      exact absurd (h ▸ List.mem_cons_self) hl
  | succ i ih =>
    cases j with
    | zero =>
      rw [List.replicate_zero, List.nil_append, List.replicate_succ] at h
      exact absurd (h ▸ List.mem_cons_self) hm
    | succ j =>
      obtain ⟨rfl, hrest⟩ := ih (List.cons.inj h).2
      exact ⟨rfl, hrest⟩

theorem relativeParts_inj (htarget : ".." ∉ target.map Component.text) (hmore : ".." ∉ more.map Component.text)
    (h : relativeParts source target = relativeParts source more) :
    target.map Component.text = more.map Component.text := by
  have hdrop : ∀ {cs : List Component} (k : Nat), ".." ∉ cs.map Component.text →
      ".." ∉ (cs.drop k).map Component.text := by
    intro cs k hcs hmem
    rw [List.map_drop] at hmem
    exact hcs (List.mem_of_mem_drop hmem)
  obtain ⟨hup, hdown⟩ := replicate_append_inj (hdrop _ htarget) (hdrop _ hmore) h
  have hshared : sharedLength source target = sharedLength source more := by
    have hle := sharedLength_le source target
    have hle' := sharedLength_le source more
    omega
  have htake : target.take (sharedLength source more) = more.take (sharedLength source more) := by
    have htake := take_sharedLength source target
    rw [hshared] at htake
    exact htake.trans (take_sharedLength source more).symm
  rw [hshared] at hdown
  rw [← List.take_append_drop (sharedLength source more) target, List.map_append, htake, hdown,
    ← List.map_append, List.take_append_drop]

theorem relativeParts_root (source target : List Component) :
    relativeParts (.root :: source) (.root :: target) = relativeParts source target := by
  simp [relativeParts, sharedLength]

theorem relativeParts_nil (target : List Component) : relativeParts [] target = target.map Component.text := by
  simp [relativeParts, sharedLength]

end Shared

section Places

variable {l m : Location} {source : Path} {name : String}

theorem map_text_name (l : Location) : (l.map Component.name).map Component.text = l := by
  rw [List.map_map]
  exact List.map_id l

theorem up_not_mem (hl : ∀ name ∈ l, Entry.isName name) : ".." ∉ l := fun hup =>
  Location.ne_up_of_isName (hl ".." hup) rfl

theorem isPiece_of_mem_relativeParts (hl : ∀ name ∈ l, Entry.isName name) {above : List Component}
    {part : String} (h : part ∈ relativeParts above (l.map .name)) : part ≠ "" ∧ '/' ∉ part.toList := by
  rcases List.mem_append.1 h with h | h
  · rw [List.eq_of_mem_replicate h]
    decide
  · obtain ⟨component, hmem, rfl⟩ := List.mem_map.1 h
    obtain ⟨name, hname, rfl⟩ := List.mem_map.1 (List.mem_of_mem_drop hmem)
    exact ⟨Location.ne_empty_of_isName (hl name hname), Location.not_mem_of_isName (hl name hname)⟩

theorem relative_inj (hsource : source.components = [] ∨ source.components.head? = some .root)
    (hl : ∀ name ∈ l, Entry.isName name) (hm : ∀ name ∈ m, Entry.isName name)
    (h : relative source l.toPath = relative source m.toPath) : l = m := by
  rw [relative, relative, Location.components_toPath hl, Location.components_toPath hm] at h
  rcases hsource with hnone | hroot
  · have hpieces : ∀ {l : Location}, (∀ name ∈ l, Entry.isName name) →
        ∀ name ∈ l, name ≠ "" ∧ '/' ∉ name.toList := fun hl name hname =>
      ⟨Location.ne_empty_of_isName (hl name hname), Location.not_mem_of_isName (hl name hname)⟩
    rw [hnone, relativeParts_nil, relativeParts_nil, List.map_cons, map_text_name, List.map_cons,
      map_text_name] at h
    exact Text.unpieces_inj (hpieces hl) (hpieces hm) (Text.unpieces_cons_inj h)
  · obtain ⟨rest, hrest⟩ := List.head?_eq_some_iff.1 hroot
    rw [hrest, relativeParts_root, relativeParts_root] at h
    have hparts := Text.unpieces_inj (fun _ hpart => isPiece_of_mem_relativeParts hl hpart)
      (fun _ hpart => isPiece_of_mem_relativeParts hm hpart) h
    have hnames := relativeParts_inj (by rw [map_text_name]; exact up_not_mem hl)
      (by rw [map_text_name]; exact up_not_mem hm) hparts
    rwa [map_text_name, map_text_name] at hnames

theorem relative_child {above : Location} (h : ∀ other ∈ above ++ [name], Entry.isName other) :
    relative above.toPath (Location.toPath (above ++ [name])) = name := by
  have habove : ∀ other ∈ above, Entry.isName other := fun other hother =>
    h other (List.mem_append_left _ hother)
  have hparts : relativeParts (above.map .name) ((above ++ [name]).map .name) = [name] := by
    rw [List.map_append, relativeParts, sharedLength_append, Nat.sub_self, List.drop_left]
    rfl
  rw [relative, Location.components_toPath habove, Location.components_toPath h, relativeParts_root, hparts]
  exact String.ofList_toList

theorem head?_relative_nowhere (hl : ∀ name ∈ l, Entry.isName name) :
    (relative ⟨""⟩ l.toPath).toList.head? = some '/' := by
  have hnone : components ⟨""⟩ = [] := rfl
  rw [relative, Text.unpieces, String.toList_ofList, Location.components_toPath hl, hnone, relativeParts_nil]
  cases l <;> rfl

end Places

end CallDiagram.Path
