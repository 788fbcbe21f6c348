import CallDiagram.Text.Cut

namespace CallDiagram.Text

variable {sep : Char}

theorem cut_append_cons (sep : Char) (cs ds : List Char) :
    cut sep (cs ++ sep :: ds) = cut sep cs ++ cut sep ds := by
  induction cs with
  | nil => simp [cut]
  | cons c cs ih =>
    obtain ⟨piece, pieces, hcut⟩ := List.exists_cons_of_ne_nil (cut_ne_nil sep cs)
    rw [List.cons_append, cut, cut, ih, hcut]
    split <;> rfl

theorem cut_of_not_mem {piece : List Char} (h : sep ∉ piece) : cut sep piece = [piece] := by
  induction piece with
  | nil => rfl
  | cons c piece ih =>
    obtain ⟨hc, hpiece⟩ := List.ne_and_not_mem_of_not_mem_cons h
    rw [cut, if_neg (Ne.symm hc), ih hpiece]

theorem cut_append {piece : List Char} (h : sep ∉ piece) (cs : List Char) :
    cut sep (piece ++ sep :: cs) = piece :: cut sep cs := by
  rw [cut_append_cons, cut_of_not_mem h, List.singleton_append]

theorem cut_append_of_cut {before after : List (List Char)} {last first cs ds : List Char}
    (hcs : cut sep cs = before ++ [last]) (hds : cut sep ds = first :: after) :
    cut sep (cs ++ ds) = before ++ (last ++ first) :: after := by
  induction cs generalizing before last with
  | nil =>
    obtain ⟨rfl, hlast⟩ := List.append_eq_singleton_iff.1 hcs.symm |>.resolve_right (by simp)
    rw [List.singleton_inj.1 hlast]
    exact hds
  | cons c cs ih =>
    obtain ⟨piece, pieces, hcut⟩ := List.exists_cons_of_ne_nil (cut_ne_nil sep cs)
    rw [List.cons_append, cut]
    rw [cut] at hcs
    by_cases hc : c = sep
    · rw [if_pos hc] at hcs ⊢
      cases before with
      | nil => simp at hcs
      | cons part before =>
        obtain ⟨rfl, hrest⟩ := List.cons.inj hcs
        rw [ih hrest, List.cons_append]
    · rw [if_neg hc] at hcs ⊢
      simp only [hcut] at hcs ih
      cases before with
      | nil =>
        obtain ⟨rfl, rfl⟩ := List.cons.inj hcs
        have hrest : piece :: [] = [] ++ [piece] := rfl
        rw [ih hrest]
        rfl
      | cons part before =>
        obtain ⟨rfl, rfl⟩ := List.cons.inj hcs
        have hrest : piece :: (before ++ [last]) = piece :: before ++ [last] := rfl
        rw [ih hrest]
        rfl

theorem cut_join {parts : List (List Char)} (hne : parts ≠ []) (h : ∀ piece ∈ parts, sep ∉ piece) :
    cut sep (join sep parts) = parts := by
  match parts with
  | [] => exact absurd rfl hne
  | [piece] => exact cut_of_not_mem (h piece List.mem_cons_self)
  | piece :: next :: rest =>
    rw [join, cut_append (h piece List.mem_cons_self),
      cut_join (List.cons_ne_nil next rest) fun q hq => h q (List.mem_cons_of_mem piece hq)]

theorem join_append {parts more : List (List Char)} (hparts : parts ≠ []) (hmore : more ≠ []) :
    join sep (parts ++ more) = join sep parts ++ sep :: join sep more := by
  match parts with
  | [] => exact absurd rfl hparts
  | [part] =>
    obtain ⟨next, rest, rfl⟩ := List.exists_cons_of_ne_nil hmore
    rfl
  | part :: next :: rest =>
    have ih := join_append (List.cons_ne_nil next rest) hmore
    rw [List.cons_append] at ih
    rw [List.cons_append, List.cons_append, join, ih, join, List.append_assoc, List.cons_append]

theorem join_prefix_iff {parts more : List (List Char)} (hne : parts ≠ []) (hne' : more ≠ [])
    (hparts : ∀ part ∈ parts, sep ∉ part) (hmore : ∀ part ∈ more, sep ∉ part) :
    (join sep more = join sep parts ∨ ∃ rest, join sep more = join sep parts ++ sep :: rest) ↔
      parts <+: more := by
  constructor
  · rintro (hjoin | ⟨rest, hjoin⟩)
    · have heq : parts = more := by rw [← cut_join hne hparts, ← hjoin, cut_join hne' hmore]
      exact heq ▸ List.prefix_rfl
    · have hcut := cut_join hne' hmore
      rw [hjoin, cut_append_cons, cut_join hne hparts] at hcut
      exact ⟨cut sep rest, hcut⟩
  · rintro ⟨rest, rfl⟩
    by_cases hrest : rest = []
    · rw [hrest, List.append_nil]
      exact .inl rfl
    · exact .inr ⟨join sep rest, join_append hne hrest⟩

theorem join_cons_inj {part : List Char} {parts more : List (List Char)}
    (h : join sep (part :: parts) = join sep (part :: more)) : join sep parts = join sep more := by
  cases parts with
  | nil =>
    cases more with
    | nil => rfl
    | cons => simp [join] at h
  | cons =>
    cases more with
    | nil => simp [join] at h
    | cons => exact (List.cons.inj (List.append_cancel_left h)).2

theorem join_inj {parts more : List (List Char)} (hparts : ∀ part ∈ parts, part ≠ [] ∧ sep ∉ part)
    (hmore : ∀ part ∈ more, part ≠ [] ∧ sep ∉ part) (h : join sep parts = join sep more) : parts = more := by
  have hjoin : ∀ {parts : List (List Char)}, (∀ part ∈ parts, part ≠ [] ∧ sep ∉ part) →
      join sep parts = [] → parts = [] := by
    intro parts hparts hnil
    match parts with
    | [] => rfl
    | [part] => exact absurd hnil (hparts part List.mem_cons_self).1
    | part :: next :: rest => simp [join] at hnil
  by_cases hnil : parts = []
  · subst hnil
    exact (hjoin hmore h.symm).symm
  · by_cases hnil' : more = []
    · subst hnil'
      exact hjoin hparts h
    · rw [← cut_join hnil fun part hpart => (hparts part hpart).2, h,
        cut_join hnil' fun part hpart => (hmore part hpart).2]

theorem pieces_unpieces {parts : List String} (hne : parts ≠ [])
    (h : ∀ piece ∈ parts, sep ∉ piece.toList) : pieces sep (unpieces sep parts) = parts := by
  rw [pieces, unpieces, String.toList_ofList, cut_join, List.map_map]
  · simp
  · simpa using hne
  · simpa using h

theorem unpieces_cons_inj {part : String} {parts more : List String}
    (h : unpieces sep (part :: parts) = unpieces sep (part :: more)) : unpieces sep parts = unpieces sep more := by
  have hjoin := String.ofList_injective h
  rw [List.map_cons, List.map_cons] at hjoin
  rw [unpieces, unpieces, join_cons_inj hjoin]

theorem unpieces_inj {parts more : List String} (hparts : ∀ part ∈ parts, part ≠ "" ∧ sep ∉ part.toList)
    (hmore : ∀ part ∈ more, part ≠ "" ∧ sep ∉ part.toList) (h : unpieces sep parts = unpieces sep more) :
    parts = more := by
  refine (List.map_inj_right fun _ _ => String.toList_inj.1).1 (join_inj ?_ ?_ (String.ofList_injective h))
  · simpa using hparts
  · simpa using hmore

theorem cut_flatMap {lines : List (List Char)} (h : ∀ line ∈ lines, sep ∉ line) :
    cut sep (lines.flatMap (· ++ [sep])) = lines ++ [[]] := by
  induction lines with
  | nil => rfl
  | cons line lines ih =>
    rw [List.flatMap_cons, List.append_assoc, List.singleton_append,
      cut_append (h line List.mem_cons_self),
      ih fun l hl => h l (List.mem_cons_of_mem line hl), List.cons_append]

variable {c : Char}

theorem mem_of_mem_cut {cs piece : List Char} (hpiece : piece ∈ cut sep cs) (hc : c ∈ piece) :
    c ∈ cs := by
  induction cs generalizing piece with
  | nil => simp_all [cut]
  | cons d cs ih =>
    obtain ⟨first, pieces, hcut⟩ := List.exists_cons_of_ne_nil (cut_ne_nil sep cs)
    rw [cut] at hpiece
    split at hpiece
    · rcases List.mem_cons.1 hpiece with rfl | hpiece
      · cases hc
      · exact List.mem_cons_of_mem d (ih hpiece hc)
    · simp only [hcut] at hpiece ih
      rcases List.mem_cons.1 hpiece with rfl | hpiece
      · rcases List.mem_cons.1 hc with rfl | hc
        · exact List.mem_cons_self
        · exact List.mem_cons_of_mem d (ih List.mem_cons_self hc)
      · exact List.mem_cons_of_mem d (ih (List.mem_cons_of_mem first hpiece) hc)

theorem not_mem_of_mem_cut {cs piece : List Char} (hpiece : piece ∈ cut sep cs) : sep ∉ piece := by
  induction cs generalizing piece with
  | nil => simp_all [cut]
  | cons d cs ih =>
    obtain ⟨first, pieces, hcut⟩ := List.exists_cons_of_ne_nil (cut_ne_nil sep cs)
    rw [cut] at hpiece
    split at hpiece
    · rcases List.mem_cons.1 hpiece with rfl | hpiece
      · exact List.not_mem_nil
      · exact ih hpiece
    · next hd =>
      simp only [hcut] at hpiece ih
      rcases List.mem_cons.1 hpiece with rfl | hpiece
      · exact List.not_mem_cons_of_ne_of_not_mem (Ne.symm hd) (ih List.mem_cons_self)
      · exact ih (List.mem_cons_of_mem first hpiece)

theorem not_mem_join {parts : List (List Char)} (hsep : c ≠ sep) (h : ∀ part ∈ parts, c ∉ part) :
    c ∉ join sep parts := by
  match parts with
  | [] => exact List.not_mem_nil
  | [part] => exact h part List.mem_cons_self
  | part :: next :: parts =>
    rw [join, List.mem_append, List.mem_cons]
    rintro (hc | hc | hc)
    · exact h part List.mem_cons_self hc
    · exact hsep hc
    · exact not_mem_join hsep (fun p hp => h p (List.mem_cons_of_mem part hp)) hc

end CallDiagram.Text
