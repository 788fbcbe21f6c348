import CallDiagram.Text.Blank
import CallDiagram.Proofs.Text.Cut
import Mathlib.Data.List.DropRight

namespace CallDiagram.Text

def IsBlank (cs : List Char) : Prop := ∀ c ∈ cs, isBlank c = true

/-- `ds` is what is left of `cs` without the white space around it. -/
structure Trims (cs ds : List Char) : Prop where
  around : ∃ before after, cs = before ++ ds ++ after ∧ IsBlank before ∧ IsBlank after
  head : ∀ c ∈ ds.head?, isBlank c = false
  last : ∀ c ∈ ds.getLast?, isBlank c = false

variable {sep : Char} {blank cs ds : List Char}

theorem trimChars_eq (cs : List Char) : trimChars cs = (cs.dropWhile isBlank).rdropWhile isBlank := rfl

theorem trimChars_blank_append (h : IsBlank blank) (cs : List Char) :
    trimChars (blank ++ cs) = trimChars cs := by
  rw [trimChars_eq, trimChars_eq, List.dropWhile_append_of_pos h]

theorem rdropWhile_append_blank (h : IsBlank blank) (cs : List Char) :
    (cs ++ blank).rdropWhile isBlank = cs.rdropWhile isBlank := by
  have hreverse : ∀ c ∈ blank.reverse, isBlank c = true := fun c hc => h c (List.mem_reverse.1 hc)
  rw [List.rdropWhile, List.rdropWhile, List.reverse_append, List.dropWhile_append_of_pos hreverse]

theorem trimChars_append_blank (h : IsBlank blank) (cs : List Char) :
    trimChars (cs ++ blank) = trimChars cs := by
  rw [trimChars_eq, trimChars_eq, List.dropWhile_append]
  split
  · next hcs =>
    rw [List.isEmpty_iff.1 hcs, List.dropWhile_eq_nil_iff.2 h]
  · exact rdropWhile_append_blank h _

theorem trimChars_eq_self (hhead : ∀ c ∈ cs.head?, isBlank c = false)
    (hlast : ∀ c ∈ cs.getLast?, isBlank c = false) : trimChars cs = cs := by
  have hdrop : cs.dropWhile isBlank = cs := by
    cases cs with
    | nil => rfl
    | cons c cs => rw [List.dropWhile_cons_of_neg (by simpa using hhead)]
  rw [trimChars_eq, hdrop, List.rdropWhile_eq_self_iff]
  intro hne
  simpa using hlast _ (List.getLast?_eq_some_getLast hne)

theorem trims_trimChars (cs : List Char) : Trims cs (trimChars cs) where
  around := by
    refine ⟨cs.takeWhile isBlank, (cs.dropWhile isBlank).rtakeWhile isBlank, ?_,
      fun c => List.mem_takeWhile_imp, fun c => List.mem_rtakeWhile_imp⟩
    rw [trimChars_eq, List.append_assoc, List.rdropWhile_append_rtakeWhile,
      List.takeWhile_append_dropWhile]
  head c hc := by
    -- What stands first when the end is cut off stood first before.
    have hfirst : c ∈ (cs.dropWhile isBlank).head? := by
      obtain ⟨rest, hrest⟩ := List.rdropWhile_prefix isBlank (cs.dropWhile isBlank)
      rw [← hrest, List.head?_append, ← trimChars_eq, hc, Option.some_or]
      rfl
    have hhead := List.head?_dropWhile_not isBlank cs
    rw [hfirst] at hhead
    simpa using hhead
  last c hc := by
    obtain ⟨hne, rfl⟩ := List.mem_getLast?_eq_getLast hc
    exact Bool.eq_false_iff.2 (List.rdropWhile_last_not isBlank (cs.dropWhile isBlank) hne)

theorem trims_iff : Trims cs ds ↔ trimChars cs = ds := by
  constructor
  · rintro ⟨⟨before, after, rfl, hbefore, hafter⟩, hhead, hlast⟩
    rw [trimChars_append_blank hafter, trimChars_blank_append hbefore, trimChars_eq_self hhead hlast]
  · rintro rfl
    exact trims_trimChars cs

theorem trimChars_trimChars (cs : List Char) : trimChars (trimChars cs) = trimChars cs :=
  trimChars_eq_self (trims_trimChars cs).head (trims_trimChars cs).last

theorem trimChars_eq_nil_iff : trimChars cs = [] ↔ IsBlank cs := by
  rw [← trims_iff]
  constructor
  · rintro ⟨⟨before, after, rfl, hbefore, hafter⟩, -, -⟩ c hc
    rw [List.append_nil, List.mem_append] at hc
    exact hc.elim (hbefore c) (hafter c)
  · intro h
    exact ⟨⟨cs, [], by simp, h, by simp [IsBlank]⟩, by simp, by simp⟩

theorem mem_of_mem_trimChars {c : Char} (h : c ∈ trimChars cs) : c ∈ cs := by
  obtain ⟨before, after, hcs, -⟩ := (trims_trimChars cs).around
  rw [hcs]
  simp [h]

theorem trim_trim (s : String) : trim (trim s) = trim s := by
  rw [trim, trim, String.toList_ofList, trimChars_trimChars]

theorem trim_eq_empty_iff {s : String} : trim s = "" ↔ IsBlank s.toList := by
  rw [trim, String.ofList_eq_empty_iff, trimChars_eq_nil_iff]

theorem isBlankText_iff {s : String} : isBlankText s = true ↔ IsBlank s.toList := List.all_eq_true

theorem IsBlank.not_mem (hsep : isBlank sep = false) (h : IsBlank blank) : sep ∉ blank := by
  intro hmem
  rw [h sep hmem] at hsep
  cases hsep

theorem map_trimChars_cut_append_blank (hsep : isBlank sep = false) (h : IsBlank blank) (cs : List Char) :
    (cut sep (cs ++ blank)).map trimChars = (cut sep cs).map trimChars := by
  obtain ⟨pieces, last, hcut⟩ := (List.eq_nil_or_concat' (cut sep cs)).resolve_left (cut_ne_nil sep cs)
  rw [cut_append_of_cut hcut (cut_of_not_mem (h.not_mem hsep)), hcut, List.map_append, List.map_append,
    List.map_singleton, List.map_singleton, trimChars_append_blank h]

theorem map_trimChars_cut_blank_append (hsep : isBlank sep = false) (h : IsBlank blank) (cs : List Char) :
    (cut sep (blank ++ cs)).map trimChars = (cut sep cs).map trimChars := by
  obtain ⟨first, pieces, hcut⟩ := List.exists_cons_of_ne_nil (cut_ne_nil sep cs)
  have hblank : cut sep blank = [] ++ [blank] := cut_of_not_mem (h.not_mem hsep)
  rw [cut_append_of_cut hblank hcut, hcut, List.nil_append, List.map_cons, List.map_cons,
    trimChars_blank_append h]

theorem map_trimChars_cut_trimChars (hsep : isBlank sep = false) (cs : List Char) :
    (cut sep (trimChars cs)).map trimChars = (cut sep cs).map trimChars := by
  obtain ⟨before, after, hcs, hbefore, hafter⟩ := (trims_trimChars cs).around
  conv => rhs; rw [hcs]
  rw [map_trimChars_cut_append_blank hsep hafter, map_trimChars_cut_blank_append hsep hbefore]

theorem map_trimChars_cut_beside (hsep : isBlank sep = false) {after : List Char} (hbefore : IsBlank blank)
    (hafter : IsBlank after) (cs ds : List Char) :
    (cut sep (cs ++ blank ++ sep :: (after ++ ds))).map trimChars = (cut sep (cs ++ sep :: ds)).map trimChars := by
  rw [cut_append_cons, cut_append_cons, List.map_append, List.map_append,
    map_trimChars_cut_append_blank hsep hbefore, map_trimChars_cut_blank_append hsep hafter]

end CallDiagram.Text
