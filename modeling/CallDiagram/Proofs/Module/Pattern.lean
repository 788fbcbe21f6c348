import CallDiagram.Module.Pattern
import Mathlib.Data.List.Infix
import Mathlib.Data.List.TakeWhile

namespace CallDiagram.ModulePattern

variable {pattern name text : String} {cs ending before after found : List Char}

theorem splitAtStar_of_not_mem (h : '*' ∉ cs) : splitAtStar cs = (cs, none) := by
  have hnone : cs.dropWhile (· ≠ '*') = [] :=
    List.dropWhile_eq_nil_iff.2 fun c hc => by
      simpa using ne_of_mem_of_not_mem hc h
  rw [splitAtStar, hnone]

theorem splitAtStar_append (h : '*' ∉ before) :
    splitAtStar (before ++ '*' :: after) = (before, some after) := by
  have hkept : ∀ c ∈ before, (decide (c ≠ '*')) = true := fun c hc => by
    simpa using ne_of_mem_of_not_mem hc h
  rw [splitAtStar, List.dropWhile_append_of_pos hkept, List.takeWhile_append_of_pos hkept]
  simp

theorem dropEnd?_eq_some_iff : dropEnd? ending cs = some found ↔ cs = found ++ ending := by
  rw [dropEnd?, Option.ite_none_right_eq_some, List.isSuffixOf_iff_suffix, Option.some.injEq]
  constructor
  · rintro ⟨⟨rest, rfl⟩, rfl⟩
    simp
  · rintro rfl
    simp

theorem matchChars?_append (h : '*' ∉ before) :
    matchChars? (before ++ '*' :: after) cs = some found ↔ cs = before ++ found ++ after := by
  rw [matchChars?, splitAtStar_append h]
  dsimp only
  rw [Option.ite_none_right_eq_some, List.isPrefixOf_iff_prefix, dropEnd?_eq_some_iff]
  constructor
  · rintro ⟨⟨rest, rfl⟩, hrest⟩
    rw [List.drop_left] at hrest
    rw [hrest, List.append_assoc]
  · rintro rfl
    rw [List.append_assoc]
    exact ⟨List.prefix_append _ _, List.drop_left⟩

theorem matchChars?_of_not_mem (h : '*' ∉ cs) {ds : List Char} :
    matchChars? cs ds = some found ↔ cs = ds ∧ found = [] := by
  rw [matchChars?, splitAtStar_of_not_mem h]
  simp [eq_comm]

theorem match?_eq_some : match? pattern name = some text ↔
    matchChars? pattern.toList name.toList = some text.toList := by
  rw [match?, Option.map_eq_some_iff]
  constructor
  · rintro ⟨cs, hcs, rfl⟩
    rwa [String.toList_ofList]
  · exact fun h => ⟨text.toList, h, String.ofList_toList⟩

/-- `before` and `after` are what stands before the first star of a pattern and behind it. -/
structure SplitsAt (pattern before after : String) : Prop where
  eq : pattern = before ++ "*" ++ after
  first : '*' ∉ before.toList

theorem exists_splitsAt (h : '*' ∈ pattern.toList) : ∃ before after, SplitsAt pattern before after := by
  obtain ⟨before, after, hpattern, hfirst⟩ := List.eq_append_cons_of_mem h
  refine ⟨String.ofList before, String.ofList after, ?_, by rwa [String.toList_ofList]⟩
  rw [← String.toList_inj, hpattern]
  simp

theorem match?_of_not_mem (h : '*' ∉ pattern.toList) :
    match? pattern name = some text ↔ pattern = name ∧ text = "" := by
  rw [match?_eq_some, matchChars?_of_not_mem h, String.toList_inj, String.toList_eq_nil_iff]

namespace SplitsAt

variable {before after : String}

theorem toList (h : SplitsAt pattern before after) :
    pattern.toList = before.toList ++ '*' :: after.toList := by
  rw [h.eq]
  simp

theorem match?_eq_some (h : SplitsAt pattern before after) :
    match? pattern name = some text ↔ name = before ++ text ++ after := by
  rw [ModulePattern.match?_eq_some, h.toList, matchChars?_append h.first, ← String.toList_append,
    ← String.toList_append, String.toList_inj]

theorem fill (h : SplitsAt pattern before after) (hafter : '*' ∉ after.toList) (text : String) :
    fill pattern text = before ++ text ++ after := by
  have hkeep : ∀ cs : List Char, '*' ∉ cs →
      (cs.flatMap fun c => if c = '*' then text.toList else [c]) = cs := by
    intro cs hcs
    have hsame : ∀ c ∈ cs, (if c = '*' then text.toList else [c]) = [c] :=
      fun c hc => if_neg (ne_of_mem_of_not_mem hc hcs)
    rw [List.flatMap_congr hsame, List.flatMap_singleton']
  rw [ModulePattern.fill, ← String.toList_inj, h.toList, List.flatMap_append, List.flatMap_cons,
    hkeep _ h.first, hkeep _ hafter]
  simp

end SplitsAt

/-- A pattern makes `text` of a name exactly if the name is what stands before the first star, `text`, and
what stands behind the star; or if it has no star, is the name itself, and `text` is blank. So the two sides
of the star have room beside each other in the name, and a pattern whose star is the only one becomes the
name when `text` is put in its place. -/
theorem match?_fits (pattern name text : String) :
    (match? pattern name = some text ↔
        (∃ before after, SplitsAt pattern before after ∧ name = before ++ text ++ after)
          ∨ '*' ∉ pattern.toList ∧ pattern = name ∧ text = "")
      ∧ (pattern.toList.count '*' = 1 → (match? pattern name = some text ↔ fill pattern text = name))
      ∧ ∀ before after, SplitsAt pattern before after → match? pattern name = some text →
          before.utf8ByteSize + text.utf8ByteSize + after.utf8ByteSize = name.utf8ByteSize := by
  refine ⟨?_, fun honce => ?_, fun before after hsplit h => ?_⟩
  · constructor
    · intro h
      by_cases hstar : '*' ∈ pattern.toList
      · obtain ⟨before, after, hsplit⟩ := exists_splitsAt hstar
        exact .inl ⟨before, after, hsplit, hsplit.match?_eq_some.1 h⟩
      · exact .inr ⟨hstar, (match?_of_not_mem hstar).1 h⟩
    · rintro (⟨before, after, hsplit, hname⟩ | ⟨hstar, h⟩)
      · exact hsplit.match?_eq_some.2 hname
      · exact (match?_of_not_mem hstar).2 h
  · have hstar : '*' ∈ pattern.toList := List.count_pos_iff.1 (by omega)
    obtain ⟨before, after, hsplit⟩ := exists_splitsAt hstar
    have hafter : '*' ∉ after.toList := by
      rw [hsplit.toList, List.count_append, List.count_cons_self] at honce
      exact List.count_eq_zero.1 (by omega)
    rw [hsplit.match?_eq_some, hsplit.fill hafter, eq_comm]
  · rw [hsplit.match?_eq_some.1 h, String.utf8ByteSize_append, String.utf8ByteSize_append]

theorem starredPaths_fit :
    match? "@äö/*/π.ts" "@äö/lib/π/π.ts" = some "lib/π" ∧ fill "@äö/*/π.ts" "lib/π" = "@äö/lib/π/π.ts"
      ∧ match? "a*b*" "a/b*/b*" = some "/b*/"
      ∧ ¬ match? "ab*ba" "aba" = some "" := by
  have hmatch : match? "@äö/*/π.ts" "@äö/lib/π/π.ts" = some "lib/π" := by decide
  refine ⟨hmatch, ((match?_fits _ _ _).2.1 (by decide)).1 hmatch, ?_, fun h => ?_⟩
  · exact (match?_fits _ _ _).1.2 (.inl ⟨"a", "b*", ⟨by decide, by decide⟩, by decide⟩)
  · have hroom := (match?_fits _ _ _).2.2 "ab" "ba" ⟨by decide, by decide⟩ h
    revert hroom
    decide

end CallDiagram.ModulePattern
