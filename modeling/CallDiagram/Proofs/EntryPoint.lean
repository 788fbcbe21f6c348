import CallDiagram.EntryPoint
import CallDiagram.Proofs.Text.Trim
import Mathlib.Data.List.Forall2

namespace CallDiagram.EntryPoint

open Text (pieces trim)

def names : EntryPoint → List String
  | .function name => [name]
  | .method cls name => [cls, name]

variable {entry : EntryPoint} {input : String}

theorem length_names (entry : EntryPoint) : entry.names.length = 1 ∨ entry.names.length = 2 := by
  cases entry with
  | function name => exact .inl rfl
  | method cls name => exact .inr rfl

theorem exists_names {parts : List String} (h : parts.length = 1 ∨ parts.length = 2) :
    ∃ entry : EntryPoint, entry.names = parts := by
  rcases h with h | h
  · obtain ⟨name, rfl⟩ := List.length_eq_one_iff.1 h
    exact ⟨.function name, rfl⟩
  · obtain ⟨cls, name, rfl⟩ := List.length_eq_two.1 h
    exact ⟨.method cls name, rfl⟩

theorem text_eq_unpieces (entry : EntryPoint) : entry.text = Text.unpieces '.' entry.names := by
  cases entry with
  | function name => simp [text, names, Text.unpieces, Text.join]
  | method cls name =>
    rw [← String.toList_inj]
    simp [text, names, Text.unpieces, Text.join]

theorem map_trim_pieces (input : String) :
    (pieces '.' input).map trim = ((Text.cut '.' input.toList).map Text.trimChars).map String.ofList := by
  simp [pieces, trim, Function.comp_def]

theorem parse?_eq_some_iff : parse? input = some entry ↔
    (pieces '.' input).map trim = entry.names ∧ ∀ name ∈ entry.names, name ≠ "" := by
  rw [map_trim_pieces, parse?, Text.map_trimChars_cut_trimChars (by decide)]
  generalize (Text.cut '.' input.toList).map Text.trimChars = parts
  constructor
  · intro h
    split at h
    case h_1 name =>
      split at h
      · cases h
      · next hname =>
        cases h
        exact ⟨rfl, by simpa [names] using hname⟩
    case h_2 cls name =>
      split at h
      · cases h
      · next hnames =>
        cases h
        exact ⟨rfl, by simpa [names] using hnames⟩
    case h_3 => cases h
  · rintro ⟨hparts, hne⟩
    cases entry with
    | function f =>
      obtain ⟨name, rfl, rfl⟩ := List.map_eq_singleton_iff.1 hparts
      simpa [names] using hne
    | method c f =>
      obtain ⟨cls, rest, rfl, rfl, hrest⟩ := List.map_eq_cons_iff.1 hparts
      obtain ⟨name, rfl, rfl⟩ := List.map_eq_singleton_iff.1 hrest
      simpa [names] using hne

theorem parse_eq_ok : parse input = .ok entry ↔ parse? input = some entry := by
  rw [parse]
  cases parse? input <;> simp

theorem exists_parse?_iff : (∃ entry, parse? input = some entry) ↔
    ((pieces '.' input).length = 1 ∨ (pieces '.' input).length = 2)
      ∧ ∀ piece ∈ pieces '.' input, trim piece ≠ "" := by
  constructor
  · rintro ⟨entry, h⟩
    obtain ⟨hnames, hne⟩ := parse?_eq_some_iff.1 h
    rw [← hnames] at hne
    refine ⟨?_, fun piece hpiece => hne _ (List.mem_map_of_mem hpiece)⟩
    rw [← List.length_map trim, hnames]
    exact entry.length_names
  · rintro ⟨hlength, hne⟩
    rw [← List.length_map trim] at hlength
    obtain ⟨entry, hnames⟩ := exists_names hlength
    refine ⟨entry, parse?_eq_some_iff.2 ⟨hnames.symm, ?_⟩⟩
    rw [hnames]
    simpa using hne

theorem parse?_congr {other : String} (h : (pieces '.' input).map trim = (pieces '.' other).map trim) :
    parse? input = parse? other := by
  ext entry
  rw [parse?_eq_some_iff, parse?_eq_some_iff, h]

theorem toOption_parse (input : String) : (parse input).toOption = parse? input := by
  rw [parse]
  cases parse? input <;> rfl

theorem parse?_text (h : parse? input = some entry) : parse? entry.text = some entry := by
  obtain ⟨hnames, hne⟩ := parse?_eq_some_iff.1 h
  have hname : ∀ name ∈ entry.names, '.' ∉ name.toList ∧ trim name = name := by
    intro name hname
    rw [← hnames, List.mem_map] at hname
    obtain ⟨piece, hpiece, rfl⟩ := hname
    obtain ⟨cs, hcs, rfl⟩ := List.mem_map.1 hpiece
    refine ⟨fun hdot => Text.not_mem_of_mem_cut hcs ?_, Text.trim_trim _⟩
    rw [trim, String.toList_ofList, String.toList_ofList] at hdot
    exact Text.mem_of_mem_trimChars hdot
  have hpieces : pieces '.' entry.text = entry.names := by
    rw [text_eq_unpieces]
    refine Text.pieces_unpieces ?_ fun name hmem => (hname name hmem).1
    cases entry <;> simp [names]
  rw [parse?_eq_some_iff, hpieces]
  refine ⟨?_, hne⟩
  rw [List.map_congr_left fun name hmem => (hname name hmem).2, List.map_id']

theorem parse?_blank_around {before after : String} (hbefore : Text.isBlankText before)
    (hafter : Text.isBlankText after) (input : String) : parse? (before ++ input ++ after) = parse? input := by
  refine parse?_congr ?_
  rw [map_trim_pieces, map_trim_pieces, String.toList_append, String.toList_append,
    Text.map_trimChars_cut_append_blank (by decide) (Text.isBlankText_iff.1 hafter),
    Text.map_trimChars_cut_blank_append (by decide) (Text.isBlankText_iff.1 hbefore)]

theorem parse?_blank_beside {before after : String} (hbefore : Text.isBlankText before)
    (hafter : Text.isBlankText after) (left right : String) :
    parse? (left ++ before ++ "." ++ after ++ right) = parse? (left ++ "." ++ right) := by
  have hdot : Text.isBlank '.' = false := by decide
  have hbeside := Text.map_trimChars_cut_beside hdot (Text.isBlankText_iff.1 hbefore)
    (Text.isBlankText_iff.1 hafter) left.toList right.toList
  refine parse?_congr ?_
  rw [map_trim_pieces, map_trim_pieces]
  simpa using congrArg (List.map String.ofList) hbeside

/-- An input is read exactly if it has one or two pieces between its dots, and none of them is blank. The
names are the pieces without the white space around them; so it does not matter how much of it stands around
the input or a dot. What was read is read again from its own text, and a failure tells of the whole input. -/
theorem parse_reads (input : String) :
    ((∃ entry, parse input = .ok entry) ↔
        ((pieces '.' input).length = 1 ∨ (pieces '.' input).length = 2)
          ∧ ∀ piece ∈ pieces '.' input, ∃ c ∈ piece.toList, Text.isBlank c = false)
      ∧ (∀ entry, parse input = .ok entry →
          List.Forall₂ (fun piece name => Text.Trims piece.toList name.toList) (pieces '.' input) entry.names
            ∧ parse entry.text = .ok entry)
      ∧ (∀ failure, parse input = .error failure → failure = .invalidTarget input)
      ∧ (∀ before after, Text.isBlankText before → Text.isBlankText after →
          (parse (before ++ input ++ after)).toOption = (parse input).toOption)
      ∧ ∀ left right before after, input = left ++ "." ++ right → Text.isBlankText before →
          Text.isBlankText after →
            (parse (left ++ before ++ "." ++ after ++ right)).toOption = (parse input).toOption := by
  simp only [parse_eq_ok, toOption_parse]
  refine ⟨?_, fun entry h => ⟨?_, parse?_text h⟩, fun failure h => ?_,
    fun before after hbefore hafter => parse?_blank_around hbefore hafter input, ?_⟩
  · rw [exists_parse?_iff]
    refine and_congr_right fun _ => forall₂_congr fun piece _ => ?_
    rw [Ne, Text.trim_eq_empty_iff, Text.IsBlank]
    simp
  · obtain ⟨hnames, -⟩ := parse?_eq_some_iff.1 h
    rw [← hnames, List.forall₂_map_right_iff, List.forall₂_same]
    intro piece _
    rw [trim, String.toList_ofList]
    exact Text.trims_trimChars piece.toList
  · rw [parse] at h
    split at h
    · cases h
    · cases h
      rfl
  · rintro left right before after rfl hbefore hafter
    exact parse?_blank_beside hbefore hafter left right

theorem spaced_reads :
    parse "\u00a0Shop\u3000.\tpay over\n" = .ok (.method "Shop" "pay over")
      ∧ List.Forall₂ (fun piece name => Text.Trims piece.toList name.toList)
          ["\u00a0Shop\u3000", "\tpay over\n"] ["Shop", "pay over"]
      ∧ parse "Shop.pay over" = .ok (.method "Shop" "pay over")
      ∧ (parse "\u2003Shop.pay over\n").toOption = some (.method "Shop" "pay over")
      ∧ (parse "Shop\u3000.\tpay over").toOption = some (.method "Shop" "pay over")
      ∧ ∀ failure, parse "Shop. .pay" = .error failure → failure = .invalidTarget "Shop. .pay" := by
  have hspaced : parse "\u00a0Shop\u3000.\tpay over\n" = .ok (.method "Shop" "pay over") := rfl
  obtain ⟨hpieces, htext⟩ := (parse_reads "\u00a0Shop\u3000.\tpay over\n").2.1 _ hspaced
  obtain ⟨-, -, -, haround, hbeside⟩ := parse_reads "Shop.pay over"
  exact ⟨hspaced, hpieces, htext, haround "\u2003" "\n" rfl rfl,
    hbeside "Shop" "pay over" "\u3000" "\t" rfl rfl rfl, (parse_reads "Shop. .pay").2.2.1⟩

end CallDiagram.EntryPoint
