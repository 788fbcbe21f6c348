import CallDiagram.Proofs.FileTree.Place
import CallDiagram.Proofs.Text.Cut

namespace CallDiagram.Location

variable {l m : Location} {name : String}

theorem isIdle_of_isName (h : Entry.isName name) : Path.isIdle name.toList = false := by
  simp only [Entry.isName, Bool.and_eq_true, decide_eq_true_eq] at h
  obtain ⟨⟨⟨hempty, hhere⟩, -⟩, -⟩ := h
  unfold Path.isIdle
  split
  · next heq => exact absurd (String.toList_injective (by rw [heq]; rfl)) hempty
  · next heq => exact absurd (String.toList_injective (by rw [heq]; rfl)) hhere
  · rfl

theorem pieceComponent_of_isName (h : Entry.isName name) :
    Path.pieceComponent name.toList = .name name := by
  simp only [Entry.isName, Bool.and_eq_true, decide_eq_true_eq] at h
  rw [Path.pieceComponent, if_neg, String.ofList_toList]
  exact fun heq => h.1.2 (String.toList_injective (by rw [heq]; rfl))

theorem not_mem_of_isName (h : Entry.isName name) : '/' ∉ name.toList := by
  simp only [Entry.isName, Bool.and_eq_true, Bool.not_eq_true'] at h
  simpa using h.2

theorem ne_empty_of_isName (h : Entry.isName name) : name ≠ "" := by
  simp only [Entry.isName, Bool.and_eq_true, decide_eq_true_eq] at h
  exact h.1.1.1

theorem ne_up_of_isName (h : Entry.isName name) : name ≠ ".." := by
  simp only [Entry.isName, Bool.and_eq_true, decide_eq_true_eq] at h
  exact h.1.2

theorem toList_toPath (l : Location) : l.toPath.text.toList = '/' :: Text.join '/' (l.map String.toList) := by
  simp [toPath, Text.unpieces]

theorem body_toPath (h : ∀ name ∈ l, Entry.isName name) :
    Path.body l.toPath.text.toList = if l = [] then [[]] else l.map String.toList := by
  rw [toList_toPath, Path.body, Path.anchor, List.length_singleton, List.drop_one, List.tail_cons]
  split
  · next hnil => rw [hnil]; rfl
  · next hne =>
    refine Text.cut_join (by simpa using hne) fun piece hpiece => ?_
    obtain ⟨name, hname, rfl⟩ := List.mem_map.1 hpiece
    exact not_mem_of_isName (h name hname)

theorem components_toPath (h : ∀ name ∈ l, Entry.isName name) :
    l.toPath.components = .root :: l.map .name := by
  have hbody : (Path.body l.toPath.text.toList).filter (! Path.isIdle ·) = l.map String.toList := by
    rw [body_toPath h]
    split
    · next hnil => rw [hnil]; rfl
    · rw [List.filter_eq_self]
      intro piece hpiece
      obtain ⟨other, hother, rfl⟩ := List.mem_map.1 hpiece
      rw [isIdle_of_isName (h other hother)]
      rfl
  have hpieces : (l.map String.toList).map Path.pieceComponent = l.map .name := by
    rw [List.map_map]
    exact List.map_congr_left fun name hname => pieceComponent_of_isName (h name hname)
  rw [Path.components, hbody, hpieces, toList_toPath]
  rfl

theorem names_toPath (h : ∀ name ∈ l, Entry.isName name) : l.toPath.names = l := by
  rw [Path.names, components_toPath h, List.filterMap_cons_none rfl, List.filterMap_map]
  exact List.filterMap_some

theorem dropIdle_map_toList (h : ∀ name ∈ l, Entry.isName name) :
    ((l.map String.toList).reverse.dropWhile Path.isIdle).reverse = l.map String.toList := by
  have hkeep : ∀ pieces : List (List Char), (∀ piece ∈ pieces, Path.isIdle piece = false) →
      pieces.dropWhile Path.isIdle = pieces := by
    intro pieces hpieces
    cases pieces with
    | nil => rfl
    | cons piece pieces => rw [List.dropWhile_cons, hpieces piece List.mem_cons_self, if_neg Bool.false_ne_true]
  rw [hkeep, List.reverse_reverse]
  intro piece hpiece
  obtain ⟨name, hname, rfl⟩ := List.mem_map.1 (List.mem_reverse.1 hpiece)
  exact isIdle_of_isName (h name hname)

theorem parent_toPath {above : Location} {last : String} (h : ∀ name ∈ above ++ [last], Entry.isName name) :
    (toPath (above ++ [last])).parent = some above.toPath := by
  have habove : ∀ name ∈ above, Entry.isName name := fun name hname =>
    h name (List.mem_append_left _ hname)
  have hdrop : ((above ++ [last]).map String.toList).dropLast = above.map String.toList := by
    rw [List.map_append, List.map_singleton, List.dropLast_concat]
  have hne : (above ++ [last]).map String.toList ≠ [] := by simp
  simp only [Path.parent, body_toPath h, if_neg (List.concat_ne_nil last above), dropIdle_map_toList h]
  rw [hdrop, dropIdle_map_toList habove]
  refine congrArg (some ∘ Path.mk) (String.toList_injective ?_)
  refine Eq.trans ?_ (toList_toPath above).symm
  rw [String.toList_ofList, toList_toPath]
  rfl

theorem fileName?_toPath (h : ∀ name ∈ l, Entry.isName name) : l.toPath.fileName? = l.getLast? := by
  rw [Path.fileName?, components_toPath h, List.getLast?_cons, List.getLast?_map]
  cases l.getLast? <;> rfl

theorem extension?_toPath_append (hl : ∀ name ∈ l, Entry.isName name)
    (hm : ∀ name ∈ m, Entry.isName name) (hne : m ≠ []) :
    (l ++ m).toPath.extension? = m.toPath.extension? := by
  have happend : ∀ name ∈ l ++ m, Entry.isName name := fun name hname =>
    (List.mem_append.1 hname).elim (hl name) (hm name)
  rw [Path.extension?, Path.extension?, fileName?_toPath happend, fileName?_toPath hm,
    List.getLast?_append, List.getLast?_eq_some_getLast hne, Option.some_or]

end CallDiagram.Location
