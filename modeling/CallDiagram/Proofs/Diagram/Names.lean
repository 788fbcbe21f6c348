import CallDiagram.Diagram.Drawing
import CallDiagram.Proofs.Text.Quoted

namespace CallDiagram

namespace Text

@[simp] theorem toList_quote (s : String) : (quote s).toList = Quoted.encode s.toList := by
  rw [quote, String.toList_ofList]

theorem quote_ne_empty (s : String) : quote s ≠ "" := by
  intro h
  have hlist := congrArg String.toList h
  simp [Quoted.encode] at hlist

theorem join_cons_append (sep : Char) (piece more : List Char) (pieces : List (List Char)) :
    join sep ((piece ++ sep :: more) :: pieces) = join sep (piece :: more :: pieces) := by
  cases pieces <;> simp [join]

end Text

namespace Group

def pieces : Group → List (List Char)
  | .unnamed => []
  | .current => [Text.Quoted.encode currentFile.toList]
  | .file path => [Text.Quoted.encode path.toList]
  | .package name => [dependencies.toList, Text.Quoted.encode name.toList]

theorem toList_text_package (name : String) :
    (Group.package name).text.toList
      = dependencies.toList ++ '.' :: Text.Quoted.encode name.toList := by
  simp [text]

theorem text_eq_empty_iff {group : Group} : group.text = "" ↔ group = .unnamed := by
  cases group with
  | unnamed => exact ⟨fun _ => rfl, fun _ => rfl⟩
  | current => exact iff_of_false (Text.quote_ne_empty _) (by simp)
  | file path => exact iff_of_false (Text.quote_ne_empty _) (by simp)
  | package name =>
    refine iff_of_false (fun h => ?_) (by simp)
    have hlist := congrArg String.toList h
    rw [toList_text_package] at hlist
    simp at hlist

end Group

namespace Resolver

def isIgnored (r : Resolver) (root : DeclarationId) (ignored : List String)
    (d : DeclarationId) : Bool :=
  r.declarations[d]?.map Declaration.unit != r.declarations[root]?.map Declaration.unit
    && (r.unitOf? d).any fun file => file.foreign && ignored.contains file.path.package

theorem isIgnored_nil (r : Resolver) (root d : DeclarationId) : r.isIgnored root [] d = false := by
  simp [isIgnored]

end Resolver

namespace Naming

variable {n : Naming} {r : Resolver} {root d : DeclarationId} {options : DiagramOptions}
  {identifier : String}

theorem segments_ne_nil (n : Naming) (d : DeclarationId) : n.segments d ≠ [] := by
  have hmark : ∀ names, markCallable names = [] → names = [] := by
    intro names h
    match names with
    | [] => rfl
    | [_] => simp [markCallable] at h
    | _ :: _ :: _ => simp [markCallable] at h
  intro h
  have hpieces := hmark _ h
  simp [Text.pieces] at hpieces

theorem toList_identifier (h : n.identifier? d = some identifier) :
    ∃ group, n.groupOf? d = some group ∧ identifier.toList
      = Text.join '.' (group.pieces
        ++ (n.segments d).map fun segment => Text.Quoted.encode segment.toList) := by
  obtain ⟨group, hgroup, rfl⟩ := Option.map_eq_some_iff.1 h
  refine ⟨group, hgroup, ?_⟩
  rw [Text.unpieces, String.toList_ofList]
  cases group with
  | unnamed => simp [Group.text, Group.pieces, Function.comp_def]
  | current =>
    simp [Group.text, Group.pieces, Text.quote_ne_empty, Function.comp_def]
  | file path =>
    simp [Group.text, Group.pieces, Text.quote_ne_empty, Function.comp_def]
  | package name =>
    have hne : (Group.package name).text ≠ "" := mt Group.text_eq_empty_iff.1 (by simp)
    rw [if_neg hne, List.map_cons, Group.toList_text_package, Text.join_cons_append]
    simp [Group.pieces, Function.comp_def]

theorem isSome_identifier? (n : Naming) (d : DeclarationId) :
    (n.identifier? d).isSome = (n.groupOf? d).isSome := by
  rw [identifier?, Option.isSome_map]

theorem current_ofRoot {x : Declaration} (hroot : r.declarations[root]? = some x) :
    (ofRoot r root options).current = x.unit := by
  simp [ofRoot, hroot]

theorem groupOf?_root (hroot : root < r.declarations.size) (options : DiagramOptions) :
    (ofRoot r root options).groupOf? root
      = some (if options.omitFileNames then .unnamed else .current) := by
  have hx := Array.getElem?_eq_getElem hroot
  simp only [groupOf?, group?, current_ofRoot hx]
  simp [ofRoot, hx]

theorem isSome_identifier?_root (hroot : root < r.declarations.size) (options : DiagramOptions) :
    ((ofRoot r root options).identifier? root).isSome := by
  rw [isSome_identifier?, groupOf?_root hroot]
  rfl

theorem isSome_identifier?_ofRoot (hroot : root < r.declarations.size)
    (hd : (r.unitOf? d).isSome) (options : DiagramOptions) :
    ((ofRoot r root options).identifier? d).isSome
      = !r.isIgnored root options.ignoredPackages d := by
  obtain ⟨file, hfile⟩ := Option.isSome_iff_exists.1 hd
  obtain ⟨y, hy, hunit⟩ := Option.bind_eq_some_iff.1 hfile
  have hx := Array.getElem?_eq_getElem hroot
  rw [isSome_identifier?, groupOf?]
  simp only [ofRoot, hx, hy, Option.bind_some, group?, hunit, Resolver.isIgnored, hfile,
    Option.map_some, Option.any_some]
  by_cases hcurrent : y.unit = r.declarations[root].unit
  · simp [hcurrent]
  · cases hforeign : file.foreign with
    | false => cases homit : options.omitFileNames <;> simp [hcurrent]
    | true => by_cases hin : file.path.package ∈ options.ignoredPackages <;> simp [hcurrent, hin]

theorem exists_pinned (hroot : root < r.declarations.size) (options : DiagramOptions) :
    ∃ pin, Drawing.pinned? (ofRoot r root options) root = some (Text.quote pin)
      ∧ (pin = Group.currentFile ∨ pin ∈ (ofRoot r root options).segments root) := by
  have hgroup := groupOf?_root hroot options
  have hcurrent : (ofRoot r root options).group? (ofRoot r root options).current
      = some (if options.omitFileNames then .unnamed else .current) := by
    rw [group?, if_pos rfl]
    rfl
  rw [Drawing.pinned?, hcurrent]
  cases homit : options.omitFileNames with
  | false => exact ⟨_, by simp [Group.text, Text.quote_ne_empty], .inl rfl⟩
  | true =>
    obtain ⟨segment, segments, hsegments⟩ :=
      List.exists_cons_of_ne_nil ((ofRoot r root options).segments_ne_nil root)
    refine ⟨segment, ?_, .inr (by simp [hsegments])⟩
    simp [topSegment?, hgroup, homit, Group.text, hsegments]

theorem groupOf?_of_prefix {package : String} (h : n.identifier? d = some identifier)
    (hbegins : (Group.package package).text.toList <+: identifier.toList) :
    n.groupOf? d = some (.package package) := by
  obtain ⟨group, hgroup, hlist⟩ := toList_identifier h
  obtain ⟨segment, segments, hsegments⟩ := List.exists_cons_of_ne_nil (n.segments_ne_nil d)
  obtain ⟨rest, hrest⟩ := hbegins
  rw [hlist, hsegments, Group.toList_text_package] at hrest
  -- the names of all other groups begin with a quote
  have hquoted : ∀ (s : List Char) (pieces : List (List Char)),
      Group.dependencies.toList ++ '.' :: Text.Quoted.encode package.toList ++ rest
        ≠ Text.join '.' (Text.Quoted.encode s :: pieces) := by
    intro s pieces heq
    have hhead := congrArg List.head? heq
    cases pieces <;> simp [Group.dependencies, Path.dependencyDirectory, Text.join,
      Text.Quoted.encode] at hhead
  cases group with
  | unnamed => exact absurd hrest (hquoted _ _)
  | current => exact absurd hrest (hquoted _ _)
  | file path => exact absurd hrest (hquoted _ _)
  | package name =>
    have hname : Text.Quoted.encode package.toList ++ rest
        = Text.Quoted.encode name.toList ++ '.' :: Text.join '.'
          ((segment :: segments).map fun segment => Text.Quoted.encode segment.toList) := by
      simpa [Group.pieces, Text.join] using hrest
    rw [hgroup, String.toList_inj.1 (Text.Quoted.encode_append_inj hname).1]

end Naming

end CallDiagram
