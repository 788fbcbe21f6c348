import CallDiagram.Proofs.Diagram.Names
import CallDiagram.Proofs.Text.Key

namespace CallDiagram

open Text (Segment readKey?)

namespace Group

def segments : Group → List Segment
  | .unnamed => []
  | .current => [.quoted currentFile]
  | .file path => [.quoted path]
  | .package name => [.bare dependencies, .quoted name]

theorem map_text_segments (group : Group) : group.segments.map Segment.text = group.pieces := by
  cases group <;> rfl

theorem isSound_of_mem_segments {group : Group} : ∀ segment ∈ group.segments, segment.IsSound := by
  cases group with
  | unnamed => exact fun _ h => absurd h List.not_mem_nil
  | current | file => exact fun _ h => List.mem_singleton.1 h ▸ trivial
  | package name =>
    intro segment h
    rcases List.mem_cons.1 h with rfl | h
    · exact ⟨by decide, by decide, by decide⟩
    · exact List.mem_singleton.1 h ▸ trivial

theorem toList_text (group : Group) : group.text.toList = Text.join '.' (group.segments.map Segment.text) := by
  cases group with
  | unnamed => rfl
  | current | file => exact Text.toList_quote _
  | package name => exact toList_text_package name

theorem readKey?_text (group : Group) :
    group.text = "" ∧ group.segments = [] ∨ readKey? group.text = some group.segments := by
  by_cases h : group = .unnamed
  · subst h
    exact .inl ⟨rfl, rfl⟩
  · refine .inr (Text.readKey?_eq_some ?_ isSound_of_mem_segments group.toList_text)
    cases group <;> simp_all [segments]

theorem text_eq_iff {g g' : Group} : g.text = g'.text ↔ g.segments = g'.segments := by
  constructor
  · intro h
    rcases g.readKey?_text with ⟨hempty, hnil⟩ | hread <;> rcases g'.readKey?_text with ⟨hempty', hnil'⟩ | hread'
    · rw [hnil, hnil']
    · rw [hnil, text_eq_empty_iff.1 (h.symm.trans hempty)]
      rfl
    · rw [hnil', text_eq_empty_iff.1 (h.trans hempty')]
      rfl
    · rw [h, hread'] at hread
      exact (Option.some.inj hread).symm
  · intro h
    apply String.toList_inj.1
    rw [toList_text, toList_text, h]

end Group

namespace Naming

variable {n : Naming} {d e : DeclarationId} {i j : String} {unit : UnitId} {group g g' : Group}

theorem readKey?_identifier (h : n.identifier? d = some i) :
    ∃ group, n.groupOf? d = some group
      ∧ readKey? i = some (group.segments ++ (n.segments d).map .quoted) := by
  obtain ⟨group, hgroup, hlist⟩ := toList_identifier h
  refine ⟨group, hgroup, Text.readKey?_eq_some ?_ ?_ ?_⟩
  · simp [segments_ne_nil]
  · intro segment hsegment
    rcases List.mem_append.1 hsegment with hsegment | hsegment
    · exact Group.isSound_of_mem_segments segment hsegment
    · obtain ⟨s, -, rfl⟩ := List.mem_map.1 hsegment
      trivial
  · rw [hlist, List.map_append, Group.map_text_segments, List.map_map]
    rfl

theorem segments_of_group? (h : n.group? unit = some group) :
    (∃ name, group = .package name)
      ∨ ∃ names : List String, group.segments = names.map .quoted
        ∧ names.length = if n.options.omitFileNames then 0 else 1 := by
  rw [group?] at h
  split at h
  · cases h
    refine .inr ?_
    cases n.options.omitFileNames
    · exact ⟨[Group.currentFile], rfl, rfl⟩
    · exact ⟨[], rfl, rfl⟩
  · split at h
    · cases h
    · next file _ =>
      split at h
      · split at h
        · cases h
        · cases h
          exact .inl ⟨_, rfl⟩
      · split at h
        · next homit =>
          cases h
          exact .inr ⟨[], rfl, by rw [if_pos homit]; rfl⟩
        · next homit =>
          cases h
          exact .inr ⟨[Path.relative n.directory file.path], rfl, by rw [if_neg homit]; rfl⟩

theorem segments_append_inj {u v : UnitId} {names names' : List String} (hg : n.group? u = some g)
    (hg' : n.group? v = some g')
    (h : g.segments ++ names.map .quoted = g'.segments ++ names'.map .quoted) :
    g.segments = g'.segments ∧ names = names' := by
  have hquoted : ∀ {ss ss' : List String}, ss.map Segment.quoted = ss'.map Segment.quoted → ss = ss' :=
    fun h => (List.map_inj_right fun _ _ => Segment.quoted.inj).1 h
  -- only the name of a package begins without quotes
  have hbare : ∀ (package : String) (ss ss' rest : List String),
      (Group.package package).segments ++ rest.map .quoted ≠ ss.map Segment.quoted ++ ss'.map .quoted := by
    intro package ss ss' rest heq
    rw [← List.map_append] at heq
    have hmem : Segment.bare Group.dependencies ∈ (ss ++ ss').map Segment.quoted :=
      heq ▸ List.mem_append_left _ List.mem_cons_self
    simp at hmem
  rcases segments_of_group? hg with ⟨p, rfl⟩ | ⟨ss, hss, hlength⟩ <;>
    rcases segments_of_group? hg' with ⟨p', rfl⟩ | ⟨ss', hss', hlength'⟩
  · obtain ⟨hp, hnames⟩ := List.append_inj h rfl
    exact ⟨hp, hquoted hnames⟩
  · exact absurd (h.trans (by rw [hss'])) (hbare p ss' names' names)
  · exact absurd (h.symm.trans (by rw [hss])) (hbare p' ss names names')
  · have hsame : g.segments.length = g'.segments.length := by
      rw [hss, hss', List.length_map, List.length_map, hlength, hlength']
    obtain ⟨hgroups, hnames⟩ := List.append_inj h hsame
    exact ⟨hgroups, hquoted hnames⟩

theorem exists_unit_of_groupOf? (h : n.groupOf? d = some group) : ∃ unit, n.group? unit = some group := by
  obtain ⟨x, -, hgroup⟩ := Option.bind_eq_some_iff.1 h
  exact ⟨x.unit, hgroup⟩

theorem identifier?_eq_of_text (hg : n.groupOf? d = some g) (hg' : n.groupOf? e = some g')
    (htext : g.text = g'.text) (hsegments : n.segments d = n.segments e) :
    n.identifier? d = n.identifier? e := by
  simp only [identifier?, hg, hg', Option.map_some, htext, hsegments]

theorem identifier_eq_iff (hd : n.identifier? d = some i) (he : n.identifier? e = some j) :
    i = j ↔ (n.groupOf? d).map Group.text = (n.groupOf? e).map Group.text
      ∧ n.segments d = n.segments e := by
  obtain ⟨g, hg, hread⟩ := readKey?_identifier hd
  obtain ⟨g', hg', hread'⟩ := readKey?_identifier he
  obtain ⟨u, hu⟩ := exists_unit_of_groupOf? hg
  obtain ⟨v, hv⟩ := exists_unit_of_groupOf? hg'
  rw [hg, hg', Option.map_some, Option.map_some, Option.some.injEq]
  constructor
  · rintro rfl
    obtain ⟨hgroups, hsegments⟩ := segments_append_inj hu hv (Option.some.inj (hread.symm.trans hread'))
    exact ⟨Group.text_eq_iff.2 hgroups, hsegments⟩
  · rintro ⟨htext, hsegments⟩
    rw [identifier?_eq_of_text hg hg' htext hsegments, he] at hd
    exact (Option.some.inj hd).symm

/-- Every name is read back, from its first character to its last, as the segments of its group and
those of its declaration, and so belongs to one group and one list of segments. -/
theorem identifiers_decode (n : Naming) :
    (∀ d i, n.identifier? d = some i →
      ∃ group, n.groupOf? d = some group
        ∧ (group.text = "" ∧ group.segments = [] ∨ readKey? group.text = some group.segments)
        ∧ readKey? i = some (group.segments ++ (n.segments d).map .quoted))
    ∧ ∀ d e i j, n.identifier? d = some i → n.identifier? e = some j →
        (i = j ↔ (n.groupOf? d).map Group.text = (n.groupOf? e).map Group.text
          ∧ n.segments d = n.segments e) := by
  refine ⟨fun d i hi => ?_, fun d e i j hi hj => identifier_eq_iff hi hj⟩
  obtain ⟨group, hgroup, hread⟩ := readKey?_identifier hi
  exact ⟨group, hgroup, group.readKey?_text, hread⟩

def awkward : Naming := ofRoot
  { declarations := #[
      { id := 0, name := some "f", container := none, kind := .function, unit := 0, line := 1, callSites := [] },
      { id := 1, name := some "g", container := some "\"\\", kind := .method, unit := 1, line := 1,
        callSites := [] },
      { id := 2, name := some "f", container := none, kind := .function, unit := 2, line := 1, callSites := [] }]
    units := #[⟨0, ⟨"/main.ts"⟩, false⟩, ⟨1, ⟨"/a.\"b\\\".ts"⟩, false⟩, ⟨2, ⟨"/node_modules/\"x.\"/i.ts"⟩, true⟩]
    definitions := fun _ _ => [] } 0 {}

theorem awkward_decodes :
    ∃ i j, awkward.identifier? 1 = some i ∧ awkward.identifier? 2 = some j ∧ i ≠ j
      ∧ readKey? i = some [.quoted "a.\"b\\\".ts", .quoted "\"\\", .quoted "g()"]
      ∧ readKey? j = some [.bare "node_modules", .quoted "\"x.\"", .quoted "f()"] := by
  obtain ⟨hdecode, hsame⟩ := identifiers_decode awkward
  have hnamed : (awkward.identifier? 1).isSome ∧ (awkward.identifier? 2).isSome := by decide +kernel
  obtain ⟨i, hi⟩ := Option.isSome_iff_exists.1 hnamed.1
  obtain ⟨j, hj⟩ := Option.isSome_iff_exists.1 hnamed.2
  obtain ⟨g, hg, -, hread⟩ := hdecode 1 i hi
  obtain ⟨g', hg', -, hread'⟩ := hdecode 2 j hj
  have hgroup : awkward.groupOf? 1 = some (.file "a.\"b\\\".ts") := by decide +kernel
  have hgroup' : awkward.groupOf? 2 = some (.package "\"x.\"") := by decide +kernel
  have hsegments : awkward.segments 1 = ["\"\\", "g()"] := by decide +kernel
  have hsegments' : awkward.segments 2 = ["f()"] := by decide +kernel
  obtain rfl := Option.some.inj (hg.symm.trans hgroup)
  obtain rfl := Option.some.inj (hg'.symm.trans hgroup')
  rw [hsegments] at hread
  rw [hsegments'] at hread'
  refine ⟨i, j, hi, hj, fun heq => ?_, hread, hread'⟩
  obtain ⟨-, hlast⟩ := (hsame 1 2 i j hi hj).1 heq
  rw [hsegments, hsegments'] at hlast
  simp at hlast

end Naming

end CallDiagram
