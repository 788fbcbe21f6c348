import CallDiagram.Proofs.FileTree.Canonical

namespace CallDiagram

namespace Path

variable {p : Path} {text : String}

theorem join_of_isAbsolute (h : (Path.mk text).isAbsolute) : p.join text = ⟨text⟩ := by
  rw [join, if_pos h]

theorem text_join_of_relative (h : (Path.mk text).isAbsolute = false) :
    (p.join text).text = p.text ++ text ∨ (p.join text).text = p.text ++ "/" ++ text := by
  rw [join, h]
  simp only [Bool.false_eq_true, if_false]
  split
  · exact .inl rfl
  · exact .inl rfl
  · exact .inr rfl

theorem length_lt_join (h : (Path.mk text).isAbsolute = false) (hne : p.join text ≠ p) :
    p.text.utf8ByteSize < (p.join text).text.utf8ByteSize := by
  rcases text_join_of_relative (p := p) h with hjoin | hjoin
  · have htext : text ≠ "" := by
      rintro rfl
      rw [String.append_empty] at hjoin
      exact hne (congrArg Path.mk hjoin)
    have hsize : text.utf8ByteSize ≠ 0 := fun hzero => htext (String.utf8ByteSize_eq_zero_iff.1 hzero)
    rw [hjoin, String.utf8ByteSize_append]
    omega
  · have hslash : "/".utf8ByteSize = 1 := rfl
    rw [hjoin, String.utf8ByteSize_append, String.utf8ByteSize_append, hslash]
    omega

end Path

namespace Entry

mutual
def isLinkFree : Entry → Bool
  | .file _ => true
  | .link _ => false
  | .directory children => areLinkFree children

def areLinkFree : List (String × Entry) → Bool
  | [] => true
  | (_, e) :: rest => e.isLinkFree && areLinkFree rest
end

mutual
def directories : Entry → List Location
  | .file _ => []
  | .link _ => []
  | .directory children => [] :: directoriesAmong children

def directoriesAmong : List (String × Entry) → List Location
  | [] => []
  | (name, e) :: rest => e.directories.map (name :: ·) ++ directoriesAmong rest
end

variable {e e' : Entry} {name : String} {children : List (String × Entry)} {l : Location}

theorem isLinkFree_of_mem (h : areLinkFree children) (hmem : (name, e) ∈ children) : e.isLinkFree := by
  induction children with
  | nil => cases hmem
  | cons p rest ih =>
    rw [areLinkFree, Bool.and_eq_true] at h
    cases List.mem_cons.1 hmem with
    | inl heq => cases heq; exact h.1
    | inr hmem => exact ih h.2 hmem

theorem exists_mem_of_child? (h : e.child? name = some e') :
    ∃ children, e = .directory children ∧ (name, e') ∈ children := by
  cases e with
  | directory children =>
    obtain ⟨before, behind, heq, -⟩ := List.lookup_eq_some_iff.1 h
    exact ⟨children, rfl, by rw [heq]; simp⟩
  | file _ => cases h
  | link _ => cases h

theorem isLinkFree_at? (he : e.isLinkFree) (h : e.at? l = some e') : e'.isLinkFree := by
  induction l generalizing e with
  | nil => exact Option.some.inj h ▸ he
  | cons name names ih =>
    obtain ⟨child, hchild, hnames⟩ := Option.bind_eq_some_iff.1 h
    obtain ⟨children, rfl, hmem⟩ := exists_mem_of_child? hchild
    exact ih (isLinkFree_of_mem he hmem) hnames

theorem mem_directoriesAmong (hmem : (name, e) ∈ children) (hl : l ∈ e.directories) :
    name :: l ∈ directoriesAmong children := by
  induction children with
  | nil => cases hmem
  | cons p rest ih =>
    rw [directoriesAmong, List.mem_append]
    cases List.mem_cons.1 hmem with
    | inl heq => cases heq; exact .inl (List.mem_map_of_mem hl)
    | inr hmem => exact .inr (ih hmem)

theorem mem_directories_of_at? (h : e.at? l = some (.directory children)) : l ∈ e.directories := by
  induction l generalizing e with
  | nil =>
    rw [Option.some.inj h, directories]
    exact List.mem_cons_self
  | cons name names ih =>
    obtain ⟨child, hchild, hnames⟩ := Option.bind_eq_some_iff.1 h
    obtain ⟨children, rfl, hmem⟩ := exists_mem_of_child? hchild
    rw [directories]
    exact List.mem_cons_of_mem _ (mem_directoriesAmong hmem (ih hnames))

end Entry

namespace FileTree

variable {root : Entry} {t : FileTree} {place middle last : Location} {before after : List String}
  {p : Path} {text : String}

theorem file_of_readText (h : t.readText p = .ok text) :
    ∃ l, t.locate p = .ok l ∧ t.root.at? l = some (.file (.text text)) := by
  rw [readText] at h
  cases hfind : t.find p with
  | error _ => rw [hfind] at h; cases h
  | ok e =>
    obtain ⟨l, hl, hat⟩ := locate_of_find hfind
    rw [hfind] at h
    rcases e with (s | _) | _ | _ <;> cases h
    exact ⟨l, hl, hat⟩

theorem locate_of_isDirectory (h : t.isDirectory p) :
    ∃ l children, t.locate p = .ok l ∧ t.root.at? l = some (.directory children) := by
  rw [isDirectory] at h
  cases hfind : t.find p with
  | error _ => simp [hfind] at h
  | ok e =>
    obtain ⟨l, hl, hat⟩ := locate_of_find hfind
    cases e with
    | directory children => exact ⟨l, children, hl, hat⟩
    | file _ => simp [hfind, Entry.isDirectory] at h
    | link _ => simp [hfind, Entry.isDirectory] at h

theorem length_lt_of_isDirectory (h : t.isDirectory p) : p.text.utf8ByteSize < pathLimit := by
  refine Nat.lt_of_not_le fun hlong => ?_
  rw [isDirectory, find, if_pos hlong] at h
  cases h

theorem exists_follow_of_append (hafter : after ≠ [])
    (h : follow root place (before ++ after) = .found last) :
    ∃ middle, follow root place before = .found middle ∧ follow root middle after = .found last := by
  induction before generalizing place with
  | nil => exact ⟨place, rfl, h⟩
  | cons piece before ih =>
    rw [List.cons_append, follow.eq_def] at h
    rw [follow.eq_def]
    dsimp only at h ⊢
    split at h
    · next hidle => simpa only [if_pos hidle] using ih h
    · next hidle =>
      rw [if_neg hidle]
      split at h
      · next hup => simpa only [if_pos hup] using ih h
      · next hup =>
        rw [if_neg hup]
        split at h
        · cases h
        · next hlong =>
          rw [if_neg hlong]
          split at h
          · cases h
          · next hat => simpa only [hat] using ih h
          · -- Only the last piece may lead to a file.
            obtain ⟨next, rest, heq⟩ := List.exists_cons_of_ne_nil
              (List.append_ne_nil_of_right_ne_nil before hafter)
            rw [heq] at h
            cases h
          · cases h

theorem follow_ne_linked {directory : Location} {target : String} {rest : List String}
    (hfree : root.isLinkFree) : follow root place before ≠ .linked directory target rest := by
  induction before generalizing place with
  | nil => simp [follow]
  | cons piece before ih =>
    rw [follow.eq_def]
    dsimp only
    split
    · exact ih
    · split
      · exact ih
      · split
        · simp
        · split
          · simp
          · exact ih
          · split <;> simp
          · next hat => exact absurd (Entry.isLinkFree_at? hfree hat) (by simp [Entry.isLinkFree])

def origin (t : FileTree) (p : Path) : Location := if p.isAbsolute then [] else t.workingDirectory

theorem follow_of_locate (hfree : t.root.isLinkFree) (h : t.locate p = .ok place) :
    p.text ≠ "" ∧ follow t.root (t.origin p) (Text.pieces '/' p.text) = .found place := by
  rw [locate] at h
  split at h
  · cases h
  · next hne =>
    refine ⟨hne, ?_⟩
    have hsearch : search t.root linkLimit (t.origin p) (Text.pieces '/' p.text) = .ok place := h
    rw [search.eq_def] at hsearch
    cases hfollow : follow t.root (t.origin p) (Text.pieces '/' p.text) with
    | found reached =>
      simp only [hfollow] at hsearch
      rw [Except.ok.inj hsearch]
    | failed e =>
      simp only [hfollow] at hsearch
      cases hsearch
    | linked directory target rest => exact absurd hfollow (follow_ne_linked hfree)

theorem isAbsolute_join (hne : p.text ≠ "") (hrelative : (Path.mk text).isAbsolute = false) :
    (p.join text).isAbsolute = p.isAbsolute := by
  obtain ⟨c, cs, hcs⟩ := List.exists_cons_of_ne_nil (mt String.toList_eq_nil_iff.1 hne)
  rcases Path.text_join_of_relative (p := p) hrelative with hjoin | hjoin
  · simp [Path.isAbsolute, hjoin, hcs]
  · simp [Path.isAbsolute, hjoin, hcs]

theorem exists_pieces_join (hne : p.text ≠ "") (hrelative : (Path.mk text).isAbsolute = false) :
    ∃ start blank, Text.pieces '/' p.text = start ++ blank ∧ (blank = [] ∨ blank = [""])
      ∧ Text.pieces '/' (p.join text).text = start ++ Text.pieces '/' text := by
  rw [Path.join, hrelative]
  simp only [Bool.false_eq_true, if_false]
  split
  · next hnil => exact absurd (String.toList_eq_nil_iff.1 (List.getLast?_eq_none_iff.1 hnil)) hne
  · next hslash =>
    obtain ⟨cs, hcs⟩ := List.getLast?_eq_some_iff.1 hslash
    refine ⟨(Text.cut '/' cs).map String.ofList, [""], ?_, .inr rfl, ?_⟩
    · rw [Text.pieces, hcs, Text.cut_append_cons, List.map_append]
      rfl
    · rw [Text.pieces, String.toList_append, hcs, List.append_assoc, List.singleton_append,
        Text.cut_append_cons, List.map_append]
      rfl
  · refine ⟨Text.pieces '/' p.text, [], (List.append_nil _).symm, .inl rfl, ?_⟩
    rw [Text.pieces, String.toList_append, String.toList_append, List.append_assoc]
    rw [show "/".toList ++ text.toList = '/' :: text.toList from rfl, Text.cut_append_cons, List.map_append]
    rfl

theorem follow_of_locate_join (hfree : t.root.isLinkFree) (hrelative : (Path.mk text).isAbsolute = false)
    (hp : t.locate p = .ok place) (h : t.locate (p.join text) = .ok last) :
    follow t.root place (Text.pieces '/' text) = .found last := by
  obtain ⟨hne, hplace⟩ := follow_of_locate hfree hp
  obtain ⟨-, hlast⟩ := follow_of_locate hfree h
  have hpieces : Text.pieces '/' text ≠ [] := by simp [Text.pieces]
  obtain ⟨start, blank, hstart, hblank, hjoin⟩ := exists_pieces_join hne hrelative
  rw [origin, isAbsolute_join hne hrelative, hjoin] at hlast
  obtain ⟨middle, hmiddle, hrest⟩ := exists_follow_of_append hpieces hlast
  rw [hstart] at hplace
  have hsame : middle = place := by
    rcases hblank with rfl | rfl
    · rw [List.append_nil] at hplace
      exact Search.found.inj (hmiddle.symm.trans hplace)
    · obtain ⟨middle', hmiddle', hnowhere⟩ := exists_follow_of_append (List.cons_ne_nil _ _) hplace
      obtain rfl : middle = middle' := Search.found.inj (hmiddle.symm.trans hmiddle')
      rw [follow, if_pos (.inl rfl)] at hnowhere
      exact Search.found.inj hnowhere
  rwa [hsame] at hrest

end FileTree

end CallDiagram
