import CallDiagram.Proofs.FileTree.Place
import CallDiagram.Proofs.Text.Cut

namespace CallDiagram

namespace Location

variable {l : Location}

theorem pieces_toPath (h : ∀ name ∈ l, Entry.isName name) :
    Text.pieces '/' l.toPath.text = "" :: if l = [] then [""] else l := by
  have hcut : Text.pieces '/' l.toPath.text = "" :: Text.pieces '/' (Text.unpieces '/' l) := by
    simp [Text.pieces, toPath, Text.cut]
  rw [hcut]
  split
  · next hnil => rw [hnil]; rfl
  · next hne =>
    rw [Text.pieces_unpieces hne fun name hname => ?_]
    have hslash := h name hname
    simp only [Entry.isName, Bool.and_eq_true, Bool.not_eq_true'] at hslash
    simpa using hslash.2

theorem toPath_inj {m : Location} (hl : ∀ name ∈ l, Entry.isName name)
    (hm : ∀ name ∈ m, Entry.isName name) (h : l.toPath = m.toPath) : l = m := by
  have hblank : ¬ Entry.isName "" := by decide
  have hpieces := pieces_toPath hl
  rw [h, pieces_toPath hm] at hpieces
  have heq := (List.cons.inj hpieces).2
  split at heq
  · next hnil =>
    split at heq
    · next hnil' => rw [hnil, hnil']
    · exact absurd (hl "" (by rw [← heq]; simp)) hblank
  · split at heq
    · exact absurd (hm "" (by rw [heq]; simp)) hblank
    · exact heq.symm

theorem isAbsolute_toPath (l : Location) : l.toPath.isAbsolute := by
  simp [toPath, Path.isAbsolute]

theorem isAbsolute_join (l : Location) (text : String) : (l.toPath.join text).isAbsolute := by
  rw [Path.join]
  split
  · next habs => exact habs
  · split <;> simp [toPath, Path.isAbsolute]

theorem toPath_text_ne (l : Location) : l.toPath.text ≠ "" := by
  simp [toPath]

end Location

namespace FileTree

variable {root : Entry} {place l : Location} {pieces : List String} {e : Entry}
  {children : List (String × Entry)}

theorem at?_dropLast (h : root.at? place = some (.directory children)) :
    ∃ above, root.at? place.dropLast = some (.directory above) := by
  rcases List.eq_nil_or_concat place with rfl | ⟨above, name, rfl⟩
  · exact ⟨children, h⟩
  · rw [List.concat_eq_append, Entry.at?_append] at h
    obtain ⟨parent, hparent, hchild⟩ := Option.bind_eq_some_iff.1 h
    rw [List.concat_eq_append, List.dropLast_concat, hparent]
    cases parent with
    | directory above => exact ⟨above, rfl⟩
    | file _ => cases hchild
    | link _ => cases hchild

def Search.Lands (root : Entry) : Search → Prop
  | .found place => ∃ e, root.at? place = some e ∧ e.isLink = false
  | .failed _ => True
  | .linked directory _ _ => ∃ children, root.at? directory = some (.directory children)

theorem follow_lands (pieces : List String) (h : root.at? place = some (.directory children)) :
    (follow root place pieces).Lands root := by
  fun_induction follow root place pieces generalizing children with
  | case1 place => exact ⟨_, h, rfl⟩
  | case2 place piece rest hidle ih => exact ih h
  | case3 place rest hidle ih =>
    obtain ⟨above, habove⟩ := at?_dropLast h
    exact ih habove
  | case4 => trivial
  | case5 => trivial
  | case6 place piece rest _ _ _ inside hat ih => exact ih hat
  | case7 place piece _ _ _ contents hat => exact ⟨_, hat, rfl⟩
  | case8 => trivial
  | case9 place piece rest _ _ _ target hat => exact ⟨children, h⟩

variable {t : FileTree}

def IsPlace (t : FileTree) (l : Location) : Prop := ∃ e, t.root.at? l = some e ∧ e.isLink = false

theorem search_isPlace {links : Nat} (h : t.root.at? place = some (.directory children))
    (hl : search t.root links place pieces = .ok l) : t.IsPlace l := by
  fun_induction search t.root links place pieces generalizing children with
  | case1 links place pieces found hfollow =>
    have hlands := follow_lands pieces h
    cases hl
    rwa [hfollow] at hlands
  | case2 => cases hl
  | case3 => cases hl
  | case4 place pieces directory target rest hfollow links start =>
    rename_i ih
    have hlands := follow_lands pieces h
    rw [hfollow] at hlands
    obtain ⟨above, habove⟩ := hlands
    have hstart : ∃ inside, t.root.at? start = some (.directory inside) := by
      by_cases habs : (Path.mk target).isAbsolute
      · exact ⟨t.top, by simp [start, habs, FileTree.root]⟩
      · exact ⟨above, by simp [start, habs, habove]⟩
    obtain ⟨inside, hinside⟩ := hstart
    exact ih hinside hl

theorem isPlace_of_locate {p : Path} (hp : p.isAbsolute) (h : t.locate p = .ok l) :
    t.IsPlace l := by
  have htop : t.root.at? [] = some (.directory t.top) := rfl
  by_cases hempty : p.text = ""
  · rw [locate, if_pos hempty] at h
    cases h
  · rw [locate, if_neg hempty, if_pos hp] at h
    exact search_isPlace htop h

theorem follow_names (hl : ∀ name ∈ l, Entry.isName name) (hat : root.at? (place ++ l) = some e)
    (he : e.isLink = false) :
    follow root place l = .found (place ++ l)
      ∨ follow root place l = .failed .nameTooLong ∧ ∃ name ∈ l, nameLimit < name.utf8ByteSize := by
  induction l generalizing place with
  | nil => simp [follow]
  | cons name names ih =>
    obtain ⟨hname, hnames⟩ := List.forall_mem_cons.1 hl
    simp only [Entry.isName, Bool.and_eq_true, decide_eq_true_eq] at hname
    obtain ⟨⟨⟨hempty, hhere⟩, hup⟩, -⟩ := hname
    rw [follow.eq_def]
    simp only [hempty, hhere, hup, or_self, if_false]
    split
    · next hlong => exact .inr ⟨rfl, name, List.mem_cons_self, hlong⟩
    · rw [List.append_cons] at hat
      rw [List.append_cons place name names]
      have hstep := hat
      rw [Entry.at?_append] at hstep
      obtain ⟨inside, hinside, hrest⟩ := Option.bind_eq_some_iff.1 hstep
      rw [hinside]
      -- Only the last name may lead to something that is no directory.
      cases inside with
      | directory children =>
        refine (ih hnames hat).imp_right fun ⟨hfailed, long, hmem, hlong⟩ => ?_
        exact ⟨hfailed, long, List.mem_cons_of_mem name hmem, hlong⟩
      | file contents =>
        cases names with
        | nil => exact .inl (by rw [List.append_nil])
        | cons next names => cases hrest
      | link target =>
        cases names with
        | nil => cases hrest; cases he
        | cons next names => cases hrest

theorem IsPlace.isName (ht : t.root.isWellFormed) (hl : t.IsPlace l) : ∀ name ∈ l, Entry.isName name := by
  obtain ⟨e, hat, -⟩ := hl
  exact (Entry.isWellFormed_at? ht hat).1

theorem locate_toPath (ht : t.root.isWellFormed) (hl : t.IsPlace l) :
    t.locate l.toPath = .ok l
      ∨ t.locate l.toPath = .error .nameTooLong ∧ ∃ name ∈ l, nameLimit < name.utf8ByteSize := by
  have hnames := hl.isName ht
  obtain ⟨e, hat, he⟩ := hl
  have hblank : follow t.root [] (Text.pieces '/' l.toPath.text) = follow t.root [] l := by
    rw [Location.pieces_toPath hnames]
    split
    · next hnil => simp [hnil, follow]
    · simp [follow]
  rw [locate, if_neg (Location.toPath_text_ne l), if_pos (Location.isAbsolute_toPath l), search, hblank]
  have hbelow : t.root.at? ([] ++ l) = some e := hat
  rcases follow_names hnames hbelow he with h | ⟨h, hlong⟩
  · exact .inl (by rw [h]; rfl)
  · exact .inr ⟨by rw [h], hlong⟩

theorem locate_of_find {p : Path} (h : t.find p = .ok e) :
    ∃ l, t.locate p = .ok l ∧ t.root.at? l = some e := by
  rw [find] at h
  split at h
  · cases h
  · cases hl : t.locate p with
    | error _ => rw [hl] at h; cases h
    | ok l =>
      rw [hl] at h
      refine ⟨l, rfl, ?_⟩
      cases hat : t.root.at? l with
      | none => simp [bind, Except.bind, hat] at h
      | some e' =>
        simp only [bind, Except.bind, hat, Except.ok.injEq] at h
        rw [h]

theorem locate_of_isFile {p : Path} (h : t.isFile p) :
    ∃ l contents, t.locate p = .ok l ∧ t.root.at? l = some (.file contents) := by
  rw [isFile] at h
  cases hfind : t.find p with
  | error _ => simp [hfind] at h
  | ok e =>
    obtain ⟨l, hl, hat⟩ := locate_of_find hfind
    cases e with
    | file contents => exact ⟨l, contents, hl, hat⟩
    | link _ => simp [hfind, Entry.isFile] at h
    | directory _ => simp [hfind, Entry.isFile] at h

theorem locate_of_readText {p : Path} {text : String} (h : t.readText p = .ok text) :
    ∃ l, t.locate p = .ok l := by
  rw [readText] at h
  cases hfind : t.find p with
  | error _ => rw [hfind] at h; cases h
  | ok e =>
    obtain ⟨l, hl, -⟩ := locate_of_find hfind
    exact ⟨l, hl⟩

theorem canonicalize_toPath {text : String} (ht : t.root.isWellFormed) (hl : t.IsPlace l)
    (h : t.readText l.toPath = .ok text) : t.canonicalize l.toPath = .ok l.toPath := by
  obtain ⟨found, hfound⟩ := locate_of_readText h
  rcases locate_toPath ht hl with hlocate | ⟨hlong, -⟩
  · rw [canonicalize, hlocate]
    rfl
  · rw [hfound] at hlong
    cases hlong

theorem locate_toPath_of_short (ht : t.root.isWellFormed) (hl : t.IsPlace l)
    (hshort : ∀ name ∈ l, name.utf8ByteSize ≤ nameLimit) : t.locate l.toPath = .ok l := by
  rcases locate_toPath ht hl with hlocate | ⟨-, name, hname, hlong⟩
  · exact hlocate
  · exact absurd (hshort name hname) (Nat.not_le_of_lt hlong)

end FileTree

end CallDiagram
