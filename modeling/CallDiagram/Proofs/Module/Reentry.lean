import CallDiagram.Proofs.Module.Termination

namespace CallDiagram.ModuleFinder

open Relation

variable {t : FileTree} {directory inner path : Path} {l m place : Location} {entry : String}

/-- Wherever the search goes on, it enters no directory again that it is already in, by whatever path. -/
def NeverReenters (t : FileTree) (directory : Path) : Prop :=
  ∀ path inner place, ReflTransGen (Enters t) directory path → TransGen (Enters t) path inner →
    t.locate path = .ok place → t.locate inner ≠ .ok place

theorem NeverReenters.enters (h : NeverReenters t directory) (hinner : Enters t directory inner) :
    NeverReenters t inner :=
  fun path next place hpath => h path next place (hpath.head hinner)

theorem neverRepeats_of_relative (h : ∀ entry ∈ manifestEntries t, (Path.mk entry).isAbsolute = false)
    (directory : Path) : NeverRepeats t directory := by
  have hgrows : ∀ {path inner : Path}, TransGen (Enters t) path inner →
      path.text.utf8ByteSize < inner.text.utf8ByteSize := by
    have hstep : ∀ {path inner : Path}, Enters t path inner →
        path.text.utf8ByteSize < inner.text.utf8ByteSize := by
      intro path inner hinner
      rcases hinner.absolute_or_longer with ⟨entry, hentry, habs, -⟩ | hlonger
      · rw [h entry hentry] at habs
        cases habs
      · exact hlonger
    intro path inner hinner
    induction hinner with
    | single h => exact hstep h
    | tail _ h ih => exact ih.trans (hstep h)
  exact fun path _ hcycle => Nat.lt_irrefl _ (hgrows hcycle)

section Bound

open Classical in
noncomputable def ahead (t : FileTree) (directory : Path) : Nat :=
  (t.root.directories.toFinset.filter fun m =>
    ∃ inner, TransGen (Enters t) directory inner ∧ t.locate inner = .ok m).card

theorem ahead_lt (h : NeverReenters t directory) (hinner : Enters t directory inner) :
    ahead t inner < ahead t directory := by
  classical
  obtain ⟨m, children, hm, hat⟩ := FileTree.locate_of_isDirectory hinner.2.2
  refine Finset.card_lt_card ((Finset.ssubset_iff_of_subset ?_).2 ⟨m, ?_, ?_⟩)
  · exact Finset.monotone_filter_right _ fun k _ ⟨next, hnext, hk⟩ => ⟨next, hnext.head hinner, hk⟩
  · exact Finset.mem_filter.2
      ⟨List.mem_toFinset.2 (Entry.mem_directories_of_at? hat), inner, .single hinner, hm⟩
  · intro hmem
    obtain ⟨-, next, hnext, hback⟩ := Finset.mem_filter.1 hmem
    exact h inner next m (.single hinner) hnext hm hback

theorem ahead_lt_length (h : NeverReenters t directory) (hdirectory : t.isDirectory directory) :
    ahead t directory < t.root.directories.length := by
  classical
  obtain ⟨l, children, hl, hat⟩ := FileTree.locate_of_isDirectory hdirectory
  refine Nat.lt_of_lt_of_le (Finset.card_lt_card (Finset.filter_ssubset.2 ⟨l, ?_, ?_⟩))
    (List.toFinset_card_le _)
  · exact List.mem_toFinset.2 (Entry.mem_directories_of_at? hat)
  · exact fun ⟨inner, hinner, hback⟩ => h directory inner l .refl hinner hl hback

theorem NeverReenters.exists_inDirectory? (h : NeverReenters t directory)
    (hdirectory : t.isDirectory directory) :
    ∃ found, inDirectory? t (resolveWithin t t.root.directories.length) directory = some found :=
  exists_inDirectory?_of_weight (ahead t)
    (fun _ _ hreenters hinner => ⟨hreenters.enters hinner, ahead_lt hreenters hinner⟩) h
    (ahead_lt_length h hdirectory)

end Bound

def Leads (t : FileTree) (l m : Location) : Prop :=
  ∃ directory target children, t.locate directory = .ok l ∧ target ∈ entryTargets t directory
    ∧ t.locate target = .ok m ∧ t.root.at? m = some (.directory children)

/-- From a place on, no manifest leads back to its own directory, at once or by way of others. -/
def NeverLeadsBack (t : FileTree) (l : Location) : Prop :=
  ∀ m, ReflTransGen (Leads t) l m → ¬ TransGen (Leads t) m m

theorem exists_leads_of_enters (hl : t.locate directory = .ok l) (h : Enters t directory inner) :
    ∃ m, t.locate inner = .ok m ∧ Leads t l m := by
  obtain ⟨m, children, hm, hat⟩ := FileTree.locate_of_isDirectory h.2.2
  exact ⟨m, hm, directory, inner, children, hl, h.1.mem, hm, hat⟩

theorem exists_leads_of_reflTransGen (hl : t.locate directory = .ok l)
    (h : ReflTransGen (Enters t) directory inner) :
    ∃ m, t.locate inner = .ok m ∧ ReflTransGen (Leads t) l m := by
  induction h with
  | refl => exact ⟨l, hl, .refl⟩
  | tail _ h ih =>
    obtain ⟨m, hm, hleads⟩ := ih
    obtain ⟨k, hk, hnext⟩ := exists_leads_of_enters hm h
    exact ⟨k, hk, hleads.tail hnext⟩

theorem NeverLeadsBack.neverReenters (h : NeverLeadsBack t l) (hl : t.locate directory = .ok l) :
    NeverReenters t directory := by
  intro path inner place hpath hinner hplace hback
  obtain ⟨k, hk, hreach⟩ := exists_leads_of_reflTransGen hl hpath
  obtain rfl : place = k := Except.ok.inj (hplace.symm.trans hk)
  obtain ⟨next, hnext, hrest⟩ := TransGen.head'_iff.1 hinner
  obtain ⟨m, hm, hleads⟩ := exists_leads_of_enters hplace hnext
  obtain ⟨k, hk, hlast⟩ := exists_leads_of_reflTransGen hm hrest
  obtain rfl : place = k := Except.ok.inj (hback.symm.trans hk)
  exact h place hreach (.head' hleads hlast)

section LinkFree

open FileTree (follow)

def leadsOf (t : FileTree) (l : Location) : List Location :=
  (entriesAt t (l ++ [Manifest.fileName])).filterMap fun entry =>
    match follow t.root (if (Path.mk entry).isAbsolute then [] else l) (Text.pieces '/' entry) with
    | .found m => if (t.root.at? m).any Entry.isDirectory then some m else none
    | _ => none

theorem follow_fileName (h : follow t.root l [Manifest.fileName] = .found place) :
    place = l ++ [Manifest.fileName] := by
  rw [FileTree.follow.eq_def] at h
  have hname : ¬ (Manifest.fileName = "" ∨ Manifest.fileName = ".") ∧ Manifest.fileName ≠ ".."
      ∧ ¬ FileTree.nameLimit < Manifest.fileName.utf8ByteSize := by decide
  simp only [hname.1, hname.2.1, hname.2.2, if_false] at h
  split at h
  · cases h
  · exact (FileTree.Search.found.inj h).symm
  · exact (FileTree.Search.found.inj h).symm
  · cases h

theorem mem_leadsOf (hfree : t.root.isLinkFree) (h : Leads t l m) :
    l ∈ t.root.directories ∧ m ∈ leadsOf t l := by
  obtain ⟨directory, target, children, hl, htarget, hm, hat⟩ := h
  obtain ⟨place, entry, hplace, hentry, rfl, -⟩ := exists_entry_of_mem_entryTargets htarget
  have hfile : place = l ++ [Manifest.fileName] :=
    follow_fileName (FileTree.follow_of_locate_join hfree (by decide) hl hplace)
  rw [hfile] at hentry
  constructor
  · rw [entriesAt, Entry.at?_append] at hentry
    cases hl : t.root.at? l with
    | none => rw [hl] at hentry; cases hentry
    | some e =>
      cases e with
      | directory inside => exact Entry.mem_directories_of_at? hl
      | file _ => rw [hl] at hentry; cases hentry
      | link _ => rw [hl] at hentry; cases hentry
  · refine List.mem_filterMap.2 ⟨entry, hentry, ?_⟩
    have hfollow : follow t.root (if (Path.mk entry).isAbsolute then [] else l) (Text.pieces '/' entry)
        = .found m := by
      split
      · next habs =>
        rw [Path.join_of_isAbsolute habs] at hm
        have := (FileTree.follow_of_locate hfree hm).2
        rwa [FileTree.origin, if_pos habs] at this
      · next habs => exact FileTree.follow_of_locate_join hfree (by simpa using habs) hl hm
    rw [hfollow]
    simp [hat, Entry.isDirectory]

theorem neverLeadsBack_of_rank (hfree : t.root.isLinkFree) (rank : Location → Nat)
    (h : ∀ l ∈ t.root.directories, ∀ m ∈ leadsOf t l, rank m < rank l) (l : Location) :
    NeverLeadsBack t l := by
  have hless : ∀ {l m : Location}, TransGen (Leads t) l m → rank m < rank l := by
    intro l m hleads
    induction hleads with
    | single hleads =>
      obtain ⟨hl, hm⟩ := mem_leadsOf hfree hleads
      exact h _ hl _ hm
    | tail _ hleads ih =>
      obtain ⟨hl, hm⟩ := mem_leadsOf hfree hleads
      exact (h _ hl _ hm).trans ih
  exact fun m _ hcycle => Nat.lt_irrefl _ (hless hcycle)

end LinkFree

/-- The search in a directory ends exactly when it enters no directory twice under one path. With
relative entries it always does, if only since paths get too long. Where it enters no directory again by
any path, it ends within as many steps as the tree has directories; and so it is where no manifest leads
back to its directory. -/
theorem search_ends (t : FileTree) (directory : Path) :
    ((∃ found, FindsIn t directory found) ↔ NeverRepeats t directory)
      ∧ ((∀ entry ∈ manifestEntries t, (Path.mk entry).isAbsolute = false) → NeverRepeats t directory)
      ∧ (t.isDirectory directory → NeverReenters t directory →
          ∃ found, inDirectory? t (resolveWithin t t.root.directories.length) directory = some found)
      ∧ ∀ l, t.locate directory = .ok l → NeverLeadsBack t l → NeverReenters t directory :=
  ⟨exists_findsIn_iff, fun h => neverRepeats_of_relative h directory,
    fun hdirectory h => h.exists_inDirectory? hdirectory, fun _ hl h => h.neverReenters hl⟩

def passingOn : FileTree where
  top := [("app", .directory [("package.json", .file (.text "\x7b\"types\":\"../lib\"\x7d"))]),
    ("lib", .directory [("package.json", .file (.text "\x7b\"main\":\"./dist\"\x7d")),
      ("dist", .directory [("index.ts", .file (.text ""))])])]

def passingOnRank (l : Location) : Nat := if l = ["app"] then 2 else if l = ["lib"] then 1 else 0

theorem passingOn_ends :
    passingOn.isDirectory ⟨"/app"⟩ ∧ NeverLeadsBack passingOn ["app"]
      ∧ NeverReenters passingOn ⟨"/app"⟩
      ∧ (∃ found, inDirectory? passingOn (resolveWithin passingOn 4) ⟨"/app"⟩ = some found)
      ∧ FindsIn passingOn ⟨"/app"⟩ (some ⟨"/app/../lib/./dist/index.ts"⟩) := by
  have hdirectory : passingOn.isDirectory ⟨"/app"⟩ := by decide +kernel
  have hback : NeverLeadsBack passingOn ["app"] :=
    neverLeadsBack_of_rank (by decide) passingOnRank (by decide +kernel) ["app"]
  obtain ⟨-, -, hends, hreenters⟩ := search_ends passingOn ⟨"/app"⟩
  have hnever := hreenters ["app"] (by decide +kernel) hback
  exact ⟨hdirectory, hback, hnever, hends hdirectory hnever, 4, by decide +kernel⟩

def steppingAside : FileTree where
  top := [("d", .directory [("package.json", .file (.text "\x7b\"types\":\"s/..\"\x7d")),
    ("s", .directory [])])]

def namingEachOther : FileTree where
  top := [("a", .directory [("package.json", .file (.text "\x7b\"types\":\"/b\"\x7d"))]),
    ("b", .directory [("package.json", .file (.text "\x7b\"types\":\"/a\"\x7d"))])]

/-- A directory is entered from itself, and a search goes on for ever. -/
theorem steppingAside_reenters :
    ¬ NeverReenters steppingAside ⟨"/d"⟩ ∧ ∀ found, ¬ FindsIn namingEachOther ⟨"/a"⟩ found := by
  constructor
  · intro h
    have hinner : Enters steppingAside ⟨"/d"⟩ ⟨"/d/s/.."⟩ :=
      ⟨⟨[], [], by decide +kernel, by simp⟩, by decide +kernel, by decide +kernel⟩
    exact h ⟨"/d"⟩ ⟨"/d/s/.."⟩ ["d"] .refl (.single hinner) (by decide +kernel) (by decide +kernel)
  · intro found hfound
    have hb : Enters namingEachOther ⟨"/a"⟩ ⟨"/b"⟩ :=
      ⟨⟨[], [], by decide +kernel, by simp⟩, by decide +kernel, by decide +kernel⟩
    have ha : Enters namingEachOther ⟨"/b"⟩ ⟨"/a"⟩ :=
      ⟨⟨[], [], by decide +kernel, by simp⟩, by decide +kernel, by decide +kernel⟩
    exact exists_findsIn_iff.1 ⟨found, hfound⟩ ⟨"/a"⟩ .refl (.head hb (.single ha))

end CallDiagram.ModuleFinder
