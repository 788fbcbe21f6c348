import CallDiagram.Proofs.FileTree.Walk
import CallDiagram.Proofs.Module.Attempt
import Mathlib.Data.Finset.Card
import Mathlib.Logic.Relation

/-!
When searches for a file come to an end. An entry of a manifest either makes the path of the directory
longer, which the limit on paths stops, or is an absolute path of its own. So a search goes on for ever
only where it enters a directory twice under one path, and every other one has a bound on its steps.
-/

namespace CallDiagram

namespace ModuleFinder

open Relation

variable {t : FileTree} {directory inner target base : Path} {found : Option Path} {place : Location}
  {entry : String} {n : Nat}

def entriesAt (t : FileTree) (place : Location) : List String :=
  match t.root.at? place with
  | some (.file (.text s)) =>
    (((Data.Json.read s).bind Manifest.ofValue?).map Manifest.entryPoints).getD []
  | _ => []

def manifestEntries (t : FileTree) : List String :=
  (t.root.files fun _ => false).flatMap (entriesAt t)

theorem exists_entry_of_mem_entryTargets (h : target ∈ entryTargets t directory) :
    ∃ place entry, t.locate (directory.join Manifest.fileName) = .ok place ∧ entry ∈ entriesAt t place
      ∧ directory.join entry = target ∧ target.sameAs directory = false := by
  obtain ⟨htarget, hskip⟩ := List.mem_filter.1 h
  obtain ⟨entry, hentry, rfl⟩ := List.mem_map.1 htarget
  rw [Manifest.read?] at hentry
  cases htext : t.readText (directory.join Manifest.fileName) with
  | error _ => rw [htext] at hentry; cases hentry
  | ok text =>
    obtain ⟨place, hplace, hat⟩ := FileTree.file_of_readText htext
    rw [htext] at hentry
    refine ⟨place, entry, hplace, ?_, rfl, by simpa using hskip⟩
    rw [entriesAt, hat]
    exact hentry

theorem length_entriesAt_le (t : FileTree) (place : Location) : (entriesAt t place).length ≤ 3 := by
  rw [entriesAt]
  split
  · next s _ =>
    cases (Data.Json.read s).bind Manifest.ofValue? with
    | none => simp
    | some m => exact List.length_filterMap_le id [m.types, m.typings, m.main]
  · simp

theorem length_manifestEntries_le (t : FileTree) :
    (manifestEntries t).length ≤ 3 * (t.root.files fun _ => false).length := by
  rw [manifestEntries]
  induction t.root.files fun _ => false with
  | nil => simp
  | cons place places ih =>
    have hplace := length_entriesAt_le t place
    simp only [List.flatMap_cons, List.length_append, List.length_cons]
    omega

theorem mem_manifestEntries (h : entry ∈ entriesAt t place) : entry ∈ manifestEntries t := by
  refine List.mem_flatMap.2 ⟨place, ?_, h⟩
  rw [entriesAt] at h
  split at h
  · next s hat => exact Entry.mem_files_of_at? hat fun _ _ => rfl
  · cases h

/-- No directory is entered twice under one path, however the search goes on. -/
def NeverRepeats (t : FileTree) (directory : Path) : Prop :=
  ∀ path, ReflTransGen (Enters t) directory path → ¬ TransGen (Enters t) path path

theorem NeverRepeats.enters (h : NeverRepeats t directory) (hinner : Enters t directory inner) :
    NeverRepeats t inner :=
  fun path hpath => h path (hpath.head hinner)

theorem Tries.mem (h : Tries t directory target) : target ∈ entryTargets t directory := by
  obtain ⟨before, after, heq, -⟩ := h
  rw [heq]
  simp

theorem Enters.absolute_or_longer (h : Enters t directory inner) :
    (∃ entry ∈ manifestEntries t, (Path.mk entry).isAbsolute ∧ inner = ⟨entry⟩)
      ∨ directory.text.utf8ByteSize < inner.text.utf8ByteSize := by
  obtain ⟨place, entry, -, hentry, rfl, hskip⟩ := exists_entry_of_mem_entryTargets h.1.mem
  by_cases habs : (Path.mk entry).isAbsolute
  · exact .inl ⟨entry, mem_manifestEntries hentry, habs, Path.join_of_isAbsolute habs⟩
  · refine .inr (Path.length_lt_join (by simpa using habs) fun heq => ?_)
    rw [heq, Path.sameAs, beq_self_eq_true] at hskip
    cases hskip

section Bound

open Classical in
/-- How much room is left for a search: the absolute entries that it can still come to, and the length
that its paths can still gain before the next of them. -/
noncomputable def room (t : FileTree) (directory : Path) : Nat :=
  ((manifestEntries t).toFinset.filter fun entry => TransGen (Enters t) directory ⟨entry⟩).card
      * (FileTree.pathLimit + 1)
    + (FileTree.pathLimit - directory.text.utf8ByteSize)

theorem room_lt (h : NeverRepeats t directory) (hinner : Enters t directory inner) :
    room t inner < room t directory := by
  classical
  have hsub : ((manifestEntries t).toFinset.filter fun e => TransGen (Enters t) inner ⟨e⟩)
      ⊆ (manifestEntries t).toFinset.filter fun e => TransGen (Enters t) directory ⟨e⟩ :=
    Finset.monotone_filter_right _ fun e _ he => he.head hinner
  rw [room, room]
  rcases hinner.absolute_or_longer with ⟨entry, hentry, -, rfl⟩ | hlonger
  · -- The absolute entry itself is one that the search cannot come to again.
    have hlt : ((manifestEntries t).toFinset.filter fun e => TransGen (Enters t) ⟨entry⟩ ⟨e⟩).card
        < ((manifestEntries t).toFinset.filter fun e => TransGen (Enters t) directory ⟨e⟩).card := by
      refine Finset.card_lt_card ((Finset.ssubset_iff_of_subset hsub).2 ⟨entry, ?_, ?_⟩)
      · exact Finset.mem_filter.2 ⟨List.mem_toFinset.2 hentry, .single hinner⟩
      · exact fun hmem => h _ (.single hinner) (Finset.mem_filter.1 hmem).2
    have hmul := Nat.mul_le_mul_right (FileTree.pathLimit + 1) (Nat.succ_le_of_lt hlt)
    rw [Nat.succ_mul] at hmul
    omega
  · have hshort := FileTree.length_lt_of_isDirectory hinner.2.2
    have hmul := Nat.mul_le_mul_right (FileTree.pathLimit + 1) (Finset.card_le_card hsub)
    omega

theorem room_add_one_lt (t : FileTree) (directory : Path) : room t directory + 1 < manifestLimit t := by
  classical
  have hcard : ((manifestEntries t).toFinset.filter fun e =>
      TransGen (Enters t) directory ⟨e⟩).card ≤ 3 * (t.root.files fun _ => false).length :=
    (Finset.card_filter_le _ _).trans
      ((List.toFinset_card_le _).trans (length_manifestEntries_le t))
  have hmul := Nat.mul_le_mul_right (FileTree.pathLimit + 1) hcard
  rw [room, manifestLimit, Nat.succ_mul]
  omega

theorem exists_inDirectory?_of_room (h : NeverRepeats t directory) (hn : room t directory < n) :
    ∃ found, inDirectory? t (resolveWithin t n) directory = some found :=
  exists_inDirectory?_of_weight (room t)
    (fun _ _ hrepeats hinner => ⟨hrepeats.enters hinner, room_lt hrepeats hinner⟩) h hn

end Bound

theorem not_transGen_of_inDirectory? (h : inDirectory? t (resolveWithin t n) directory = some found) :
    ¬ TransGen (Enters t) directory directory := by
  induction n using Nat.strong_induction_on generalizing directory found with
  | h n ih =>
    intro hcycle
    obtain ⟨inner, hinner, hback⟩ := TransGen.head'_iff.1 hcycle
    obtain ⟨m, hm, found', hfound⟩ := exists_inDirectory?_of_enters h hinner
    exact ih m hm hfound (.tail' hback hinner)

theorem exists_findsIn_iff : (∃ found, FindsIn t directory found) ↔ NeverRepeats t directory := by
  constructor
  · rintro ⟨found, n, hn⟩ path hpath
    have hends : ∃ n found, inDirectory? t (resolveWithin t n) path = some found := by
      induction hpath with
      | refl => exact ⟨n, found, hn⟩
      | tail _ henters ih =>
        obtain ⟨n, found, hn⟩ := ih
        obtain ⟨m, -, found', hm⟩ := exists_inDirectory?_of_enters hn henters
        exact ⟨m, found', hm⟩
    obtain ⟨n, found, hn⟩ := hends
    exact not_transGen_of_inDirectory? hn
  · intro h
    obtain ⟨found, hfound⟩ := exists_inDirectory?_of_room h (Nat.lt_succ_self _)
    exact ⟨found, _, hfound⟩

theorem inDirectory?_of_findsIn (h : FindsIn t directory found) :
    inDirectory? t (resolveWithin t (manifestLimit t)) directory = some found := by
  have hrepeats := exists_findsIn_iff.1 ⟨found, h⟩
  have hroom : room t directory < manifestLimit t := (Nat.lt_succ_self _).trans (room_add_one_lt t directory)
  obtain ⟨found', hfound⟩ := exists_inDirectory?_of_room hrepeats hroom
  obtain rfl : found = found' := h.unique ⟨_, hfound⟩
  exact hfound

theorem resolveDirectory?_of_findsIn (h : FindsIn t directory found) :
    resolveDirectory? t directory = found := by
  rw [resolveDirectory?, inDirectory?_of_findsIn h]
  rfl

theorem resolveWithin_of_finds (h : Finds t base found) :
    resolveWithin t (manifestLimit t) base = some found := by
  obtain ⟨n, hn⟩ : ∃ n, manifestLimit t = n + 1 := ⟨_, rfl⟩
  have hends : ∃ found, resolveWithin t (manifestLimit t) base = some found := by
    rw [hn]
    by_cases hopens : Opens t base
    · have hroom : room t base < n := by
        have := room_add_one_lt t base
        omega
      rw [resolveWithin_of_opens hopens]
      exact exists_inDirectory?_of_room (exists_findsIn_iff.1 ⟨found, (finds_iff_of_opens hopens).1 h⟩) hroom
    · exact ⟨_, resolveWithin_of_not_opens hopens⟩
  obtain ⟨found', hfound⟩ := hends
  obtain rfl : found = found' := h.unique ⟨_, hfound⟩
  exact hfound

theorem resolveFile?_of_finds (h : Finds t base found) : resolveFile? t base = found := by
  rw [resolveFile?, resolveWithin_of_finds h]
  rfl

end ModuleFinder

end CallDiagram
