import CallDiagram.Proofs.Settings.Read
import Mathlib.Data.Set.Defs

namespace CallDiagram.Settings

inductive Chain (t : FileTree) : Nat → Path → Path → Prop
  | nil {path : Path} : Chain t 0 path path
  | cons {n : Nat} {path base last : Path} {own : Settings} : Reads t path own →
      base ∈ followed t path own → Chain t n base last → Chain t (n + 1) path last

/-- Whether each of some files extends another of them, as far as it can be read. A cycle is so, even
where every round writes the paths of its files anew. -/
def IsEndless (t : FileTree) (files : Set Path) : Prop :=
  ∀ path ∈ files, ∀ own, Reads t path own → ∃ base ∈ followed t path own, base ∈ files

variable {t : FileTree} {path base last : Path} {own : Settings} {m n : Nat} {files : Set Path}

theorem Chain.append (h : Chain t m path base) (h' : Chain t n base last) :
    Chain t (m + n) path last := by
  induction h with
  | nil => rwa [Nat.zero_add]
  | cons hown hbase _ ih =>
    rw [Nat.add_right_comm]
    exact .cons hown hbase (ih h')

theorem Chain.concat (h : Chain t n path last) (hown : Reads t last own)
    (hbase : base ∈ followed t last own) : Chain t (n + 1) path base :=
  h.append (.cons hown hbase .nil)

theorem Chain.split (h : Chain t (m + n) path last) : ∃ base, Chain t m path base := by
  induction m generalizing path with
  | zero => exact ⟨path, .nil⟩
  | succ m ih =>
    rw [Nat.add_right_comm] at h
    cases h with
    | cons hown hnext hchain =>
      obtain ⟨base, hbase⟩ := ih hchain
      exact ⟨base, .cons hown hnext hbase⟩

theorem exists_loadWithin_succ :
    (∃ s, loadWithin t (n + 1) path = .ok s) ↔
      ∃ own, Reads t path own ∧ ∀ base ∈ followed t path own, ∃ s, loadWithin t n base = .ok s := by
  simp only [loadWithin_succ_eq_ok]
  constructor
  · rintro ⟨_, own, hown, given, hpaths, hgiven, -⟩
    refine ⟨own, hown, fun base hbase => ?_⟩
    rw [← hpaths] at hbase
    obtain ⟨p, hp, rfl⟩ := List.mem_map.1 hbase
    exact ⟨p.2, hgiven p hp⟩
  · rintro ⟨own, hown, hbases⟩
    obtain ⟨given, hpaths, hgiven⟩ := exists_given hbases
    exact ⟨_, own, hown, given, hpaths, hgiven, rfl⟩

theorem exists_loadWithin_iff :
    (∃ s, loadWithin t n path = .ok s) ↔
      (∀ k < n, ∀ file, Chain t k path file → ∃ own, Reads t file own)
        ∧ ∀ file, ¬ Chain t n path file := by
  induction n generalizing path with
  | zero =>
    constructor
    · rintro ⟨s, hs⟩
      cases hs
    · exact fun h => absurd .nil (h.2 path)
  | succ n ih =>
    rw [exists_loadWithin_succ]
    simp only [ih]
    constructor
    · rintro ⟨own, hown, hbases⟩
      refine ⟨?_, ?_⟩
      · rintro k hk file (_ | ⟨hown', hbase, hchain⟩)
        · exact ⟨own, hown⟩
        · obtain rfl := hown.unique hown'
          exact (hbases _ hbase).1 _ (Nat.lt_of_succ_lt_succ hk) file hchain
      · rintro file (_ | ⟨hown', hbase, hchain⟩)
        obtain rfl := hown.unique hown'
        exact (hbases _ hbase).2 file hchain
    · rintro ⟨hreads, hend⟩
      obtain ⟨own, hown⟩ := hreads 0 n.succ_pos path .nil
      refine ⟨own, hown, fun base hbase => ⟨fun k hk file hchain => ?_, fun file hchain => ?_⟩⟩
      · exact hreads (k + 1) (Nat.succ_lt_succ hk) file (.cons hown hbase hchain)
      · exact hend file (.cons hown hbase hchain)

theorem exists_error_iff : (∃ e, load t path = .error e) ↔ ¬ ∃ s, load t path = .ok s := by
  cases load t path with
  | error e => simp
  | ok s => simp

theorem IsEndless.exists_chain (h : IsEndless t files) (hbase : base ∈ files) (hm : Chain t m path base)
    (hreads : ∀ k < m + n, ∀ file, Chain t k path file → ∃ own, Reads t file own) :
    ∃ file ∈ files, Chain t (m + n) path file := by
  induction n with
  | zero => exact ⟨base, hbase, hm⟩
  | succ n ih =>
    obtain ⟨file, hfile, hchain⟩ := ih fun k hk => hreads k (Nat.lt_succ_of_lt hk)
    obtain ⟨own, hown⟩ := hreads (m + n) (Nat.lt_succ_self _) file hchain
    obtain ⟨next, hnext, hmem⟩ := h file hfile own hown
    exact ⟨next, hmem, hchain.concat hown hnext⟩

theorem IsEndless.load_error (h : IsEndless t files) (hbase : base ∈ files)
    (hm : Chain t m path base) : ∃ e, load t path = .error e := by
  rw [exists_error_iff, load, exists_loadWithin_iff]
  rintro ⟨hreads, hend⟩
  rcases Nat.le_total m (extendsLimit + 1) with hshort | hlong
  · obtain ⟨n, hn⟩ := Nat.exists_eq_add_of_le hshort
    rw [hn] at hreads hend
    obtain ⟨file, -, hchain⟩ := h.exists_chain hbase hm hreads
    exact hend file hchain
  · obtain ⟨n, rfl⟩ := Nat.exists_eq_add_of_le hlong
    obtain ⟨file, hchain⟩ := hm.split
    exact hend file hchain

theorem isEndless_of_cycle (h : Chain t (n + 1) path path) :
    IsEndless t {file | ∃ k, Chain t (k + 1) file path} := by
  rintro file ⟨k, hchain⟩ own hown
  cases hchain with
  | @cons _ _ next _ own' hown' hnext hchain =>
    obtain rfl := hown.unique hown'
    refine ⟨next, hnext, ?_⟩
    cases k with
    | zero => cases hchain; exact ⟨n, h⟩
    | succ k => exact ⟨k, hchain⟩

/-- Settings can be read exactly when all files that at most 16 entries in a row lead to can be read and
there are no 17 entries in a row. So every cycle ends in a failure, and files without a longer chain than
that are accepted. -/
theorem exists_load_iff (t : FileTree) (path : Path) :
    ((∃ s, load t path = .ok s) ↔
        (∀ n ≤ 16, ∀ file, Chain t n path file → ∃ own, Reads t file own)
          ∧ ∀ file, ¬ Chain t 17 path file)
      ∧ (∀ m n file, Chain t m path file → Chain t (n + 1) file file → ∃ e, load t path = .error e)
      ∧ (∀ files, IsEndless t files → ∀ n, ∀ file ∈ files, Chain t n path file →
          ∃ e, load t path = .error e)
      ∧ ((∀ n file, Chain t n path file → n ≤ 16 ∧ ∃ own, Reads t file own) →
          ∃ s, load t path = .ok s) := by
  have hiff : (∃ s, load t path = .ok s) ↔
      (∀ n ≤ 16, ∀ file, Chain t n path file → ∃ own, Reads t file own)
        ∧ ∀ file, ¬ Chain t 17 path file := by
    rw [load, exists_loadWithin_iff]
    simp only [extendsLimit, Nat.lt_succ_iff]
  refine ⟨hiff, ?_, ?_, ?_⟩
  · intro m n file hm hcycle
    exact (isEndless_of_cycle hcycle).load_error ⟨n, hcycle⟩ hm
  · intro files hfiles n file hfile hchain
    exact hfiles.load_error hfile hchain
  · intro hall
    refine hiff.2 ⟨fun n _ file hchain => (hall n file hchain).2, fun file hchain => ?_⟩
    have hle := (hall 17 file hchain).1
    omega

def extendingItself : FileTree where
  top := [("a.json", .file (.text "\x7b\"extends\":\"./a.json\"\x7d"))]

example : (load extendingItself ⟨"/a.json"⟩).toOption = none := by decide +kernel

end CallDiagram.Settings
