import CallDiagram.Proofs.Failure
import CallDiagram.Settings.Load

namespace CallDiagram.Settings

def Reads (t : FileTree) (path : Path) (own : Settings) : Prop :=
  ∃ text, t.readText path = .ok text ∧ parse text = some own

def followed (t : FileTree) (path : Path) (own : Settings) : List Path :=
  (own.bases.elim [] Bases.toList).filterMap (basePath? t (directoryOf path))

def isBeside (path base : Path) : Bool :=
  (base.parent.map (·.sameAs (directoryOf path))).getD false

def ownUrl? (path : Path) (own : Settings) : Option String :=
  own.baseUrl.map fun url => ((directoryOf path).join url).text

def alone (path : Path) (own : Settings) : Settings :=
  { own with bases := none, baseUrl := ownUrl? path own }

def paths? (own : Settings) : Option (List (String × List String)) :=
  if own.paths.isEmpty then none else some own.paths

attribute [ext] Settings

variable {t : FileTree} {path : Path} {own own' s : Settings} {n : Nat}

theorem Reads.unique (h : Reads t path own) (h' : Reads t path own') : own = own' := by
  obtain ⟨text, htext, hparse⟩ := h
  obtain ⟨text', htext', hparse'⟩ := h'
  obtain rfl : text = text' := Except.ok.inj (htext.symm.trans htext')
  exact Option.some.inj (hparse.symm.trans hparse')

theorem paths?_eq_some {paths : List (String × List String)} (h : paths? own = some paths) :
    paths ≠ [] := by
  rw [paths?] at h
  split at h
  · cases h
  · next hne =>
    cases h
    simpa using hne

theorem paths_eq_getD (own : Settings) : own.paths = (paths? own).getD [] := by
  rw [paths?]
  split
  · next hempty => exact List.isEmpty_iff.1 hempty
  · rfl

theorem ofFile_eq_ok :
    ofFile t path = .ok s ↔ ∃ own, Reads t path own ∧ s = { own with baseUrl := ownUrl? path own } := by
  rw [ofFile, bind_eq_ok]
  constructor
  · rintro ⟨text, htext, h⟩
    cases hparse : parse text with
    | none => rw [hparse] at h; cases h
    | some own =>
      rw [hparse] at h
      cases h
      exact ⟨own, ⟨text, mapError_eq_ok.1 htext, hparse⟩, rfl⟩
  · rintro ⟨own, ⟨text, htext, hparse⟩, rfl⟩
    refine ⟨text, mapError_eq_ok.2 htext, ?_⟩
    rw [hparse]
    rfl

theorem loadWithin_succ_eq_ok :
    loadWithin t (n + 1) path = .ok s ↔
      ∃ own, Reads t path own ∧ ∃ bases : List (Path × Settings),
        bases.map Prod.fst = followed t path own
        ∧ (∀ base ∈ bases, loadWithin t n base.1 = .ok base.2)
        ∧ s = bases.foldl (fun s base => s.inherit base.2 (isBeside path base.1))
            (alone path own) := by
  rw [loadWithin, bind_eq_ok]
  simp only [ofFile_eq_ok]
  constructor
  · rintro ⟨_, ⟨own, hown, rfl⟩, h⟩
    refine ⟨own, hown, ?_⟩
    cases hbases : own.bases with
    | none =>
      simp only [hbases] at h
      cases h
      exact ⟨[], by simp [followed, hbases], by simp, rfl⟩
    | some bases =>
      simp only [hbases] at h
      obtain ⟨given, hfst, hgiven, rfl⟩ := foldlM_eq_ok.1 h
      exact ⟨given, by rw [hfst, followed, hbases]; rfl, hgiven, rfl⟩
  · rintro ⟨own, hown, bases, hfst, hbases, rfl⟩
    refine ⟨_, ⟨own, hown, rfl⟩, ?_⟩
    cases hentry : own.bases with
    | none =>
      simp only [hentry, followed, Option.elim, List.filterMap_nil, List.map_eq_nil_iff] at hfst
      rw [hfst]
      rfl
    | some entries =>
      refine foldlM_eq_ok.2 ⟨bases, ?_, hbases, rfl⟩
      rw [hfst, followed, hentry]
      rfl

section Inherit

variable (s base : Settings) (beside : Bool)

theorem files_inherit :
    (s.inherit base beside).files = s.files.or (if beside then base.files else none) := by
  cases beside <;> simp [inherit]

theorem included_inherit :
    (s.inherit base beside).included = s.included.or (if beside then base.included else none) := by
  cases beside <;> simp [inherit]

theorem excluded_inherit :
    (s.inherit base beside).excluded = s.excluded.or (if beside then base.excluded else none) := by
  cases beside <;> simp [inherit]

theorem baseUrl_inherit : (s.inherit base beside).baseUrl = s.baseUrl.or base.baseUrl := by
  cases beside <;> rfl

theorem paths?_inherit : paths? (s.inherit base beside) = (paths? s).or (paths? base) := by
  have hpaths : (s.inherit base beside).paths = if s.paths.isEmpty then base.paths else s.paths := by
    cases beside <;> rfl
  by_cases h : s.paths.isEmpty <;> simp [paths?, hpaths, h]

theorem bases_foldl_inherit (path : Path) (given : List (Path × Settings)) :
    (given.foldl (fun s base => s.inherit base.2 (isBeside path base.1)) s).bases = s.bases := by
  induction given generalizing s with
  | nil => rfl
  | cons base given ih =>
    rw [List.foldl_cons, ih, inherit]
    split <;> rfl

variable {α : Type} {get : Settings → Option α} {shares : Bool → Bool}

theorem get_foldl_inherit
    (hget : ∀ s base beside,
      get (inherit s base beside) = (get s).or (if shares beside then get base else none))
    (bases : List (Path × Settings)) :
    get (bases.foldl (fun s base => s.inherit base.2 (isBeside path base.1)) s)
      = (get s).or
          ((bases.filter fun base => shares (isBeside path base.1)).findSome? fun base => get base.2) := by
  induction bases generalizing s with
  | nil => simp
  | cons base bases ih =>
    rw [List.foldl_cons, ih, hget, Option.or_assoc, List.filter_cons]
    split
    · rw [List.findSome?_cons]
      cases get base.2 <;> simp
    · rw [Option.none_or]

end Inherit

end CallDiagram.Settings
