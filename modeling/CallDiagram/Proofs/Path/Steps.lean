import CallDiagram.Proofs.Path.Relative
import Mathlib.Data.List.Basic
import Mathlib.Data.List.Induction

namespace CallDiagram.Path

def IsStraight (p : Path) : Prop := p.isAbsolute ∧ .up ∉ p.components

instance (p : Path) : Decidable p.IsStraight := inferInstanceAs (Decidable (_ ∧ _))

def stepsOf (way : String) : List String := if way = "" then [] else Text.pieces '/' way

def step? (place : List Component) (step : String) : Option (List Component) :=
  if step = ".." then
    match place.getLast? with
    | some (.name _) => some place.dropLast
    | _ => none
  else some (place ++ [.name step])

section Straight

variable {p : Path}

theorem anchor_of_isAbsolute (h : p.isAbsolute) : anchor p.text.toList = ['/'] := by
  obtain ⟨cs, hcs⟩ := List.head?_eq_some_iff.1 (beq_iff_eq.1 h)
  rw [hcs]
  rfl

theorem components_of_isAbsolute (h : p.isAbsolute) :
    p.components = .root :: ((body p.text.toList).filter (! isIdle ·)).map pieceComponent := by
  simp only [components, anchor_of_isAbsolute h, List.singleton_append]

theorem isName_of_piece {piece : List Char} (hidle : isIdle piece = false) (hup : piece ≠ ['.', '.'])
    (hslash : '/' ∉ piece) : Entry.isName (String.ofList piece) := by
  have hne : ∀ text : String, piece ≠ text.toList → String.ofList piece ≠ text := by
    rintro text hpiece rfl
    exact hpiece String.toList_ofList.symm
  have hempty : piece ≠ [] := by rintro rfl; cases hidle
  have hhere : piece ≠ ['.'] := by rintro rfl; cases hidle
  simp only [Entry.isName, Bool.and_eq_true, decide_eq_true_eq, Bool.not_eq_true']
  exact ⟨⟨⟨hne "" hempty, hne "." hhere⟩, hne ".." hup⟩, by simpa using hslash⟩

theorem IsStraight.exists_names (h : p.IsStraight) :
    ∃ l : Location, (∀ name ∈ l, Entry.isName name) ∧ p.components = .root :: l.map .name := by
  obtain ⟨habs, hup⟩ := h
  have hcomponents := components_of_isAbsolute habs
  have hne : ∀ piece ∈ (body p.text.toList).filter (! isIdle ·), piece ≠ ['.', '.'] := by
    rintro _ hpiece rfl
    refine hup ?_
    rw [hcomponents]
    exact List.mem_cons_of_mem _ (List.mem_map.2 ⟨_, hpiece, rfl⟩)
  refine ⟨((body p.text.toList).filter (! isIdle ·)).map String.ofList, ?_, ?_⟩
  · intro name hname
    obtain ⟨piece, hpiece, rfl⟩ := List.mem_map.1 hname
    obtain ⟨hmem, hidle⟩ := List.mem_filter.1 hpiece
    exact isName_of_piece (by simpa using hidle) (hne piece hpiece) (Text.not_mem_of_mem_cut hmem)
  · rw [hcomponents, List.map_map]
    congr 1
    exact List.map_congr_left fun piece hpiece => if_neg (hne piece hpiece)

end Straight

section Steps

variable {l m rest : Location} {place goal : List Component} {steps : List String} {step : String}

theorem step?_up (l : Location) (name : String) :
    step? (.root :: (l ++ [name]).map .name) ".." = some (.root :: l.map .name) := by
  rw [step?, if_pos rfl, List.map_append, ← List.cons_append, List.map_singleton, List.getLast?_concat,
    List.dropLast_concat]

theorem step?_down (h : step ≠ "..") : step? place step = some (place ++ [.name step]) := if_neg h

theorem foldlM_up (l rest : Location) :
    (List.replicate rest.length "..").foldlM step? (.root :: (l ++ rest).map .name)
      = some (.root :: l.map .name) := by
  induction rest using List.reverseRecOn with
  | nil => rw [List.append_nil]; rfl
  | append_singleton rest name ih =>
    rw [List.length_append, List.length_singleton, List.replicate_succ, List.foldlM_cons,
      ← List.append_assoc, step?_up]
    exact ih

theorem foldlM_down (place : List Component) (hrest : ".." ∉ rest) :
    rest.foldlM step? place = some (place ++ rest.map .name) := by
  induction rest generalizing place with
  | nil => rw [List.map_nil, List.append_nil]; rfl
  | cons name rest ih =>
    obtain ⟨hname, hrest⟩ := List.ne_and_not_mem_of_not_mem_cons hrest
    rw [List.foldlM_cons, step?_down (Ne.symm hname)]
    refine (ih _ hrest).trans ?_
    rw [List.map_cons, List.append_assoc, List.singleton_append]

theorem foldlM_relativeParts (hm : ".." ∉ m) :
    (relativeParts (l.map .name) (m.map .name)).foldlM step? (.root :: l.map .name)
      = some (.root :: m.map .name) := by
  have htake := take_sharedLength (l.map .name) (m.map .name)
  rw [relativeParts, List.foldlM_append]
  generalize sharedLength (l.map .name) (m.map .name) = k at htake
  have hup := foldlM_up (l.take k) (l.drop k)
  rw [List.take_append_drop, List.length_drop] at hup
  rw [List.length_map, hup, Option.bind_eq_bind, Option.bind_some, ← List.map_drop, map_text_name,
    foldlM_down _ fun hup => hm (List.mem_of_mem_drop hup)]
  rw [← List.map_take, ← List.map_take] at htake
  rw [List.cons_append, ← htake, ← List.map_append, List.take_append_drop]

end Steps

section Shortest

variable {source target place goal : List Component} {component : Component} {steps : List String}
  {step : String}

theorem sharedLength_le_target (source target : List Component) :
    sharedLength source target ≤ target.length := by
  have htake := congrArg List.length (take_sharedLength source target)
  rw [List.length_take, List.length_take, Nat.min_eq_left (sharedLength_le source target)] at htake
  omega

theorem sharedLength_self (source : List Component) : sharedLength source source = source.length := by
  have h := sharedLength_append source []
  rwa [List.append_nil] at h

theorem sharedLength_concat (source target : List Component) (component : Component) :
    sharedLength source target ≤ sharedLength (source ++ [component]) target
      ∧ sharedLength (source ++ [component]) target ≤ sharedLength source target + 1 := by
  induction source generalizing target with
  | nil =>
    have hle := sharedLength_le ([] ++ [component]) target
    exact ⟨by simp [sharedLength], by simpa [sharedLength] using hle⟩
  | cons a source ih =>
    cases target with
    | nil => simp [sharedLength]
    | cons b target =>
      rw [List.cons_append, sharedLength, sharedLength]
      split
      · exact ⟨Nat.succ_le_succ (ih target).1, Nat.succ_le_succ (ih target).2⟩
      · exact ⟨Nat.le_refl 0, Nat.zero_le 1⟩

theorem length_relativeParts (source target : List Component) :
    (relativeParts source target).length + 2 * sharedLength source target
      = source.length + target.length := by
  have hle := sharedLength_le source target
  have hle' := sharedLength_le_target source target
  rw [relativeParts, List.length_append, List.length_replicate, List.length_map, List.length_drop]
  omega

theorem length_relativeParts_step (h : step? place step = some goal) (target : List Component) :
    (relativeParts place target).length ≤ (relativeParts goal target).length + 1 := by
  have hplace := length_relativeParts place target
  have hgoal := length_relativeParts goal target
  rw [step?] at h
  split at h
  · split at h
    · next name hlast =>
      cases h
      have hconcat := sharedLength_concat place.dropLast target (.name name)
      rw [List.dropLast_append_getLast? _ hlast] at hconcat
      rw [List.length_dropLast] at hgoal
      omega
    · cases h
  · cases h
    have hconcat := sharedLength_concat place target (.name step)
    rw [List.length_append, List.length_singleton] at hgoal
    omega

theorem length_relativeParts_le (h : steps.foldlM step? source = some target) :
    (relativeParts source target).length ≤ steps.length := by
  induction steps generalizing source with
  | nil =>
    obtain rfl : source = target := Option.some.inj h
    have hlength := length_relativeParts source source
    rw [sharedLength_self] at hlength
    exact Nat.le_of_eq (by rw [List.length_nil]; omega)
  | cons step steps ih =>
    obtain ⟨place, hstep, hrest⟩ := Option.bind_eq_some_iff.1 h
    exact Nat.le_trans (length_relativeParts_step hstep target) (Nat.succ_le_succ (ih hrest))

end Shortest

variable {source target : Path}

theorem stepsOf_unpieces {parts : List String} (h : ∀ part ∈ parts, part ≠ "" ∧ '/' ∉ part.toList) :
    stepsOf (Text.unpieces '/' parts) = parts := by
  by_cases hnil : parts = []
  · rw [hnil]
    rfl
  · have hpieces := Text.pieces_unpieces hnil fun part hpart => (h part hpart).2
    rw [stepsOf, if_neg, hpieces]
    intro hblank
    rw [hblank] at hpieces
    exact (h "" (hpieces ▸ List.mem_singleton_self "")).1 rfl

theorem stepsOf_relative (hsource : source.IsStraight) (htarget : target.IsStraight) :
    stepsOf (relative source target) = relativeParts source.components target.components := by
  obtain ⟨l, -, hl⟩ := hsource.exists_names
  obtain ⟨m, hnames, hm⟩ := htarget.exists_names
  rw [relative, hl, hm, relativeParts_root]
  exact stepsOf_unpieces fun part => isPiece_of_mem_relativeParts hnames

theorem foldlM_relative (hsource : source.IsStraight) (htarget : target.IsStraight) :
    (stepsOf (relative source target)).foldlM step? source.components = some target.components := by
  obtain ⟨l, -, hl⟩ := hsource.exists_names
  obtain ⟨m, hnames, hm⟩ := htarget.exists_names
  rw [stepsOf_relative hsource htarget, hl, hm, relativeParts_root]
  exact foldlM_relativeParts (up_not_mem hnames)

/-- The way from a directory to a path leads there step by step and never leaves the root. No other steps
that lead there are fewer, and the ways to two paths are the same only if their components are. -/
theorem relative_leads_shortest (hsource : source.IsStraight) (htarget : target.IsStraight) :
    (stepsOf (relative source target)).foldlM step? source.components = some target.components
      ∧ (∀ steps : List String, steps.foldlM step? source.components = some target.components →
          (stepsOf (relative source target)).length ≤ steps.length)
      ∧ ∀ other : Path, other.IsStraight →
          (relative source other = relative source target ↔ other.components = target.components) := by
  refine ⟨foldlM_relative hsource htarget, fun steps hsteps => ?_,
    fun other hother => ⟨fun heq => ?_, fun heq => ?_⟩⟩
  · rw [stepsOf_relative hsource htarget]
    exact length_relativeParts_le hsteps
  · have hleads := foldlM_relative hsource hother
    rw [heq, foldlM_relative hsource htarget] at hleads
    exact (Option.some.inj hleads).symm
  · rw [relative, relative, heq]

theorem relative_leads_up :
    (Path.mk "/proj//src/.").IsStraight ∧ (Path.mk "/proj/lib/a.ts").IsStraight
      ∧ stepsOf (relative ⟨"/proj//src/."⟩ ⟨"/proj/lib/a.ts"⟩) = ["..", "lib", "a.ts"]
      ∧ ["..", "lib", "a.ts"].foldlM step? (Path.mk "/proj/src").components
          = some (Path.mk "/proj/lib/a.ts").components
      ∧ ∀ steps : List String,
          steps.foldlM step? (Path.mk "/proj/src").components = some (Path.mk "/proj/lib/a.ts").components →
            3 ≤ steps.length := by
  have hsource : (Path.mk "/proj//src/.").IsStraight := by decide +kernel
  have htarget : (Path.mk "/proj/lib/a.ts").IsStraight := by decide +kernel
  have hsteps : stepsOf (relative ⟨"/proj//src/."⟩ ⟨"/proj/lib/a.ts"⟩) = ["..", "lib", "a.ts"] := by
    decide +kernel
  obtain ⟨hleads, hfewest, -⟩ := relative_leads_shortest hsource htarget
  rw [hsteps] at hleads hfewest
  exact ⟨hsource, htarget, hsteps, hleads, hfewest⟩

end CallDiagram.Path
