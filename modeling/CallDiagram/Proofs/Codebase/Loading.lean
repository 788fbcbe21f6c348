import CallDiagram.Codebase.Load
import CallDiagram.Proofs.Codebase.AddFile
import CallDiagram.Proofs.Failure
import Mathlib.Data.List.Perm.Subperm
import Mathlib.Order.Bounds.Defs

namespace CallDiagram.Loading

variable {t : FileTree} {find : Path → String → Option Path} {start : List Path}

def leads (find : Path → String → Option Path) (path : Path) (o : Outline) :
    List (String × Path) :=
  (o.followedSpecifiers path.isForeign).filterMap fun name =>
    (find path name).map fun target => (name, target)

theorem mem_filterMap_pair {α β γ : Type} {l : List α} {key : α → β} {value : α → Option γ} {b : β}
    {c : γ} :
    (b, c) ∈ l.filterMap (fun a => (value a).map fun v => (key a, v)) ↔
      ∃ a ∈ l, key a = b ∧ value a = some c := by
  rw [List.mem_filterMap]
  constructor
  · rintro ⟨a, ha, heq⟩
    obtain ⟨v, hv, hpair⟩ := Option.map_eq_some_iff.1 heq
    cases hpair
    exact ⟨a, ha, rfl, hv⟩
  · rintro ⟨a, ha, rfl, hv⟩
    exact ⟨a, ha, by rw [hv]; rfl⟩

theorem mem_leads {path target : Path} {o : Outline} {name : String} :
    (name, target) ∈ leads find path o ↔
      name ∈ o.followedSpecifiers path.isForeign ∧ find path name = some target := by
  rw [leads, mem_filterMap_pair]
  simp

structure IsClosed (t : FileTree) (find : Path → String → Option Path) (start : List Path)
    (s : Set Path) : Prop where
  start : ∀ path ∈ start, path ∈ s
  next : ∀ path ∈ s, ∀ o, Outline.ofFile t path = .ok o →
    ∀ name ∈ o.followedSpecifiers path.isForeign, ∀ target, find path name = some target →
      target ∈ s

/-- What holds when the files `read` have been read, and the paths `waiting` have been seen and not
been read yet. -/
structure Tracks (t : FileTree) (find : Path → String → Option Path) (start : List Path)
    (state : Loading) (read : List (Path × Outline)) (waiting : List Path) : Prop where
  files : state.codebase.Lists (read.map Prod.fst)
  links : state.links = read.map fun r => ⟨leads find r.1 r.2⟩
  outlines : ∀ r ∈ read, Outline.ofFile t r.1 = .ok r.2
  seen : state.seen.Perm (read.map Prod.fst ++ waiting)
  nodup : state.seen.Nodup
  known : ∀ r ∈ read, ∀ lead ∈ leads find r.1 r.2, lead.2 ∈ state.seen
  least : ∀ s, IsClosed t find start s → ∀ path ∈ state.seen, path ∈ s

theorem discover_cons (state : Loading) (next : List Path) (path : Path) (rest : List Path) :
    state.discover next (path :: rest) =
      if path ∈ state.seen then state.discover next rest
      else { state with seen := path :: state.seen }.discover (next ++ [path]) rest := by
  by_cases h : path ∈ state.seen <;> simp [discover, h]

theorem discover_eq (state : Loading) (next paths : List Path) :
    ∃ fresh, state.discover next paths =
        ({ state with seen := fresh.reverse ++ state.seen }, next ++ fresh)
      ∧ (state.seen.Nodup → (fresh.reverse ++ state.seen).Nodup) ∧ fresh ⊆ paths
      ∧ paths ⊆ fresh.reverse ++ state.seen := by
  induction paths generalizing state next with
  | nil => exact ⟨[], by simp [discover], fun h => h, by simp, by simp⟩
  | cons path rest ih =>
    rw [discover_cons]
    split
    · next hseen =>
      obtain ⟨fresh, heq, hnodup, hsub, hcover⟩ := ih state next
      refine ⟨fresh, heq, hnodup, List.subset_cons_of_subset path hsub, ?_⟩
      exact List.cons_subset.2 ⟨List.mem_append_right _ hseen, hcover⟩
    · next hseen =>
      obtain ⟨fresh, heq, hnodup, hsub, hcover⟩ :=
        ih { state with seen := path :: state.seen } (next ++ [path])
      have happend : (path :: fresh).reverse ++ state.seen = fresh.reverse ++ path :: state.seen := by
        simp
      refine ⟨path :: fresh, ?_, ?_, List.cons_subset_cons path hsub, ?_⟩
      · rw [heq, happend, ← List.append_cons]
      · rw [happend]
        exact fun h => hnodup (List.nodup_cons.2 ⟨hseen, h⟩)
      · rw [happend]
        exact List.cons_subset.2 ⟨List.mem_append_right _ List.mem_cons_self, hcover⟩

def addAlone (find : Path → String → Option Path) (state : Loading) (path : Path) (o : Outline) :
    Loading :=
  { state with
    codebase := state.codebase.addFile path path.isForeign o
    links := state.links ++ [⟨leads find path o⟩] }

theorem add_eq (state : Loading) (next : List Path) (path : Path) (o : Outline) :
    add find (state, next) (path, o) =
      (addAlone find state path o).discover next ((leads find path o).map Prod.snd) := rfl

namespace Tracks

variable {state final : Loading} {read : List (Path × Outline)} {waiting next rest : List Path}
  {path : Path} {o : Outline}

theorem not_mem_read (h : Tracks t find start state read (path :: rest)) :
    path ∉ read.map Prod.fst := fun hmem =>
  (List.nodup_append.1 (h.seen.nodup_iff.1 h.nodup)).2.2 path hmem path List.mem_cons_self rfl

theorem add (h : Tracks t find start state read (path :: (rest ++ next)))
    (ho : Outline.ofFile t path = .ok o) :
    Tracks t find start (Loading.add find (state, next) (path, o)).1 (read ++ [(path, o)])
      (rest ++ (Loading.add find (state, next) (path, o)).2) := by
  obtain ⟨fresh, heq, hnodup, hsub, hcover⟩ := discover_eq (addAlone find state path o) next
    ((leads find path o).map Prod.snd)
  have hpath : path ∈ state.seen := h.seen.mem_iff.2 (by simp)
  rw [add_eq, heq]
  constructor
  case files =>
    rw [List.map_append]
    exact h.files.addFile h.not_mem_read path.isForeign o
  case links =>
    rw [List.map_append, ← h.links]
    rfl
  case outlines =>
    intro r hr
    cases List.mem_append.1 hr with
    | inl hr => exact h.outlines r hr
    | inr hr =>
      rw [List.mem_singleton.1 hr]
      exact ho
  case seen =>
    have hseen : state.seen.Perm (read.map Prod.fst ++ [path] ++ rest ++ next) := by
      simpa using h.seen
    have hfresh := (List.reverse_perm fresh).append hseen
    rw [List.map_append, ← List.append_assoc, ← List.append_assoc]
    exact hfresh.trans List.perm_append_comm
  case nodup => exact hnodup h.nodup
  case known =>
    intro r hr lead hlead
    cases List.mem_append.1 hr with
    | inl hr => exact List.mem_append_right _ (h.known r hr lead hlead)
    | inr hr =>
      rw [List.mem_singleton.1 hr] at hlead
      exact hcover (List.mem_map_of_mem hlead)
  case least =>
    intro s hs other hother
    cases List.mem_append.1 hother with
    | inl hfresh =>
      obtain ⟨⟨name, target⟩, hlead, rfl⟩ := List.mem_map.1 (hsub (List.mem_reverse.1 hfresh))
      obtain ⟨hname, htarget⟩ := mem_leads.1 hlead
      exact hs.next path (h.least s hs path hpath) o ho name hname target htarget
    | inr hold => exact h.least s hs other hold

theorem foldl_add {layer : List (Path × Outline)}
    (h : Tracks t find start state read (layer.map Prod.fst ++ next))
    (hlayer : ∀ r ∈ layer, Outline.ofFile t r.1 = .ok r.2) :
    Tracks t find start (layer.foldl (Loading.add find) (state, next)).1 (read ++ layer)
      (layer.foldl (Loading.add find) (state, next)).2 := by
  induction layer generalizing state read next with
  | nil => simpa using h
  | cons r layer ih =>
    obtain ⟨hr, hlayer⟩ := List.forall_mem_cons.1 hlayer
    have hstep := ih (h.add hr) hlayer
    rw [List.append_assoc] at hstep
    exact hstep

theorem perm {waiting' : List Path} (h : Tracks t find start state read waiting)
    (hperm : waiting.Perm waiting') : Tracks t find start state read waiting' :=
  { h with seen := h.seen.trans (hperm.append_left _) }

theorem length_le {found : List Path} (h : Tracks t find start state read waiting)
    (hfind : ∀ path name target, find path name = some target → target ∈ found) :
    read.length + waiting.length ≤ start.length + found.length := by
  have hclosed : IsClosed t find start {path | path ∈ start ++ found} := by
    refine ⟨fun path hpath => List.mem_append_left _ hpath, ?_⟩
    intro path _ o _ name _ target htarget
    exact List.mem_append_right _ (hfind path name target htarget)
  have hsub : state.seen ⊆ start ++ found := fun path hpath => h.least _ hclosed path hpath
  have hlength := (List.Nodup.subperm h.nodup hsub).length_le
  rw [h.seen.length_eq] at hlength
  simpa using hlength

theorem mem_read (h : Tracks t find start state read []) :
    path ∈ read.map Prod.fst ↔ path ∈ state.seen := by
  rw [h.seen.mem_iff, List.append_nil]

theorem nodup_read (h : Tracks t find start state read []) : (read.map Prod.fst).Nodup := by
  have hnodup := h.seen.nodup_iff.1 h.nodup
  rwa [List.append_nil] at hnodup

theorem ofFile_of_mem_read (h : Tracks t find start state read waiting)
    (hpath : path ∈ read.map Prod.fst) : ∃ o, (path, o) ∈ read ∧ Outline.ofFile t path = .ok o := by
  obtain ⟨⟨path, o⟩, hr, rfl⟩ := List.mem_map.1 hpath
  exact ⟨o, hr, h.outlines _ hr⟩

theorem isLeast (h : Tracks t find start state read []) (hstart : start ⊆ read.map Prod.fst) :
    IsLeast {s | IsClosed t find start s} {path | path ∈ read.map Prod.fst} := by
  refine ⟨⟨fun path hpath => hstart hpath, ?_⟩, ?_⟩
  · intro path hpath o ho name hname target htarget
    obtain ⟨o', hr, ho'⟩ := h.ofFile_of_mem_read hpath
    rw [ho] at ho'
    cases ho'
    exact h.mem_read.2 (h.known _ hr (name, target) (mem_leads.2 ⟨hname, htarget⟩))
  · exact fun s hs path hpath => h.least s hs path (h.mem_read.1 hpath)

end Tracks

theorem layer_of_mapM {pending : List Path} {layer : List (Path × Outline)}
    (h : pending.mapM (fun path => return (path, ← Outline.ofFile t path)) = .ok layer) :
    layer.map Prod.fst = pending ∧ ∀ r ∈ layer, Outline.ofFile t r.1 = .ok r.2 := by
  have hall := mapM_eq_ok.1 h
  clear h
  induction pending generalizing layer with
  | nil => simp_all
  | cons path pending ih =>
    cases layer with
    | nil => cases hall
    | cons r layer =>
      obtain ⟨hr, hrest⟩ := List.cons.inj hall
      obtain ⟨o, ho, heq⟩ := bind_eq_ok.1 hr
      cases heq
      obtain ⟨hpaths, houtlines⟩ := ih hrest
      exact ⟨by rw [List.map_cons, hpaths], List.forall_mem_cons.2 ⟨ho, houtlines⟩⟩

variable {ends : Path → String → Bool} {pending : List Path} {outlines : List (Path × Outline)}

theorem endless?_eq_none_iff {r : Path × Outline} :
    endless? ends r = none ↔ ∀ name ∈ r.2.followedSpecifiers r.1.isForeign, ends r.1 name := by
  simp [endless?]

theorem layer_of_readLayer (h : readLayer t ends pending = .ok outlines) :
    outlines.map Prod.fst = pending ∧ (∀ r ∈ outlines, Outline.ofFile t r.1 = .ok r.2)
      ∧ ∀ r ∈ outlines, ∀ name ∈ r.2.followedSpecifiers r.1.isForeign, ends r.1 name := by
  obtain ⟨read, hread, h⟩ := bind_eq_ok.1 h
  split at h
  · cases h
  · next hends =>
    cases h
    obtain ⟨hpaths, houtlines⟩ := layer_of_mapM hread
    exact ⟨hpaths, houtlines, fun r hr => endless?_eq_none_iff.1 (List.findSome?_eq_none_iff.1 hends r hr)⟩

theorem Tracks.layer {state : Loading} {read : List (Path × Outline)}
    (h : Tracks t find start state read pending) (hlayer : readLayer t ends pending = .ok outlines) :
    Tracks t find start (outlines.foldl (Loading.add find) (state, [])).1 (read ++ outlines)
      ((outlines.foldl (Loading.add find) (state, [])).2.mergeSort fun p q => lexLe p.names q.names) := by
  obtain ⟨hpaths, houtlines, -⟩ := layer_of_readLayer hlayer
  have hpending : pending = outlines.map Prod.fst ++ [] := by rw [hpaths, List.append_nil]
  exact ((hpending ▸ h).foldl_add houtlines).perm (List.mergeSort_perm _ _).symm

theorem tracks_readLayers {state final : Loading} {read : List (Path × Outline)}
    {found : List Path} {n : Nat} (h : Tracks t find start state read pending)
    (hfind : ∀ path name target, find path name = some target → target ∈ found)
    (hstart : start <+: read.map Prod.fst ++ pending)
    (hn : 0 < pending.length → start.length + found.length < n + (read.length + pending.length))
    (hrun : readLayers t ends find n state pending = .ok final) :
    ∃ all, Tracks t find start final all [] ∧ start <+: all.map Prod.fst := by
  induction n generalizing state read pending with
  | zero =>
    cases hrun
    -- Whatever still waits would be one path more than can ever be seen.
    have hle := h.length_le hfind
    have hnil : pending = [] := List.eq_nil_iff_length_eq_zero.2 (by omega)
    subst hnil
    exact ⟨read, h, by simpa using hstart⟩
  | succ n ih =>
    rw [readLayers] at hrun
    split at hrun
    · next hnil =>
      cases hrun
      have hnil := List.isEmpty_iff.1 hnil
      subst hnil
      exact ⟨read, h, by simpa using hstart⟩
    · next hsome =>
      obtain ⟨layer, hlayer, hrun⟩ := bind_eq_ok.1 hrun
      have hpaths := (layer_of_readLayer hlayer).1
      refine ih (h.layer hlayer) ?_ ?_ hrun
      · rw [List.map_append, hpaths]
        exact hstart.trans (List.prefix_append _ _)
      · intro hnext
        have hlayer : layer.length = pending.length := by rw [← hpaths, List.length_map]
        have hpos : 0 < pending.length := List.length_pos_iff.2 fun hnil => hsome (List.isEmpty_iff.2 hnil)
        rw [List.length_append, hlayer]
        have hless := hn hpos
        omega

end CallDiagram.Loading
