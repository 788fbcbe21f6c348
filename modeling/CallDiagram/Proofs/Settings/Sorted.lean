import CallDiagram.Proofs.Settings.Read

namespace CallDiagram.Settings

open Data (Value)

variable {t : FileTree} {path : Path} {s s' base : Settings} {v : Value}

def IsSorted (s : Settings) : Prop := (s.paths.map Prod.fst).Pairwise (· < ·)

instance (s : Settings) : Decidable s.IsSorted := inferInstanceAs (Decidable (List.Pairwise _ _))

section Paths

variable {pattern key : String} {targets : List String} {paths : List (String × List String)}

theorem mem_insertPath :
    key ∈ (insertPath pattern targets paths).map Prod.fst ↔ key = pattern ∨ key ∈ paths.map Prod.fst := by
  induction paths with
  | nil => simp [insertPath]
  | cons p rest ih =>
    obtain ⟨other, kept⟩ := p
    rw [insertPath]
    split
    · next heq => simp [heq]
    · split
      · rw [List.map_cons, List.mem_cons]
      · rw [List.map_cons, List.mem_cons, ih, List.map_cons, List.mem_cons, or_left_comm]

theorem pairwise_insertPath (h : (paths.map Prod.fst).Pairwise (· < ·)) :
    ((insertPath pattern targets paths).map Prod.fst).Pairwise (· < ·) := by
  induction paths with
  | nil => exact List.pairwise_singleton _ _
  | cons p rest ih =>
    obtain ⟨other, kept⟩ := p
    obtain ⟨hother, hrest⟩ := List.pairwise_cons.1 h
    rw [insertPath]
    split
    · next heq => exact heq ▸ h
    · next hne =>
      split
      · next hlt =>
        refine List.pairwise_cons.2 ⟨fun key hkey => ?_, h⟩
        rcases List.mem_cons.1 hkey with rfl | hkey
        · exact hlt
        · exact String.lt_trans hlt (hother key hkey)
      · next hnot =>
        refine List.pairwise_cons.2 ⟨fun key hkey => ?_, ih hrest⟩
        rcases mem_insertPath.1 hkey with rfl | hkey
        · exact Std.lt_of_le_of_ne hnot (Ne.symm hne)
        · exact hother key hkey

end Paths

section Fields

variable {σ : Type} {P : σ → Prop} {start last : σ}

theorem foldlM_keeps {α : Type} {f : σ → α → Option σ} {l : List α}
    (hstep : ∀ a ∈ l, ∀ b b', f b a = some b' → P b → P b') (h : l.foldlM f start = some last)
    (hstart : P start) : P last := by
  induction l generalizing start with
  | nil => exact Option.some.inj h ▸ hstart
  | cons a l ih =>
    obtain ⟨b, hb, hrest⟩ := Option.bind_eq_some_iff.1 h
    have hkept := hstep a List.mem_cons_self _ _ hb hstart
    exact ih (fun a' ha' => hstep a' (List.mem_cons_of_mem a ha')) hrest hkept

variable {fields : List (String × (Value → σ → Option σ))}

theorem readFields_go_keeps {seen : List String} {members : List (Option String × Value)}
    (hfields : ∀ field ∈ fields, ∀ v b b', field.2 v b = some b' → P b → P b')
    (h : readFields.go fields seen start members = some last) (hstart : P start) : P last := by
  induction members generalizing seen start with
  | nil => exact Option.some.inj h ▸ hstart
  | cons member members ih =>
    obtain ⟨key | key, value⟩ := member
    · cases h
    · rw [readFields.go] at h
      split at h
      · split at h
        · exact ih h hstart
        · cases h
      · next set hset =>
        split at h
        · cases h
        · obtain ⟨b, hb, hrest⟩ := Option.bind_eq_some_iff.1 h
          obtain ⟨before, after, heq, -⟩ := List.lookup_eq_some_iff.1 hset
          have hmem : (key, set) ∈ fields := heq ▸ List.mem_append_right _ List.mem_cons_self
          exact ih hrest (hfields _ hmem value _ _ hb hstart)

theorem readFields_keeps (hfields : ∀ field ∈ fields, ∀ v b b', field.2 v b = some b' → P b → P b')
    (h : readFields fields start v = some last) (hstart : P start) : P last := by
  unfold readFields at h
  split at h
  · exact readFields_go_keeps hfields h hstart
  · refine foldlM_keeps (fun p hp b b' => ?_) h hstart
    exact hfields p.1 (List.of_mem_zip hp).1 p.2 b b'
  · cases h

end Fields

theorem pairwise_readPaths {paths : List (String × List String)} (h : readPaths v = some paths) :
    (paths.map Prod.fst).Pairwise (· < ·) := by
  unfold readPaths at h
  split at h
  · refine foldlM_keeps (P := fun paths => (paths.map Prod.fst).Pairwise (· < ·)) ?_ h List.Pairwise.nil
    rintro ⟨key, value⟩ - paths paths' hstep hpaths
    obtain ⟨pattern, -, hvalue⟩ := Option.bind_eq_some_iff.1 hstep
    obtain ⟨targets, -, hpaths'⟩ := Option.bind_eq_some_iff.1 hvalue
    exact Option.some.inj hpaths' ▸ pairwise_insertPath hpaths
  · cases h

theorem isSorted_compilerFields : ∀ field ∈ compilerFields, ∀ v s s', field.2 v s = some s' →
    s.IsSorted → s'.IsSorted := by
  intro field hfield v s s' h hs
  simp only [compilerFields, List.mem_cons, List.not_mem_nil, or_false] at hfield
  rcases hfield with rfl | rfl
  · obtain ⟨url, -, rfl⟩ := Option.map_eq_some_iff.1 h
    exact hs
  · obtain ⟨paths, hpaths, rfl⟩ := Option.map_eq_some_iff.1 h
    exact pairwise_readPaths hpaths

theorem isSorted_settingsFields : ∀ field ∈ settingsFields, ∀ v s s', field.2 v s = some s' →
    s.IsSorted → s'.IsSorted := by
  intro field hfield v s s' h hs
  simp only [settingsFields, List.mem_cons, List.not_mem_nil, or_false] at hfield
  rcases hfield with rfl | rfl | rfl | rfl | rfl
  case inr.inr.inr.inr => exact readFields_keeps isSorted_compilerFields h hs
  -- The other fields leave the patterns alone.
  all_goals
    obtain ⟨x, -, rfl⟩ := Option.map_eq_some_iff.1 h
    exact hs

theorem isSorted_parse {text : String} (h : parse text = some s) : s.IsSorted := by
  rw [parse] at h
  split at h
  · exact Option.some.inj h ▸ List.Pairwise.nil
  · obtain ⟨v, -, hfields⟩ := Option.bind_eq_some_iff.1 h
    exact readFields_keeps isSorted_settingsFields hfields List.Pairwise.nil

theorem isSorted_inherit (hs : s.IsSorted) (hbase : base.IsSorted) (beside : Bool) :
    (s.inherit base beside).IsSorted := by
  have hpaths : (s.inherit base beside).paths = if s.paths.isEmpty then base.paths else s.paths := by
    cases beside <;> rfl
  rw [IsSorted, hpaths]
  split
  · exact hbase
  · exact hs

theorem isSorted_loadWithin {n : Nat} (h : loadWithin t n path = .ok s) : s.IsSorted := by
  induction n generalizing path s with
  | zero => cases h
  | succ n ih =>
    obtain ⟨own, ⟨text, -, hparse⟩, bases, -, hbases, rfl⟩ := loadWithin_succ_eq_ok.1 h
    have hown := isSorted_parse hparse
    have halone : (alone path own).IsSorted := hown
    clear h
    generalize alone path own = start at halone
    induction bases generalizing start with
    | nil => exact halone
    | cons base bases ihbases =>
      obtain ⟨hbase, hbases⟩ := List.forall_mem_cons.1 hbases
      exact ihbases hbases _ (isSorted_inherit halone (ih hbase) _)

theorem isSorted_load (h : load t path = .ok s) : s.IsSorted := isSorted_loadWithin h

end CallDiagram.Settings
