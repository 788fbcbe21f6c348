import CallDiagram.FileTree.Lookup

namespace CallDiagram

namespace Entry

def isName (name : String) : Bool :=
  name ≠ "" && name ≠ "." && name ≠ ".." && !name.toList.contains '/'

mutual
/-- Whether each directory at or below an entry holds only names, each once. -/
def isWellFormed : Entry → Bool
  | .file _ => true
  | .link _ => true
  | .directory children => areWellFormed children

def areWellFormed : List (String × Entry) → Bool
  | [] => true
  | (name, e) :: rest =>
    isName name && name ∉ rest.map Prod.fst && e.isWellFormed && areWellFormed rest
end

def isLink : Entry → Bool
  | .link _ => true
  | _ => false

variable {e e' : Entry} {name : String} {children : List (String × Entry)} {l : Location}
  {skip : String → Bool}

theorem areWellFormed_iff :
    areWellFormed children ↔
      (children.map Prod.fst).Nodup ∧ ∀ p ∈ children, isName p.1 ∧ p.2.isWellFormed := by
  induction children with
  | nil => simp [areWellFormed]
  | cons p rest ih =>
    obtain ⟨name, e⟩ := p
    rw [areWellFormed, List.map_cons, List.nodup_cons, List.forall_mem_cons]
    simp only [Bool.and_eq_true, decide_eq_true_eq, ih]
    constructor
    · rintro ⟨⟨⟨hname, hfresh⟩, he⟩, hnodup, hrest⟩
      exact ⟨⟨hfresh, hnodup⟩, ⟨hname, he⟩, hrest⟩
    · rintro ⟨⟨hfresh, hnodup⟩, ⟨hname, he⟩, hrest⟩
      exact ⟨⟨⟨hname, hfresh⟩, he⟩, hnodup, hrest⟩

theorem isWellFormed_child (h : e.isWellFormed) (hchild : e.child? name = some e') :
    isName name ∧ e'.isWellFormed := by
  cases e with
  | directory children =>
    obtain ⟨before, behind, heq, -⟩ := List.lookup_eq_some_iff.1 hchild
    exact (areWellFormed_iff.1 h).2 (name, e') (by rw [heq]; simp)
  | file _ => cases hchild
  | link _ => cases hchild

theorem isWellFormed_at? (h : e.isWellFormed) (hl : e.at? l = some e') :
    (∀ name ∈ l, isName name) ∧ e'.isWellFormed := by
  induction l generalizing e with
  | nil => exact ⟨by simp, Option.some.inj hl ▸ h⟩
  | cons name names ih =>
    obtain ⟨child, hchild, hl⟩ := Option.bind_eq_some_iff.1 hl
    obtain ⟨hname, hwf⟩ := isWellFormed_child h hchild
    obtain ⟨hnames, he⟩ := ih hwf hl
    exact ⟨List.forall_mem_cons.2 ⟨hname, hnames⟩, he⟩

theorem lookup_of_mem (h : (children.map Prod.fst).Nodup) (hmem : (name, e) ∈ children) :
    children.lookup name = some e := by
  induction children with
  | nil => cases hmem
  | cons p rest ih =>
    obtain ⟨other, e'⟩ := p
    obtain ⟨hfresh, hrest⟩ := List.nodup_cons.1 h
    cases List.mem_cons.1 hmem with
    | inl heq =>
      cases heq
      simp
    | inr hlater =>
      have hne : name ≠ other := by
        rintro rfl
        exact hfresh (List.mem_map.2 ⟨_, hlater, rfl⟩)
      rw [List.lookup_cons, beq_false_of_ne hne]
      exact ih hrest hlater

theorem mem_filesAmong :
    l ∈ filesAmong skip children ↔
      ∃ name e names, (name, e) ∈ children ∧ (e.isDirectory && skip name) = false
        ∧ names ∈ e.files skip ∧ l = name :: names := by
  induction children with
  | nil => simp [filesAmong]
  | cons p rest ih =>
    obtain ⟨name, e⟩ := p
    rw [filesAmong, List.mem_append, ih]
    constructor
    · rintro (h | ⟨name', e', names, hmem, h⟩)
      · split at h
        · cases h
        · next hskip =>
          obtain ⟨names, hnames, rfl⟩ := List.mem_map.1 h
          exact ⟨name, e, names, List.mem_cons_self, by simpa using hskip, hnames, rfl⟩
      · exact ⟨name', e', names, List.mem_cons_of_mem _ hmem, h⟩
    · rintro ⟨name', e', names, hmem, hskip, hnames, rfl⟩
      cases List.mem_cons.1 hmem with
      | inl heq =>
        cases heq
        exact .inl (by rw [hskip]; exact List.mem_map_of_mem hnames)
      | inr hmem => exact .inr ⟨name', e', names, hmem, hskip, hnames, rfl⟩

theorem mem_files_of_at? {contents : Contents} (h : e.at? l = some (.file contents))
    (hskip : ∀ name ∈ l.dropLast, skip name = false) : l ∈ e.files skip := by
  induction l generalizing e with
  | nil =>
    cases Option.some.inj h
    simp [files]
  | cons name names ih =>
    obtain ⟨child, hchild, hnames⟩ := Option.bind_eq_some_iff.1 h
    cases e with
    | directory children =>
      obtain ⟨before, behind, heq, -⟩ := List.lookup_eq_some_iff.1 hchild
      rw [files]
      refine mem_filesAmong.2 ⟨name, child, names, by rw [heq]; simp, ?_, ih hnames ?_, rfl⟩
      · -- The last name is that of a file, and the names before it are not skipped.
        cases names with
        | nil => cases Option.some.inj hnames; rfl
        | cons next names => rw [hskip name (by simp), Bool.and_false]
      · intro other hother
        refine hskip other ?_
        rw [List.dropLast_cons_of_ne_nil (List.ne_nil_of_mem (List.dropLast_subset _ hother))]
        exact List.mem_cons_of_mem name hother
    | file _ => cases hchild
    | link _ => cases hchild

theorem at?_of_mem_files (he : e.isWellFormed) (h : l ∈ e.files skip) :
    ∃ contents, e.at? l = some (.file contents) := by
  induction l generalizing e with
  | nil =>
    cases e with
    | file contents => exact ⟨contents, rfl⟩
    | link _ => simp [files] at h
    | directory children =>
      rw [files, mem_filesAmong] at h
      obtain ⟨_, _, _, _, _, _, heq⟩ := h
      cases heq
  | cons name names ih =>
    cases e with
    | file _ => simp [files] at h
    | link _ => simp [files] at h
    | directory children =>
      rw [files, mem_filesAmong] at h
      obtain ⟨_, child, _, hmem, -, hnames, heq⟩ := h
      cases heq
      obtain ⟨hnodup, hall⟩ := areWellFormed_iff.1 he
      obtain ⟨contents, hat⟩ := ih (hall _ hmem).2 hnames
      refine ⟨contents, ?_⟩
      rw [at?, child?, lookup_of_mem hnodup hmem]
      exact hat

theorem skip_of_mem_files (h : l ∈ e.files skip) : ∀ name ∈ l.dropLast, skip name = false := by
  induction l generalizing e with
  | nil => simp
  | cons name names ih =>
    cases e with
    | file _ => simp [files] at h
    | link _ => simp [files] at h
    | directory children =>
      rw [files, mem_filesAmong] at h
      obtain ⟨_, child, _, -, hskip, hnames, heq⟩ := h
      cases heq
      cases names with
      | nil => simp
      | cons next names =>
        have hdirectory : child.isDirectory = true := by
          cases child with
          | directory _ => rfl
          | file _ => simp [files] at hnames
          | link _ => simp [files] at hnames
        rw [hdirectory, Bool.true_and] at hskip
        rw [List.dropLast_cons_of_ne_nil (List.cons_ne_nil _ _)]
        exact List.forall_mem_cons.2 ⟨hskip, ih hnames⟩

theorem mem_files_iff (he : e.isWellFormed) :
    l ∈ e.files skip ↔
      (∃ contents, e.at? l = some (.file contents)) ∧ ∀ name ∈ l.dropLast, skip name = false :=
  ⟨fun h => ⟨at?_of_mem_files he h, skip_of_mem_files h⟩, fun ⟨⟨_, hat⟩, hskip⟩ =>
    mem_files_of_at? hat hskip⟩

end Entry

end CallDiagram
