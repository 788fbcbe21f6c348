import CallDiagram.Codebase.Locate
import CallDiagram.Proofs.Codebase.Sources

namespace CallDiagram

section Last

variable {α κ : Type} {p : α → Prop} {l : List α} {a b : α} {i : Nat}

def LastAt (p : α → Prop) (l : List α) (i : Nat) (a : α) : Prop :=
  ∃ before after, l = before ++ a :: after ∧ before.length = i ∧ p a ∧ ∀ b ∈ after, ¬ p b

theorem LastAt.mem (h : LastAt p l i a) : a ∈ l := by
  obtain ⟨before, after, rfl, -⟩ := h
  simp

theorem LastAt.holds (h : LastAt p l i a) : p a := by
  obtain ⟨before, after, -, -, ha, -⟩ := h
  exact ha

theorem LastAt.getElem? (h : LastAt p l i a) : l[i]? = some a := by
  obtain ⟨before, after, rfl, rfl, -⟩ := h
  simp

theorem lastAt_concat : LastAt p (l ++ [a]) i b ↔ p a ∧ i = l.length ∧ b = a ∨ ¬ p a ∧ LastAt p l i b := by
  constructor
  · rintro ⟨before, after, heq, rfl, hb, hafter⟩
    rcases List.eq_nil_or_concat' after with rfl | ⟨between, c, rfl⟩
    · obtain ⟨rfl, hab⟩ := List.append_inj' heq rfl
      cases hab
      exact .inl ⟨hb, rfl, rfl⟩
    · rw [← List.cons_append, ← List.append_assoc] at heq
      obtain ⟨rfl, hac⟩ := List.append_inj' heq rfl
      cases hac
      refine .inr ⟨hafter a (by simp), before, between, rfl, rfl, hb, fun d hd => ?_⟩
      exact hafter d (List.mem_append_left _ hd)
  · rintro (⟨ha, rfl, rfl⟩ | ⟨ha, before, after, rfl, rfl, hb, hafter⟩)
    · exact ⟨l, [], rfl, rfl, ha, fun d hd => absurd hd List.not_mem_nil⟩
    · refine ⟨before, after ++ [a], by simp, rfl, hb, fun d hd => ?_⟩
      rcases List.mem_append.1 hd with hd | hd
      · exact hafter d hd
      · rwa [List.mem_singleton.1 hd]

theorem exists_lastAt_iff : (∃ i a, LastAt p l i a) ↔ ∃ a ∈ l, p a := by
  constructor
  · rintro ⟨i, a, h⟩
    exact ⟨a, h.mem, h.holds⟩
  · intro h
    -- from the end, where the last owner is found first
    induction l using List.reverseRecOn with
    | nil => simp at h
    | append_singleton l b ih =>
      by_cases hb : p b
      · exact ⟨l.length, b, lastAt_concat.2 (.inl ⟨hb, rfl, rfl⟩)⟩
      · obtain ⟨a, hmem, ha⟩ := h
        have hl : a ∈ l := by
          rcases List.mem_append.1 hmem with hl | hl
          · exact hl
          · exact absurd (List.mem_singleton.1 hl ▸ ha) hb
        obtain ⟨i, a, hlast⟩ := ih ⟨a, hl, ha⟩
        exact ⟨i, a, lastAt_concat.2 (.inr ⟨hb, hlast⟩)⟩

theorem Table.get?_mapIdx [DecidableEq κ] {key : α → κ} {first : Nat} {k : κ} {value : Nat} :
    (⟨l.mapIdx fun i a => (key a, first + i)⟩ : Table κ Nat).get? k = some value ↔
      ∃ i a, LastAt (key · = k) l i a ∧ value = first + i := by
  induction l using List.reverseRecOn with
  | nil =>
    refine iff_of_false (by simp) ?_
    rintro ⟨i, a, h, -⟩
    exact List.not_mem_nil h.mem
  | append_singleton l b ih =>
    rw [List.mapIdx_concat]
    change (Table.set ⟨l.mapIdx fun i a => (key a, first + i)⟩ (key b) (first + l.length)).get? k = _ ↔ _
    rw [Table.get?_set]
    simp only [lastAt_concat]
    split
    · next heq =>
      rw [Option.some.injEq]
      constructor
      · rintro rfl
        exact ⟨l.length, b, .inl ⟨heq.symm, rfl, rfl⟩, rfl⟩
      · rintro ⟨i, a, ⟨-, rfl, -⟩ | ⟨hne, -⟩, rfl⟩
        · rfl
        · exact absurd heq.symm hne
    · next hne =>
      rw [ih]
      constructor
      · rintro ⟨i, a, h, rfl⟩
        exact ⟨i, a, .inr ⟨fun heq => hne heq.symm, h⟩, rfl⟩
      · rintro ⟨i, a, ⟨heq, -⟩ | ⟨-, h⟩, rfl⟩
        · exact absurd heq.symm hne
        · exact ⟨i, a, h, rfl⟩

theorem Table.get?_mapIdx_eq_none [DecidableEq κ] {key : α → κ} {first : Nat} {k : κ} :
    (⟨l.mapIdx fun i a => (key a, first + i)⟩ : Table κ Nat).get? k = none ↔ ∀ a ∈ l, key a ≠ k := by
  constructor
  · intro hnone a ha hkey
    have hsome : ∃ a ∈ l, key a = k := ⟨a, ha, hkey⟩
    obtain ⟨i, last, hlast⟩ := exists_lastAt_iff.2 hsome
    rw [Table.get?_mapIdx.2 ⟨i, last, hlast, rfl⟩] at hnone
    cases hnone
  · intro h
    refine Option.eq_none_iff_forall_ne_some.2 fun value hvalue => ?_
    obtain ⟨i, a, hlast, -⟩ := Table.get?_mapIdx.1 hvalue
    exact h a hlast.mem hlast.holds

end Last

def EntryPoint.asksForDefault : EntryPoint → Prop
  | .function name => name = Outline.defaultName
  | .method cls _ => cls = Outline.defaultName

namespace Codebase

variable {b c : Codebase} {t : FileTree} {f : Source} {unit : UnitId} {o : Outline} {file : Path}
  {cls name : String} {d : DeclarationId} {table : FileTable}

def GoesBy (own : Option String) (name : String) : Prop :=
  own = some name ∨ own = none ∧ name = Outline.defaultName

theorem tableName_eq_iff {own : Option String} : tableName own = name ↔ GoesBy own name := by
  cases own with
  | none => simp [tableName, GoesBy, eq_comm]
  | some n => simp [tableName, GoesBy]

abbrev IsFunction (o : Outline) (name : String) (i : Nat) (f : FunctionOutline) : Prop :=
  LastAt (fun f => GoesBy f.name name) o.functions i f

abbrev IsClass (o : Outline) (name : String) (j : Nat) (k : ClassOutline) : Prop :=
  LastAt (fun k => GoesBy k.name name) o.classes j k

/-- What is located for an entry point in a file: a function of it, or a method that the class has
declared itself, and one of its objects if it has declared any such method of that name. -/
inductive Located (c : Codebase) (unit : UnitId) (o : Outline) : EntryPoint → DeclarationId → Prop
  | function {name : String} {i : Nat} {f : FunctionOutline} {d : DeclarationId} :
    IsFunction o name i f → c.declarations[d]? = some (functionDeclaration f unit d) →
      Located c unit o (.function name) d
  | method {cls name : String} {j : Nat} {k : ClassOutline} {m : MethodOutline} {number : ClassId}
      {d : DeclarationId} :
    IsClass o cls j k → m ∈ k.methods → m.name = name →
      (m.isStatic → ∀ other ∈ k.methods, other.name = name → other.isStatic) →
      (c.tables[unit]?.bind fun table => table.classes.get? cls) = some number →
      c.scopes[d]? = some { cls := some number, isStatic := m.isStatic, bindings := ⟨m.body.bindings⟩ } →
      c.declarations[d]? = some (methodDeclaration m k.name unit d) → Located c unit o (.method cls name) d

theorem Located.exists_declaration {entry : EntryPoint} (h : c.Located unit o entry d) :
    ∃ x, c.declarations[d]? = some x ∧ x.unit = unit
      ∧ (¬ entry.asksForDefault → x.displayName? = some entry.text) := by
  cases h with
  | function hf hd =>
    refine ⟨_, hd, rfl, fun hentry => ?_⟩
    rcases hf.holds with hname | ⟨-, hdefault⟩
    · rw [Declaration.displayName?, functionDeclaration, hname]
      rfl
    · exact absurd hdefault hentry
  | method hk _ hname _ _ _ hd =>
    refine ⟨_, hd, rfl, fun hentry => ?_⟩
    rcases hk.holds with hcls | ⟨-, hdefault⟩
    · rw [Declaration.displayName?, methodDeclaration, hcls, hname]
      rfl
    · exact absurd hdefault hentry

section Tables

theorem Placed.get?_functions (h : c.Placed b unit f) (ht : c.tables[unit]? = some table) :
    table.functions.get? name = some d ↔ ∃ i g, IsFunction f.2 name i g ∧ d = b.declarations.size + i := by
  obtain ⟨modules, htable⟩ := h.table
  obtain rfl := Option.some.inj (ht.symm.trans htable)
  simp only [fileTable, Table.get?_mapIdx, tableName_eq_iff]

theorem Placed.get?_functions_eq_none (h : c.Placed b unit f) (ht : c.tables[unit]? = some table) :
    table.functions.get? name = none ↔ ∀ g ∈ f.2.functions, ¬ GoesBy g.name name := by
  obtain ⟨modules, htable⟩ := h.table
  obtain rfl := Option.some.inj (ht.symm.trans htable)
  simp only [fileTable, Table.get?_mapIdx_eq_none, Ne, tableName_eq_iff]

theorem Placed.get?_classes {number : ClassId} (h : c.Placed b unit f) (ht : c.tables[unit]? = some table) :
    table.classes.get? cls = some number ↔ ∃ j k, IsClass f.2 cls j k ∧ number = b.classes.size + j := by
  obtain ⟨modules, htable⟩ := h.table
  obtain rfl := Option.some.inj (ht.symm.trans htable)
  simp only [fileTable, Table.get?_mapIdx, tableName_eq_iff]

theorem Placed.get?_classes_eq_none (h : c.Placed b unit f) (ht : c.tables[unit]? = some table) :
    table.classes.get? cls = none ↔ ∀ k ∈ f.2.classes, ¬ GoesBy k.name cls := by
  obtain ⟨modules, htable⟩ := h.table
  obtain rfl := Option.some.inj (ht.symm.trans htable)
  simp only [fileTable, Table.get?_mapIdx_eq_none, Ne, tableName_eq_iff]

theorem Placed.function {i : Nat} {g : FunctionOutline} (h : c.Placed b unit f) (hg : f.2.functions[i]? = some g) :
    c.declarations[b.declarations.size + i]? =
      some (functionDeclaration g unit (b.declarations.size + i)) := by
  have hi := (List.getElem?_eq_some_iff.1 hg).1
  apply h.declarations i (functionDraft unit g)
  rw [drafts, List.getElem?_append_left (by simpa using hi), List.getElem?_map, hg]
  rfl

theorem Placed.methods {j : Nat} {k : ClassOutline} (h : c.Placed b unit f) (hk : IsClass f.2 cls j k) :
    ∃ first entry, c.classes[b.classes.size + j]? = some entry
      ∧ entry.methods = ⟨k.methods.mapIdx fun i m => ((m.name, m.isStatic), first + i)⟩
      ∧ ∀ (i : Nat) m, k.methods[i]? = some m →
        c.declarations[first + i]? = some (methodDeclaration m k.name unit (first + i))
        ∧ c.scopes[first + i]? = some
          { cls := some (b.classes.size + j), isStatic := m.isStatic, bindings := ⟨m.body.bindings⟩ } := by
  obtain ⟨before, after, hclasses, rfl, -⟩ := hk
  have hentry := h.classes before.length _ (by rw [hclasses]; exact getElem?_classEntries before after k)
  refine ⟨b.declarations.size + f.2.functions.length + methodCount before, _, hentry, rfl, fun i m hm => ?_⟩
  have hdraft : (drafts unit b.classes.size f.2)[f.2.functions.length + (methodCount before + i)]? =
      some (methodDraft unit (b.classes.size + before.length) k.name m) := by
    rw [drafts, List.getElem?_append_right (by simp), List.length_map, Nat.add_sub_cancel_left, hclasses]
    exact getElem?_classDrafts before after hm
  rw [Nat.add_assoc, Nat.add_assoc]
  exact ⟨h.declarations _ _ hdraft, h.scopes _ _ hdraft⟩

theorem Placed.ownMethod?_eq_none {j : Nat} {k : ClassOutline} (h : c.Placed b unit f)
    (hk : IsClass f.2 cls j k) :
    c.ownMethod? (b.classes.size + j) name = none ↔ ∀ m ∈ k.methods, m.name ≠ name := by
  obtain ⟨first, entry, hentry, hmethods, -⟩ := h.methods hk
  rw [ownMethod?, hentry, Option.bind_some, Option.or_eq_none_iff, hmethods, Table.get?_mapIdx_eq_none,
    Table.get?_mapIdx_eq_none]
  constructor
  · rintro ⟨hobject, hclass⟩ m hm rfl
    cases hside : m.isStatic with
    | false => exact hobject m hm (Prod.ext rfl hside)
    | true => exact hclass m hm (Prod.ext rfl hside)
  · exact fun hnone => ⟨fun m hm heq => hnone m hm (Prod.mk.inj heq).1,
      fun m hm heq => hnone m hm (Prod.mk.inj heq).1⟩

theorem Placed.exists_method {j : Nat} {k : ClassOutline} (h : c.Placed b unit f) (hk : IsClass f.2 cls j k)
    (hd : c.ownMethod? (b.classes.size + j) name = some d) :
    ∃ m ∈ k.methods, m.name = name
      ∧ (m.isStatic → ∀ other ∈ k.methods, other.name = name → other.isStatic)
      ∧ c.declarations[d]? = some (methodDeclaration m k.name unit d)
      ∧ c.scopes[d]? = some
        { cls := some (b.classes.size + j), isStatic := m.isStatic, bindings := ⟨m.body.bindings⟩ } := by
  obtain ⟨first, entry, hentry, hmethods, hnumbers⟩ := h.methods hk
  rw [ownMethod?, hentry, Option.bind_some, Option.or_eq_some_iff, hmethods] at hd
  rcases hd with hobject | ⟨hobject, hclass⟩
  · obtain ⟨i, m, hlast, rfl⟩ := Table.get?_mapIdx.1 hobject
    obtain ⟨hname, hside⟩ := Prod.mk.inj hlast.holds
    refine ⟨m, hlast.mem, hname, fun hstatic => ?_, hnumbers i m hlast.getElem?⟩
    rw [hside] at hstatic
    cases hstatic
  · obtain ⟨i, m, hlast, rfl⟩ := Table.get?_mapIdx.1 hclass
    refine ⟨m, hlast.mem, (Prod.mk.inj hlast.holds).1, fun _ other hmem hname => ?_,
      hnumbers i m hlast.getElem?⟩
    by_contra hside
    exact Table.get?_mapIdx_eq_none.1 hobject other hmem (Prod.ext hname (Bool.eq_false_of_not_eq_true hside))

end Tables

section Locate

/-- What locating comes to in a file of the project, of which `o` has been read. -/
structure LocatesIn (c : Codebase) (file : Path) (unit : UnitId) (o : Outline)
    (locate : EntryPoint → Except Failure DeclarationId) : Prop where
  function : ∀ name, (∃ d, locate (.function name) = .ok d) ↔ ∃ f ∈ o.functions, GoesBy f.name name
  functionNotFound : ∀ name, locate (.function name) = .error (.functionNotFound name file) ↔
    ∀ f ∈ o.functions, ¬ GoesBy f.name name
  method : ∀ cls name, (∃ d, locate (.method cls name) = .ok d) ↔
    ∃ j k, IsClass o cls j k ∧ ∃ m ∈ k.methods, m.name = name
  classNotFound : ∀ cls name, locate (.method cls name) = .error (.classNotFound cls file) ↔
    ∀ k ∈ o.classes, ¬ GoesBy k.name cls
  methodNotFound : ∀ cls name, locate (.method cls name) = .error (.methodNotFound name cls file) ↔
    ∃ j k, IsClass o cls j k ∧ ∀ m ∈ k.methods, m.name ≠ name
  located : ∀ entry d, locate entry = .ok d → ∃ x, c.declarations[d]? = some x ∧ x.unit = unit
    ∧ c.Located unit o entry d ∧ (¬ entry.asksForDefault → x.displayName? = some entry.text)

theorem locate_function (hfile : c.projectTable? t file = some table) (name : String) :
    c.locate t file (.function name) =
      (table.functions.get? name).elim (.error (.functionNotFound name file)) .ok := by
  simp only [locate, hfile]
  cases table.functions.get? name <;> rfl

theorem locate_method (hfile : c.projectTable? t file = some table) (cls name : String) :
    c.locate t file (.method cls name) =
      (table.classes.get? cls).elim (.error (.classNotFound cls file)) fun number =>
        (c.ownMethod? number name).elim (.error (.methodNotFound name cls file)) .ok := by
  simp only [locate, hfile]
  cases table.classes.get? cls with
  | none => rfl
  | some number =>
    simp only [Option.elim_some]
    cases c.ownMethod? number name <;> rfl

theorem Placed.locate_method_eq_iff {result : Except Failure DeclarationId} (h : c.Placed b unit f)
    (ht : c.tables[unit]? = some table) (hfile : c.projectTable? t file = some table)
    (hresult : result ≠ .error (.classNotFound cls file)) :
    c.locate t file (.method cls name) = result ↔
      ∃ j k, IsClass f.2 cls j k
        ∧ (c.ownMethod? (b.classes.size + j) name).elim (.error (.methodNotFound name cls file)) .ok = result := by
  rw [locate_method hfile]
  constructor
  · intro heq
    cases hget : table.classes.get? cls with
    | none =>
      rw [hget] at heq
      exact absurd heq.symm hresult
    | some number =>
      obtain ⟨j, k, hk, rfl⟩ := (h.get?_classes ht).1 hget
      rw [hget] at heq
      exact ⟨j, k, hk, heq⟩
  · rintro ⟨j, k, hk, heq⟩
    rw [(h.get?_classes ht).2 ⟨j, k, hk, rfl⟩]
    exact heq

theorem Placed.locatesIn (h : c.Placed b unit f) (ht : c.tables[unit]? = some table)
    (hfile : c.projectTable? t file = some table) : c.LocatesIn file unit f.2 (c.locate t file) := by
  have hfunction : ∀ name d, c.locate t file (.function name) = .ok d ↔
      ∃ i g, IsFunction f.2 name i g ∧ d = b.declarations.size + i := by
    intro name d
    rw [locate_function hfile, ← h.get?_functions ht]
    cases table.functions.get? name <;> simp
  have hmethod : ∀ cls name d, c.locate t file (.method cls name) = .ok d ↔
      ∃ j k, IsClass f.2 cls j k ∧ c.ownMethod? (b.classes.size + j) name = some d := by
    intro cls name d
    rw [h.locate_method_eq_iff ht hfile (by simp)]
    refine exists₂_congr fun j k => and_congr_right fun _ => ?_
    cases c.ownMethod? (b.classes.size + j) name <;> simp
  constructor
  case function =>
    intro name
    rw [← exists_lastAt_iff]
    constructor
    · rintro ⟨d, hd⟩
      obtain ⟨i, g, hg, -⟩ := (hfunction name d).1 hd
      exact ⟨i, g, hg⟩
    · rintro ⟨i, g, hg⟩
      exact ⟨_, (hfunction name _).2 ⟨i, g, hg, rfl⟩⟩
  case functionNotFound =>
    intro name
    rw [locate_function hfile, ← h.get?_functions_eq_none ht]
    cases table.functions.get? name <;> simp
  case method =>
    intro cls name
    constructor
    · rintro ⟨d, hd⟩
      obtain ⟨j, k, hk, hown⟩ := (hmethod cls name d).1 hd
      obtain ⟨m, hm, hname, -⟩ := h.exists_method hk hown
      exact ⟨j, k, hk, m, hm, hname⟩
    · rintro ⟨j, k, hk, m, hm, hname⟩
      have hsome : c.ownMethod? (b.classes.size + j) name ≠ none := fun hnone =>
        (h.ownMethod?_eq_none hk).1 hnone m hm hname
      obtain ⟨d, hd⟩ := Option.ne_none_iff_exists'.1 hsome
      exact ⟨d, (hmethod cls name d).2 ⟨j, k, hk, hd⟩⟩
  case classNotFound =>
    intro cls name
    rw [locate_method hfile, ← h.get?_classes_eq_none ht]
    cases table.classes.get? cls with
    | none => simp
    | some number => cases hown : c.ownMethod? number name <;> simp [hown]
  case methodNotFound =>
    intro cls name
    rw [h.locate_method_eq_iff ht hfile (by simp)]
    refine exists₂_congr fun j k => and_congr_right fun hk => ?_
    rw [← h.ownMethod?_eq_none hk]
    cases c.ownMethod? (b.classes.size + j) name <;> simp
  case located =>
    intro entry d hd
    have hlocated : c.Located unit f.2 entry d := by
      cases entry with
      | function name =>
        obtain ⟨i, g, hg, rfl⟩ := (hfunction name d).1 hd
        exact .function hg (h.function hg.getElem?)
      | method cls name =>
        obtain ⟨j, k, hk, hown⟩ := (hmethod cls name d).1 hd
        obtain ⟨m, hm, hname, hside, hdeclared, hscope⟩ := h.exists_method hk hown
        refine .method hk hm hname hside ?_ hscope hdeclared
        rw [ht, Option.bind_some, (h.get?_classes ht).2 ⟨j, k, hk, rfl⟩]
    obtain ⟨x, hx, hunit, hname⟩ := hlocated.exists_declaration
    exact ⟨x, hx, hunit, hlocated, hname⟩

end Locate

section Loaded

variable {find : Path → String → Option Path} {follow : Path → Outline → List String} {start : List Path}
  {files : List Source}

theorem projectTable?_ofSources (hfiles : (files.map Prod.fst).Nodup) (hu : files[unit]? = some f)
    (hpath : t.canonicalize file = .ok f.1) (hstart : f.1 ∈ start) :
    (ofSources find follow start files).projectTable? t file =
      (ofSources find follow start files).tables[unit]? := by
  have hunit : (ofSources find follow start files).unitByPath.get? f.1 = some unit := by
    rw [(wellFormed_ofSources _ _ _ hfiles).unitByPath, paths_ofSources, List.getElem?_map, hu]
    rfl
  have hproject : (ofSources find follow start files).projectUnits.contains unit :=
    List.contains_iff_mem.2 (List.mem_filterMap.2 ⟨f.1, hstart, hunit⟩)
  rw [projectTable?, hpath]
  simp only [hunit, Option.bind_some, hproject, if_true]

theorem projectTable?_ofSources_eq_none (hfiles : (files.map Prod.fst).Nodup)
    (hnot : ∀ path ∈ start, t.canonicalize file ≠ .ok path) :
    (ofSources find follow start files).projectTable? t file = none := by
  have hwf : (ofSources find follow start files).WellFormed := wellFormed_ofSources _ _ _ hfiles
  rw [projectTable?]
  split
  · rfl
  · next path hpath =>
    refine Option.bind_eq_none_iff.2 fun u hu => if_neg fun hmem => ?_
    obtain ⟨other, hother, hget⟩ := List.mem_filterMap.1 (List.contains_iff_mem.1 hmem)
    have hsame := ((hwf.unitByPath path u).1 hu).symm.trans ((hwf.unitByPath other u).1 hget)
    exact hnot other hother (hpath.trans (congrArg Except.ok (Option.some.inj hsame)))

theorem locate_eq_fileNotInProject_iff {entry : EntryPoint} :
    c.locate t file entry = .error (.fileNotInProject file) ↔ c.projectTable? t file = none := by
  cases hfile : c.projectTable? t file with
  | none =>
    refine iff_of_true ?_ rfl
    simp only [locate, hfile]
    rfl
  | some table =>
    refine iff_of_false (fun heq => ?_) (Option.some_ne_none table)
    cases entry with
    | function name =>
      rw [locate_function hfile] at heq
      cases hget : table.functions.get? name <;> simp [hget] at heq
    | method cls name =>
      rw [locate_method hfile] at heq
      cases hget : table.classes.get? cls with
      | none => simp [hget] at heq
      | some number => cases hown : c.ownMethod? number name <;> simp [hget, hown] at heq

/-- Locating fails for all but the files of the project, and in those it comes to what the file itself
declares. -/
theorem locate_exact {settings : Path} (ht : t.root.isWellFormed) (h : load t settings = .ok c) :
    ∃ p, Project.load t settings = .ok p ∧ ∀ (now : FileTree) (file : Path),
      (∀ entry, c.locate now file entry = .error (.fileNotInProject file) ↔
        ∀ path ∈ p.paths, now.canonicalize file ≠ .ok path)
      ∧ ∀ path ∈ p.paths, now.canonicalize file = .ok path →
          ∃ unit o, c.paths[unit]? = some path ∧ Outline.ofFile t path = .ok o
            ∧ c.LocatesIn file unit o (c.locate now file) := by
  obtain ⟨p, files, hp, hread, -, rfl⟩ := exists_sources_of_load ht h
  have hin : ∀ (now : FileTree) (file path : Path), path ∈ p.paths → now.canonicalize file = .ok path →
      ∃ (unit : UnitId) (f : Source) (table : FileTable), files[unit]? = some f ∧ f.1 = path
        ∧ (ofSources (p.find? t) Loading.followed p.paths files).tables[unit]? = some table
        ∧ (ofSources (p.find? t) Loading.followed p.paths files).projectTable? now file = some table := by
    intro now file path hpath hcanonical
    obtain ⟨f, hf, rfl⟩ := List.mem_map.1 (hread.start hpath)
    obtain ⟨unit, hunit⟩ := List.getElem?_of_mem hf
    obtain ⟨modules, htable⟩ := (placed_ofSources (p.find? t) Loading.followed p.paths hread.nodup hunit).table
    refine ⟨unit, f, _, hunit, rfl, htable, ?_⟩
    rw [projectTable?_ofSources hread.nodup hunit hcanonical hpath, htable]
  refine ⟨p, hp, fun now file => ⟨fun entry => ?_, fun path hpath hcanonical => ?_⟩⟩
  · rw [locate_eq_fileNotInProject_iff]
    refine ⟨fun hnone path hpath hcanonical => ?_, projectTable?_ofSources_eq_none hread.nodup⟩
    obtain ⟨-, -, table, -, -, -, hfile⟩ := hin now file path hpath hcanonical
    rw [hfile] at hnone
    cases hnone
  · obtain ⟨unit, f, table, hunit, rfl, htable, hfile⟩ := hin now file path hpath hcanonical
    refine ⟨unit, f.2, ?_, hread.outlines f (List.mem_of_getElem? hunit),
      (placed_ofSources _ _ _ hread.nodup hunit).locatesIn htable hfile⟩
    rw [paths_ofSources, List.getElem?_map, hunit]
    rfl

def entries : FileTree where
  top := [("tsconfig.json", .file (.text "\x7b\"files\":[\"main.ts\"]\x7d")),
    ("main.ts", .file (.text
      ("import \x7b g \x7d from './b';\nclass A \x7b n() \x7b\x7d \x7d\nclass A \x7b static m() \x7b\x7d m() \x7b\x7d \x7d\n"
        ++ "class B extends A \x7b\x7d\nexport default function () \x7b\x7d"))),
    ("b.ts", .file (.text "export function g() \x7b\x7d"))]

theorem entries_located :
    ∃ c, load entries ⟨"tsconfig.json"⟩ = .ok c ∧ c.paths = [⟨"/main.ts"⟩, ⟨"/b.ts"⟩]
      ∧ (∃ d x, c.locate entries ⟨"main.ts"⟩ (.method "A" "m") = .ok d ∧ c.declarations[d]? = some x
        ∧ x.displayName? = some "A.m")
      ∧ c.locate entries ⟨"main.ts"⟩ (.method "A" "n") = .error (.methodNotFound "n" "A" ⟨"main.ts"⟩)
      ∧ c.locate entries ⟨"main.ts"⟩ (.method "B" "m") = .error (.methodNotFound "m" "B" ⟨"main.ts"⟩)
      ∧ c.locate entries ⟨"main.ts"⟩ (.method "C" "m") = .error (.classNotFound "C" ⟨"main.ts"⟩)
      ∧ (∃ d, c.locate entries ⟨"main.ts"⟩ (.function "default") = .ok d)
      ∧ c.locate entries ⟨"b.ts"⟩ (.function "g") = .error (.fileNotInProject ⟨"b.ts"⟩) := by
  have hload : ∃ c ∈ (load entries ⟨"tsconfig.json"⟩).toOption, c.paths = [⟨"/main.ts"⟩, ⟨"/b.ts"⟩] := by
    decide +kernel
  have hproject : ∃ p ∈ (Project.load entries ⟨"tsconfig.json"⟩).toOption, p.paths = [⟨"/main.ts"⟩] := by
    decide +kernel
  have houtline : ∃ o ∈ (Outline.ofFile entries ⟨"/main.ts"⟩).toOption,
      o.functions = [⟨none, 5, {}⟩]
      ∧ o.classes = [{ name := some "A", line := 2, methods := [⟨"n", false, 2, {}⟩] },
        { name := some "A", line := 3, methods := [⟨"m", true, 3, {}⟩, ⟨"m", false, 3, {}⟩] },
        { name := some "B", line := 4, base := some "A" }] := by
    decide +kernel
  obtain ⟨c, hc, hpaths⟩ := exists_ok_of_toOption hload
  obtain ⟨p, hp, hfiles⟩ := exists_ok_of_toOption hproject
  obtain ⟨o, ho, hfunctions, hclasses⟩ := exists_ok_of_toOption houtline
  obtain ⟨q, hq, hexact⟩ := locate_exact (by decide) hc
  obtain rfl := Except.ok.inj (hp.symm.trans hq)
  have hmain : entries.canonicalize ⟨"main.ts"⟩ = .ok ⟨"/main.ts"⟩ := by decide +kernel
  have hother : entries.canonicalize ⟨"b.ts"⟩ = .ok ⟨"/b.ts"⟩ := by decide +kernel
  obtain ⟨unit, o', -, ho', hlocates⟩ := (hexact entries ⟨"main.ts"⟩).2 ⟨"/main.ts"⟩ (by simp [hfiles]) hmain
  obtain rfl := Except.ok.inj (ho.symm.trans ho')
  have hA : IsClass o "A" 1 { name := some "A", line := 3, methods := [⟨"m", true, 3, {}⟩, ⟨"m", false, 3, {}⟩] } := by
    refine ⟨[_], [_], hclasses, rfl, .inl rfl, fun k hk => ?_⟩
    rw [List.mem_singleton.1 hk]
    rintro (hname | ⟨hnone, -⟩) <;> simp_all
  have hB : IsClass o "B" 2 { name := some "B", line := 4, base := some "A" } :=
    ⟨[_, _], [], hclasses, rfl, .inl rfl, fun k hk => absurd hk List.not_mem_nil⟩
  refine ⟨c, hc, hpaths, ?_, ?_, ?_, ?_, ?_, ?_⟩
  · obtain ⟨d, hd⟩ := (hlocates.method "A" "m").2 ⟨1, _, hA, _, List.mem_cons_self, rfl⟩
    obtain ⟨x, hx, -, -, hname⟩ := hlocates.located _ d hd
    exact ⟨d, x, hd, hx, hname (by simp [EntryPoint.asksForDefault, Outline.defaultName])⟩
  · exact (hlocates.methodNotFound "A" "n").2 ⟨1, _, hA, by simp⟩
  · exact (hlocates.methodNotFound "B" "m").2 ⟨2, _, hB, by simp⟩
  · exact (hlocates.classNotFound "C" "m").2 (by simp [hclasses, GoesBy, Outline.defaultName])
  · exact (hlocates.function "default").2 (by simp [hfunctions, GoesBy, Outline.defaultName])
  · exact ((hexact entries ⟨"b.ts"⟩).1 _).2 (by simp [hfiles, hother])

end Loaded

end Codebase

end CallDiagram
