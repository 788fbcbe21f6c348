import CallDiagram.Proofs.Codebase.Receiver

namespace CallDiagram.Codebase

variable {c d : Codebase} {k cls : ClassId} {i : DeclarationId} {name property : String} {isStatic : Bool}

structure IsMethod (c : Codebase) (k : ClassId) (name : String) (isStatic : Bool) (i : DeclarationId) :
    Prop where
  declaration : ∃ x, c.declarations[i]? = some x ∧ x.kind = .method ∧ x.name = some name
  scope : ∃ s, c.scopes[i]? = some s ∧ s.cls = some k ∧ s.isStatic = isStatic

def HasMethod (c : Codebase) (cls : ClassId) (name : String) (isStatic : Bool) (i : DeclarationId) :
    Prop :=
  ∃ k ∈ c.classChain cls, c.IsMethod k name isStatic i

theorem IsMethod.extend (h : c.IsMethod k name isStatic i) (hcd : c.Extends d) :
    d.IsMethod k name isStatic i := by
  obtain ⟨x, hx, hkind⟩ := h.declaration
  obtain ⟨s, hs, hside⟩ := h.scope
  exact ⟨⟨x, hcd.declarations hx, hkind⟩, ⟨s, hcd.scopes hs, hside⟩⟩

structure Sided (c : Codebase) : Prop where
  methods : ∀ {k : ClassId} {e name isStatic i}, c.classes[k]? = some e →
    e.methods.get? (name, isStatic) = some i → c.IsMethod k name isStatic i
  functions : ∀ {u : UnitId} {t n i}, c.tables[u]? = some t → t.functions.get? n = some i →
    ∃ x, c.declarations[i]? = some x ∧ x.kind = .function
  outside : ∀ {i : DeclarationId} {x s}, c.declarations[i]? = some x → c.scopes[i]? = some s →
    (x.kind = .function ↔ s.cls = none)

namespace Sided

theorem empty : ({} : Codebase).Sided := by
  constructor <;> simp

section AddFile

variable {path : Path} {foreign : Bool} {o : Outline}

variable (path) (foreign) in
theorem getElem?_addFile (hsize : c.scopes.size = c.declarations.size) {p : Nat} {draft : Draft}
    (h : (drafts c.units.size c.classes.size o)[p]? = some draft) :
    (c.addFile path foreign o).declarations[c.declarations.size + p]?
        = some (draft.1 (c.declarations.size + p))
      ∧ (c.addFile path foreign o).scopes[c.declarations.size + p]? = some draft.2 := by
  rw [getElem?_declarations_addFile, getElem?_scopes_addFile, hsize]
  simp [h]

theorem addFile (h : c.Sided) (hsize : c.scopes.size = c.declarations.size) (path : Path)
    (foreign : Bool) (o : Outline) : (c.addFile path foreign o).Sided := by
  have hextends := Extends.addFile c path foreign o
  constructor
  case methods =>
    intro k e name isStatic i he hi
    rw [getElem?_classes_addFile] at he
    split at he
    · exact (h.methods he hi).extend hextends
    · next hk =>
      obtain ⟨p, container, m, rfl, hdraft, hkey⟩ :=
        exists_draft_of_classEntries _ c.classes.size he hi
      rw [Nat.add_sub_of_le (Nat.le_of_not_lt hk)] at hdraft
      obtain ⟨rfl, rfl⟩ := Prod.mk.inj hkey
      have hnew : (drafts c.units.size c.classes.size o)[o.functions.length + p]? =
          some (methodDraft c.units.size k container m) := by
        rw [drafts, List.getElem?_append_right (by simp), List.length_map, Nat.add_sub_cancel_left, hdraft]
      obtain ⟨hx, hs⟩ := getElem?_addFile path foreign hsize hnew
      rw [Nat.add_assoc]
      exact ⟨⟨_, hx, rfl, rfl⟩, ⟨_, hs, rfl, rfl⟩⟩
  case functions =>
    intro u t n i ht hi
    rw [getElem?_tables_addFile] at ht
    split at ht
    · cases ht
      obtain ⟨p, f, rfl, hdraft⟩ := exists_draft_of_fileTable c.units.size hi
      exact ⟨_, (getElem?_addFile path foreign hsize hdraft).1, rfl⟩
    · obtain ⟨x, hx, hkind⟩ := h.functions ht hi
      exact ⟨x, hextends.declarations hx, hkind⟩
  case outside =>
    intro i x s hx hs
    rw [getElem?_declarations_addFile] at hx
    rw [getElem?_scopes_addFile, hsize] at hs
    split at hx
    · next hi =>
      rw [if_pos hi] at hs
      exact h.outside hx hs
    · next hi =>
      rw [if_neg hi] at hs
      obtain ⟨draft, hdraft, rfl⟩ := Option.map_eq_some_iff.1 hx
      rw [hdraft] at hs
      cases hs
      rcases eq_draft_of_mem (List.mem_of_getElem? hdraft) with ⟨f, rfl⟩ | ⟨cls, container, m, rfl⟩
      · simp [functionDraft, functionDeclaration]
      · simp [methodDraft, methodDeclaration]

end AddFile

theorem gather {files : List Source} (h : (files.map Prod.fst).Nodup) : (gather files).Sided := by
  induction files using List.reverseRecOn with
  | nil => exact .empty
  | append_singleton files f ih =>
    rw [List.map_append, List.nodup_append] at h
    rw [gather_concat]
    exact (ih h.1).addFile (wellFormed_gather h.1).size_scopes f.1 f.1.isForeign f.2

theorem ofSources {files : List Source} (h : (files.map Prod.fst).Nodup)
    (find : Path → String → Option Path) (follow : Path → Outline → List String) (start : List Path) :
    (ofSources find follow start files).Sided where
  methods he hi := by
    obtain ⟨hx, hs⟩ := (gather h).methods he hi
    exact ⟨hx, hs⟩
  functions ht hi := by
    obtain ⟨f, t', -, ht', rfl⟩ := exists_table_gather h ht
    exact (gather h).functions ht' hi
  outside hx hs := (gather h).outside hx hs

theorem hasMethod (h : c.Sided) (hi : c.method? cls name isStatic = some i) :
    c.HasMethod cls name isStatic i := by
  obtain ⟨k, hk, hfound⟩ := List.exists_of_findSome?_eq_some hi
  obtain ⟨e, he, hmethod⟩ := Option.bind_eq_some_iff.1 hfound
  exact ⟨k, hk, h.methods he hmethod⟩

theorem function_of_mem_exported (h : c.Sided) {u : UnitId} (hi : .function i ∈ c.exported u name) :
    ∃ x, c.declarations[i]? = some x ∧ x.kind = .function := by
  obtain ⟨v, table, n, htable, hn⟩ := (derivable_of_mem_exported (q := (u, name)) hi).exists_function
  exact h.functions htable hn

end Sided

def AtMostOne (P : DeclarationId → Prop) (definitions : List Definition) : Prop :=
  definitions = [] ∨ ∃ i, definitions = [.callable i] ∧ P i

theorem AtMostOne.imp {P Q : DeclarationId → Prop} {definitions : List Definition}
    (h : AtMostOne P definitions) (hPQ : ∀ i, P i → Q i) : AtMostOne Q definitions := by
  rcases h with h | ⟨i, h, hi⟩
  · exact .inl h
  · exact .inr ⟨i, h, hPQ i hi⟩

namespace Sided

variable {unit w : UnitId} {scope : Scope} {receiver : Receiver} {typeName : String}

theorem methodOf_cases (h : c.Sided) (cls : Option ClassId) (name : String) (isStatic : Bool) :
    c.methodOf cls name isStatic = []
      ∨ ∃ i, c.methodOf cls name isStatic = [.function i]
        ∧ ∃ k, cls = some k ∧ c.HasMethod k name isStatic i := by
  rw [methodOf]
  cases hi : cls.bind fun k => c.method? k name isStatic with
  | none => exact .inl rfl
  | some i =>
    obtain ⟨k, hk, hmethod⟩ := Option.bind_eq_some_iff.1 hi
    exact .inr ⟨i, rfl, k, hk, h.hasMethod hmethod⟩

theorem atMostOne_methodOf (h : c.Sided) (cls : Option ClassId) (name : String) (isStatic : Bool) :
    AtMostOne (fun i => ∃ k, cls = some k ∧ c.HasMethod k name isStatic i)
      ((c.methodOf cls name isStatic).map Symbol.definition) := by
  rcases h.methodOf_cases cls name isStatic with hnone | ⟨i, hone, hmethod⟩
  · rw [hnone]
    exact .inl rfl
  · rw [hone]
    exact .inr ⟨i, rfl, hmethod⟩

theorem hasMethod_of_mem (h : c.Sided) {cls : Option ClassId}
    (hi : .function i ∈ c.methodOf cls name isStatic) :
    ∃ k, cls = some k ∧ c.HasMethod k name isStatic i := by
  rcases h.methodOf_cases cls name isStatic with hnone | ⟨j, hone, hmethod⟩
  · rw [hnone] at hi
    cases hi
  · rw [hone, List.mem_singleton] at hi
    obtain rfl := Symbol.function.inj hi
    exact hmethod

theorem atMostOne_this (h : c.Sided) (hcls : scope.cls = some cls) :
    AtMostOne (c.HasMethod cls property scope.isStatic)
      ((c.memberSymbols unit scope property .this).map Symbol.definition) := by
  refine (h.atMostOne_methodOf scope.cls property scope.isStatic).imp fun i hi => ?_
  obtain ⟨k, hk, hmethod⟩ := hi
  rwa [Option.some.inj (hcls.symm.trans hk)]

theorem atMostOne_super (h : c.Sided) (hcls : scope.cls = some cls) :
    AtMostOne (c.HasMethod cls property scope.isStatic)
      ((c.memberSymbols unit scope property .super).map Symbol.definition) := by
  refine (h.atMostOne_methodOf (scope.cls.bind c.base?) property scope.isStatic).imp fun i hi => ?_
  obtain ⟨b, hb, k, hk, hmethod⟩ := hi
  rw [hcls, Option.bind_some] at hb
  exact ⟨k, classChain_base_subset hb hk, hmethod⟩

theorem atMostOne_typed (h : c.Sided) (htype : c.TypedBy unit scope receiver w typeName) :
    AtMostOne (fun i => ∃ d, c.classNamed? w typeName = some d ∧ c.HasMethod d property false i)
      ((c.memberSymbols unit scope property receiver).map Symbol.definition) := by
  rw [htype.memberSymbols, head?_classesNamed]
  exact h.atMostOne_methodOf _ property false

theorem atMostOne_field (h : c.Sided) (field : String) :
    AtMostOne (fun i => ∃ w typeName d, c.TypedBy unit scope (.thisField field) w typeName
        ∧ c.classNamed? w typeName = some d ∧ c.HasMethod d property false i)
      ((c.memberSymbols unit scope property (.thisField field)).map Symbol.definition) := by
  refine (h.atMostOne_methodOf _ property false).imp fun i hi => ?_
  obtain ⟨d, hd, hmethod⟩ := hi
  obtain ⟨cls, hcls, hfield⟩ := Option.bind_eq_some_iff.1 hd
  obtain ⟨w, typeName, htype, hnamed⟩ := exists_typedBy_of_fieldClass? hcls hfield
  exact ⟨w, typeName, d, htype, hnamed, hmethod⟩

theorem hasMethod_of_ident (h : c.Sided) (hname : scope.bindings.get? name = none)
    (hi : .callable i ∈ (c.memberSymbols unit scope property (.ident name)).map Symbol.definition)
    {x : Declaration} (hx : c.declarations[i]? = some x) (hkind : x.kind = .method) :
    (∃ d, .cls d ∈ c.lookup unit name ∧ c.HasMethod d property true i)
      ∨ ∃ w v d, .variable w v ∈ c.lookup unit name ∧ c.variableClass? w v = some d
        ∧ c.HasMethod d property false i := by
  obtain ⟨found, hfound, hdefinition⟩ := List.mem_map.1 hi
  obtain rfl : found = .function i := by
    cases found <;> cases hdefinition
    rfl
  rw [memberSymbols, hname] at hfound
  obtain ⟨s, hs, hmember⟩ := List.mem_flatMap.1 (mem_dropRepeats.1 hfound)
  cases s with
  | cls d =>
    obtain ⟨k, hk, hmethod⟩ := h.hasMethod_of_mem hmember
    obtain rfl := Option.some.inj hk
    exact .inl ⟨d, hs, hmethod⟩
  | «variable» w v =>
    obtain ⟨d, hd, hmethod⟩ := h.hasMethod_of_mem hmember
    exact .inr ⟨w, v, d, hs, hd, hmethod⟩
  | module v =>
    obtain ⟨y, hy, hfunction⟩ := h.function_of_mem_exported hmember
    rw [Option.some.inj (hx.symm.trans hy), hfunction] at hkind
    cases hkind
  | function j => cases hmember
  | other kind => cases hmember

end Sided

section Loaded

variable {t : FileTree} {settings : Path} {caller : DeclarationId} {declaration : Declaration}
  {scope : Scope}

/-- In a loaded project, no call leads to the other side of a class. By `this` and `super` a method calls
methods of its own side, along the chain of its class, and a function calls nothing; a receiver of a known
type gives a method of the objects of that type; any other name gives static methods, where it stands for a
class, and methods of objects, where it stands for a variable. -/
theorem load_keepsSides (ht : t.root.isWellFormed) (h : load t settings = .ok c)
    (hd : c.declarations[caller]? = some declaration) (hs : c.scopes[caller]? = some scope)
    (property : String) (line : Nat) :
    let refersTo := fun receiver => c.definitions caller ⟨.member receiver property, line⟩
    (declaration.kind = .function ↔ scope.cls = none)
      ∧ (scope.cls = none → refersTo .this = [] ∧ refersTo .super = [])
      ∧ (∀ cls, scope.cls = some cls → ∀ receiver ∈ [Receiver.this, .super],
          AtMostOne (c.HasMethod cls property scope.isStatic) (refersTo receiver))
      ∧ (∀ field, AtMostOne (fun i => ∃ w typeName d,
          c.TypedBy declaration.unit scope (.thisField field) w typeName
            ∧ c.classNamed? w typeName = some d ∧ c.HasMethod d property false i)
          (refersTo (.thisField field)))
      ∧ (∀ name typeName, scope.bindings.get? name = some typeName →
          AtMostOne (fun i => ∃ d, c.classNamed? declaration.unit typeName = some d
            ∧ c.HasMethod d property false i) (refersTo (.ident name)))
      ∧ ∀ name, scope.bindings.get? name = none → ∀ i x, .callable i ∈ refersTo (.ident name) →
          c.declarations[i]? = some x → x.kind = .method →
            (∃ d, .cls d ∈ c.lookup declaration.unit name ∧ c.HasMethod d property true i)
              ∨ ∃ w v d, .variable w v ∈ c.lookup declaration.unit name
                ∧ c.variableClass? w v = some d ∧ c.HasMethod d property false i := by
  obtain ⟨p, files, -, hread, -, rfl⟩ := exists_sources_of_load ht h
  have hsided := Sided.ofSources hread.nodup (p.find? t) Loading.followed p.paths
  intro refersTo
  have hrefers : ∀ receiver, refersTo receiver =
      (memberSymbols _ declaration.unit scope property receiver).map Symbol.definition :=
    fun receiver => definitions_eq hd hs
  simp only [hrefers]
  refine ⟨hsided.outside hd hs, ?_, ?_, hsided.atMostOne_field, ?_, ?_⟩
  · intro hcls
    simp [memberSymbols, methodOf, hcls]
  · intro cls hcls
    simp only [List.forall_mem_cons, List.not_mem_nil, false_imp_iff, implies_true, and_true]
    exact ⟨hsided.atMostOne_this hcls, hsided.atMostOne_super hcls⟩
  · exact fun name typeName hbound => hsided.atMostOne_typed (.bound hbound)
  · exact fun name hname i x hi hx hkind => hsided.hasMethod_of_ident hname hi hx hkind

def bothSides : FileTree where
  top := [("tsconfig.json", .file (.text "\x7b\"files\":[\"main.ts\"]\x7d")),
    ("main.ts", .file (.text
      ("class A \x7b m() \x7b\x7d static m() \x7b\x7d \x7d\n"
        ++ "class B extends A \x7b static go() \x7b super.m(); \x7d \x7d")))]

theorem bothSides_keepsSides :
    ∃ c scope, load bothSides ⟨"tsconfig.json"⟩ = .ok c ∧ c.scopes[2]? = some scope
      ∧ scope.cls = some 1 ∧ scope.isStatic = true
      ∧ c.definitions 2 ⟨.member .super "m", 2⟩ = [.callable 1] ∧ c.HasMethod 1 "m" true 1 := by
  have hload : ∃ c ∈ (load bothSides ⟨"tsconfig.json"⟩).toOption,
      c.declarations[2]?.isSome ∧ c.scopes[2]?.map (fun s => (s.cls, s.isStatic)) = some (some 1, true)
      ∧ c.declaredBase? 1 = some 0 ∧ 0 < c.classes.size ∧ c.declaredMethod? 0 "m" true = some 1 := by
    decide +kernel
  obtain ⟨c, hc, hd, hs, hbase, hsize, hown⟩ := exists_ok_of_toOption hload
  obtain ⟨declaration, hd⟩ := Option.isSome_iff_exists.1 hd
  obtain ⟨scope, hs, hscope⟩ := Option.map_eq_some_iff.1 hs
  obtain ⟨hcls, hside⟩ := Prod.mk.inj hscope
  have hsuper : c.definitions 2 ⟨.member .super "m", 2⟩ = [.callable 1] := by
    have hbase : c.base? 1 = some 0 := base?_eq_some_iff.2 ⟨hbase, hsize, by decide⟩
    have hmethod : c.method? 0 "m" true = some 1 := by rw [method?_eq_or, hown, Option.some_or]
    have hrefers : c.definitions 2 ⟨.member .super "m", 2⟩ =
        (c.memberSymbols declaration.unit scope "m" .super).map Symbol.definition := definitions_eq hd hs
    rw [hrefers, memberSymbols, map_definition_methodOf, hcls, hside]
    simp [hbase, hmethod]
  obtain ⟨-, -, hown, -⟩ := load_keepsSides (by decide) hc hd hs "m" 2
  have hone : AtMostOne (c.HasMethod 1 "m" scope.isStatic) (c.definitions 2 ⟨.member .super "m", 2⟩) :=
    hown 1 hcls .super (by simp)
  rw [hsuper, hside] at hone
  rcases hone with hnone | ⟨i, hi, hmethod⟩
  · cases hnone
  · cases hi
    exact ⟨c, scope, hc, hs, hcls, hside, hsuper, hmethod⟩

end Loaded

end CallDiagram.Codebase
