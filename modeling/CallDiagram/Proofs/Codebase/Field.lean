import CallDiagram.Proofs.Codebase.Receiver

namespace CallDiagram.Codebase

variable {c : Codebase} {k j l cls d : ClassId} {caller : DeclarationId} {declaration : Declaration}
  {scope : Scope} {field property : String} {classes after rest : List ClassId}

def fieldType? (c : Codebase) (cls : ClassId) (field : String) : Option String :=
  c.classes[cls]?.bind fun entry => entry.fields.get? field

def declaredFieldClass? (c : Codebase) (cls : ClassId) (field : String) : Option ClassId :=
  c.classes[cls]?.bind fun entry => (entry.fields.get? field).bind (c.classNamed? entry.unit)

/-- Whether `j` is the first of some classes that has something to tell, with `rest` behind it. -/
def FirstTelling {α : Type} (tell : ClassId → Option α) (classes : List ClassId) (j : ClassId)
    (rest : List ClassId) : Prop :=
  ∃ before, classes = before ++ j :: rest ∧ (∀ i ∈ before, tell i = none) ∧ (tell j).isSome

theorem FirstTelling.findSome? {α : Type} {tell : ClassId → Option α}
    (h : FirstTelling tell classes j rest) : classes.findSome? tell = tell j := by
  obtain ⟨before, rfl, hbefore, hj⟩ := h
  obtain ⟨a, ha⟩ := Option.isSome_iff_exists.1 hj
  rw [List.findSome?_append, List.findSome?_eq_none_iff.2 hbefore, Option.none_or, List.findSome?_cons, ha]

theorem declaredFieldClass?_of_untyped (h : c.fieldType? cls field = none) :
    c.declaredFieldClass? cls field = none := by
  rw [declaredFieldClass?]
  cases he : c.classes[cls]? with
  | none => rfl
  | some entry =>
    have hfield : entry.fields.get? field = none := by rwa [fieldType?, he] at h
    rw [Option.bind_some, hfield]
    rfl

theorem fieldClass?_of_untyped (h : ∀ j ∈ c.classChain k, c.fieldType? j field = none) :
    c.fieldClass? k field = none :=
  List.findSome?_eq_none_iff.2 fun j hj => declaredFieldClass?_of_untyped (h j hj)

theorem fieldClass?_of_first (h : FirstTelling (c.fieldType? · field) (c.classChain k) j after) :
    c.fieldClass? k field =
      (c.declaredFieldClass? j field).or (after.findSome? (c.declaredFieldClass? · field)) := by
  obtain ⟨before, hchain, hbefore, -⟩ := h
  have hnone : before.findSome? (c.declaredFieldClass? · field) = none :=
    List.findSome?_eq_none_iff.2 fun i hi => declaredFieldClass?_of_untyped (hbefore i hi)
  change (c.classChain k).findSome? (c.declaredFieldClass? · field) = _
  rw [hchain, List.findSome?_append, hnone, Option.none_or, List.findSome?_cons]
  cases c.declaredFieldClass? j field <;> rfl

theorem definitions_thisField (hd : c.declarations[caller]? = some declaration)
    (hs : c.scopes[caller]? = some scope) (hcls : scope.cls = some k) (line : Nat) :
    c.definitions caller ⟨.member (.thisField field) property, line⟩ =
      (((c.fieldClass? k field).bind fun d => c.method? d property false).map
        Definition.callable).toList := by
  have hrefers : c.definitions caller ⟨.member (.thisField field) property, line⟩ =
      (c.memberSymbols declaration.unit scope property (.thisField field)).map Symbol.definition :=
    definitions_eq hd hs
  rw [hrefers, memberSymbols, map_definition_methodOf, hcls, Option.bind_some]

/-- A call of a method of a field, where the nearest class that gives the field a type is `j`. If that type
denotes a class, the call refers to the method of this class, whatever the types further up. If it denotes
none, the call refers to the method of the class that the next type denotes which denotes any, and to
nothing if there is no such type. Nor does it where no class gives the field a type. -/
theorem fieldCall_followsTypes (hd : c.declarations[caller]? = some declaration)
    (hs : c.scopes[caller]? = some scope) (hcls : scope.cls = some k) (field property : String)
    (line : Nat) :
    let refersTo := c.definitions caller ⟨.member (.thisField field) property, line⟩
    let methodsOf := fun d => ((c.method? d property false).map Definition.callable).toList
    (∀ j after, FirstTelling (c.fieldType? · field) (c.classChain k) j after →
        (∀ d, c.declaredFieldClass? j field = some d → refersTo = methodsOf d)
        ∧ (c.declaredFieldClass? j field = none →
          (∀ l rest d, FirstTelling (c.declaredFieldClass? · field) after l rest →
            c.declaredFieldClass? l field = some d → refersTo = methodsOf d)
          ∧ ((∀ l ∈ after, c.declaredFieldClass? l field = none) → refersTo = [])))
      ∧ ((∀ j ∈ c.classChain k, c.fieldType? j field = none) → refersTo = []) := by
  intro refersTo methodsOf
  have hrefers : refersTo = (((c.fieldClass? k field).bind fun d => c.method? d property false).map
      Definition.callable).toList := definitions_thisField hd hs hcls line
  refine ⟨fun j after hfirst => ?_, fun huntyped => ?_⟩
  case refine_2 =>
    rw [hrefers, fieldClass?_of_untyped huntyped]
    rfl
  rw [fieldClass?_of_first hfirst] at hrefers
  refine ⟨fun d hj => ?_, fun hj => ⟨fun l rest d hl hd => ?_, fun hnone => ?_⟩⟩
  · rw [hrefers, hj]
    rfl
  · rw [hrefers, hj, Option.none_or, hl.findSome?, hd]
    rfl
  · rw [hrefers, hj, Option.none_or, List.findSome?_eq_none_iff.2 hnone]
    rfl

def retyped : FileTree where
  top := [("tsconfig.json", .file (.text "\x7b\"files\":[\"main.ts\"]\x7d")),
    ("main.ts", .file (.text
      ("class X \x7b m() \x7b\x7d \x7d\nclass Z \x7b m() \x7b\x7d \x7d\ninterface Y \x7b m(): void \x7d\n"
        ++ "class Base \x7b f: X; g: Z; \x7d\n"
        ++ "class C extends Base \x7b f: Y; g: X; go() \x7b this.f.m(); \x7d \x7d")))]

theorem retyped_loads :
    ∃ c declaration scope, load retyped ⟨"tsconfig.json"⟩ = .ok c
      ∧ c.declarations[2]? = some declaration
      ∧ declaration.callSites = [⟨.member (.thisField "f") "m", 5⟩]
      ∧ c.scopes[2]? = some scope ∧ scope.cls = some 3 ∧ c.classChain 3 = [3, 2]
      ∧ c.fieldType? 3 "f" = some "Y" ∧ c.lookup 0 "Y" = [.other .interface]
      ∧ c.declaredFieldClass? 3 "f" = none ∧ c.declaredFieldClass? 2 "f" = some 0
      ∧ c.fieldType? 3 "g" = some "X" ∧ c.declaredFieldClass? 3 "g" = some 0
      ∧ c.method? 0 "m" false = some 0 := by
  have hload : ∃ c ∈ (load retyped ⟨"tsconfig.json"⟩).toOption,
      c.declarations[2]?.map Declaration.callSites = some [⟨.member (.thisField "f") "m", 5⟩]
      ∧ c.scopes[2]?.map Scope.cls = some (some 3)
      ∧ c.declaredBase? 3 = some 2 ∧ c.declaredBase? 2 = none ∧ 2 < c.classes.size
      ∧ c.fieldType? 3 "f" = some "Y" ∧ c.lookup 0 "Y" = [.other .interface]
      ∧ c.declaredFieldClass? 3 "f" = none ∧ c.declaredFieldClass? 2 "f" = some 0
      ∧ c.fieldType? 3 "g" = some "X" ∧ c.declaredFieldClass? 3 "g" = some 0
      ∧ c.declaredMethod? 0 "m" false = some 0 := by
    decide +kernel
  obtain ⟨c, hc, hd, hs, hbase, hlast, hsize, hf, hy, hfnone, hfbase, hg, hgown, hown⟩ :=
    exists_ok_of_toOption hload
  obtain ⟨declaration, hd, hsites⟩ := Option.map_eq_some_iff.1 hd
  obtain ⟨scope, hs, hcls⟩ := Option.map_eq_some_iff.1 hs
  have hchain : c.classChain 3 = [3, 2] := by
    rw [classChain, chainFrom_of_some hbase, if_pos ⟨hsize, by decide⟩, chainFrom_of_none hlast]
    rfl
  have hmethod : c.method? 0 "m" false = some 0 := by rw [method?_eq_or, hown, Option.some_or]
  exact ⟨c, declaration, scope, hc, hd, hsites, hs, hcls, hchain, hf, hy, hfnone, hfbase, hg, hgown,
    hmethod⟩

theorem retyped_followsTypes :
    ∃ c scope, load retyped ⟨"tsconfig.json"⟩ = .ok c ∧ c.scopes[2]? = some scope ∧ scope.cls = some 3
      ∧ FirstTelling (c.fieldType? · "f") (c.classChain 3) 3 [2]
      ∧ FirstTelling (c.fieldType? · "g") (c.classChain 3) 3 [2]
      ∧ FirstTelling (c.declaredFieldClass? · "f") [2] 2 []
      ∧ c.definitions 2 ⟨.member (.thisField "f") "m", 5⟩ = [.callable 0]
      ∧ c.definitions 2 ⟨.member (.thisField "g") "m", 5⟩ = [.callable 0] := by
  obtain ⟨c, declaration, scope, hc, hd, -, hs, hcls, hchain, hf, -, hfnone, hfbase, hg, hgown, hmethod⟩ :=
    retyped_loads
  have hfirst : FirstTelling (c.fieldType? · "f") (c.classChain 3) 3 [2] :=
    ⟨[], hchain, by simp, by simp [hf]⟩
  have hfirst' : FirstTelling (c.fieldType? · "g") (c.classChain 3) 3 [2] :=
    ⟨[], hchain, by simp, by simp [hg]⟩
  have hnext : FirstTelling (c.declaredFieldClass? · "f") [2] 2 [] :=
    ⟨[], rfl, by simp, by simp [hfbase]⟩
  have hcall := ((fieldCall_followsTypes hd hs hcls "f" "m" 5).1 3 [2] hfirst).2 hfnone
  have hcall' := ((fieldCall_followsTypes hd hs hcls "g" "m" 5).1 3 [2] hfirst').1 0 hgown
  have hmethods : ((c.method? 0 "m" false).map Definition.callable).toList = [.callable 0] := by
    rw [hmethod]
    rfl
  exact ⟨c, scope, hc, hs, hcls, hfirst, hfirst', hnext, (hcall.1 2 [] 0 hnext hfbase).trans hmethods,
    hcall'.trans hmethods⟩

/-- The nearest type of the field denotes no class, and the call is followed to a method all the same. -/
theorem retyped_followsFarther :
    ∃ c declaration scope, load retyped ⟨"tsconfig.json"⟩ = .ok c
      ∧ c.declarations[2]? = some declaration
      ∧ ⟨.member (.thisField "f") "m", 5⟩ ∈ declaration.callSites
      ∧ c.scopes[2]? = some scope ∧ scope.cls = some 3 ∧ c.classChain 3 = [3, 2]
      ∧ c.fieldType? 3 "f" = some "Y" ∧ c.lookup 0 "Y" = [.other .interface]
      ∧ c.declaredFieldClass? 3 "f" = none
      ∧ c.definitions 2 ⟨.member (.thisField "f") "m", 5⟩ = [.callable 0] := by
  obtain ⟨c, declaration, scope, hc, hd, hsites, hs, hcls, hchain, hf, hy, hfnone, hfbase, -, -, hmethod⟩ :=
    retyped_loads
  have hfirst : FirstTelling (c.fieldType? · "f") (c.classChain 3) 3 [2] :=
    ⟨[], hchain, by simp, by simp [hf]⟩
  have hfield : c.fieldClass? 3 "f" = some 0 := by
    rw [fieldClass?_of_first hfirst, hfnone, Option.none_or, List.findSome?_singleton, hfbase]
  refine ⟨c, declaration, scope, hc, hd, hsites ▸ List.mem_singleton_self _, hs, hcls, hchain, hf, hy,
    hfnone, ?_⟩
  rw [definitions_thisField hd hs hcls, hfield, Option.bind_some, hmethod]
  rfl

end CallDiagram.Codebase
