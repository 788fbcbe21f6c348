import CallDiagram.Codebase.Member
import CallDiagram.Proofs.Call.Callees
import CallDiagram.Proofs.Codebase.Sources
import CallDiagram.Proofs.Diagram.Drawn
import CallDiagram.Proofs.Lookup.Answer
import CallDiagram.Proofs.Renumbering.Member

/-!
Calls that may refer to several things. A plain name, and a receiver without a type, keep all that they
may refer to, so that a call of several is dropped. The type of a receiver is one class from the start:
of several that its name denotes, the first decides, and the call is followed if that class alone has
the method.
-/

namespace CallDiagram.Codebase

variable {c : Codebase} {unit w : UnitId} {k : ClassId} {caller d : DeclarationId} {site : CallSite}
  {declaration : Declaration} {scope : Scope} {receiver : Receiver} {name typeName property : String}

def classesNamed (c : Codebase) (unit : UnitId) (typeName : String) : List ClassId :=
  (c.lookup unit typeName).filterMap fun
    | .cls cls => some cls
    | _ => none

theorem head?_classesNamed : (c.classesNamed unit typeName).head? = c.classNamed? unit typeName :=
  List.head?_filterMap

theorem mem_classesNamed : k ∈ c.classesNamed unit typeName ↔ .cls k ∈ c.lookup unit typeName := by
  rw [classesNamed, List.mem_filterMap]
  constructor
  · rintro ⟨s, hs, hk⟩
    cases s <;> cases hk
    exact hs
  · exact fun h => ⟨.cls k, h, rfl⟩

/-- The type of a receiver is a name that some file writes: the type of a variable, in the file of the
call, or the type of a field, in the file of the nearest class where it denotes a class. -/
inductive TypedBy (c : Codebase) (unit : UnitId) (scope : Scope) : Receiver → UnitId → String → Prop
  | bound {name typeName : String} :
    scope.bindings.get? name = some typeName → TypedBy c unit scope (.ident name) unit typeName
  | field {field typeName : String} {cls k : ClassId} {before after : List ClassId} {entry : ClassEntry} :
    scope.cls = some cls → c.classChain cls = before ++ k :: after →
      (∀ j ∈ before, ∀ e, c.classes[j]? = some e → ∀ other, e.fields.get? field = some other →
        c.classesNamed e.unit other = []) →
      c.classes[k]? = some entry → entry.fields.get? field = some typeName →
      c.classesNamed entry.unit typeName ≠ [] →
        TypedBy c unit scope (.thisField field) entry.unit typeName

theorem TypedBy.memberSymbols (h : c.TypedBy unit scope receiver w typeName) :
    c.memberSymbols unit scope property receiver =
      c.methodOf (c.classesNamed w typeName).head? property false := by
  cases h with
  | bound hbound => simp only [Codebase.memberSymbols, hbound, head?_classesNamed]
  | @field field typeName cls k before after entry hcls hchain hbefore hentry htype hsome =>
    obtain ⟨first, hfirst⟩ : ∃ first, c.classNamed? entry.unit typeName = some first := by
      rw [← head?_classesNamed]
      exact Option.ne_none_iff_exists'.1 (mt List.head?_eq_none_iff.1 hsome)
    have hfield : c.fieldClass? cls field = some first := by
      refine List.findSome?_eq_some_iff.2 ⟨before, k, after, hchain, ?_, fun j hj => ?_⟩
      · rw [hentry, Option.bind_some, htype, Option.bind_some, hfirst]
      · rw [Option.bind_eq_none_iff]
        intro e he
        rw [Option.bind_eq_none_iff]
        intro other hother
        rw [← head?_classesNamed, hbefore j hj e he other hother]
        rfl
    simp only [Codebase.memberSymbols, hcls, Option.bind_some, hfield, head?_classesNamed, hfirst]

theorem exists_typedBy_of_fieldClass? {cls d : ClassId} {field : String} (hcls : scope.cls = some cls)
    (h : c.fieldClass? cls field = some d) :
    ∃ w typeName, c.TypedBy unit scope (.thisField field) w typeName ∧ c.classNamed? w typeName = some d := by
  obtain ⟨before, k, after, hchain, hk, hbefore⟩ := List.findSome?_eq_some_iff.1 h
  obtain ⟨entry, hentry, hfield⟩ := Option.bind_eq_some_iff.1 hk
  obtain ⟨typeName, htype, hd⟩ := Option.bind_eq_some_iff.1 hfield
  refine ⟨entry.unit, typeName, .field hcls hchain ?_ hentry htype ?_, hd⟩
  · intro j hj e he other hother
    have hnone := hbefore j hj
    rw [he, Option.bind_some, hother, Option.bind_some, ← head?_classesNamed] at hnone
    exact List.head?_eq_none_iff.1 hnone
  · intro hnil
    rw [← head?_classesNamed, hnil] at hd
    cases hd

theorem definitions_eq (hd : c.declarations[caller]? = some declaration)
    (hs : c.scopes[caller]? = some scope) :
    c.resolver.definitions caller site = c.calleeDefinitions declaration.unit scope site.callee := by
  change c.definitions caller site = _
  rw [definitions, hd, hs]

theorem target?_name (hd : c.declarations[caller]? = some declaration)
    (hs : c.scopes[caller]? = some scope) (hsite : site.callee = .name name)
    (h : c.resolver.target? caller site = some d) : c.lookup declaration.unit name = [.function d] := by
  obtain ⟨-, hdefs⟩ := Resolver.target?_eq_some_iff.1 h
  rw [definitions_eq hd hs, hsite, calleeDefinitions] at hdefs
  split at hdefs
  · cases hdefs
  · obtain ⟨s, hlookup, hs⟩ := List.map_eq_singleton_iff.1 hdefs
    rw [hlookup]
    cases s <;> cases hs
    rfl

theorem target?_untyped (hd : c.declarations[caller]? = some declaration)
    (hs : c.scopes[caller]? = some scope) (hsite : site.callee = .member (.ident name) property)
    (hname : scope.bindings.get? name = none) (h : c.resolver.target? caller site = some d) :
    ∀ s ∈ (c.lookup declaration.unit name).flatMap (c.memberOf property), s = .function d := by
  obtain ⟨-, hdefs⟩ := Resolver.target?_eq_some_iff.1 h
  rw [definitions_eq hd hs, hsite, calleeDefinitions, Codebase.memberSymbols] at hdefs
  simp only [hname] at hdefs
  obtain ⟨one, hone, hs⟩ := List.map_eq_singleton_iff.1 hdefs
  intro s hmem
  rw [← mem_dropRepeats, hone, List.mem_singleton] at hmem
  subst hmem
  cases s <;> cases hs
  rfl

theorem target?_typed (hd : c.declarations[caller]? = some declaration)
    (hs : c.scopes[caller]? = some scope) (hsite : site.callee = .member receiver property)
    (htype : c.TypedBy declaration.unit scope receiver w typeName) :
    c.resolver.target? caller site =
      (c.classesNamed w typeName).head?.bind fun k => c.method? k property false := by
  have hdefs : c.resolver.definitions caller site =
      (((c.classesNamed w typeName).head?.bind fun k => c.method? k property false).map
        Definition.callable).toList := by
    rw [definitions_eq hd hs, hsite, calleeDefinitions, htype.memberSymbols, map_definition_methodOf]
  ext d
  rw [Resolver.target?_eq_some_iff, hdefs, hsite]
  cases (c.classesNamed w typeName).head?.bind fun k => c.method? k property false with
  | none => simp
  | some i => simp [Callee.lookupName?]

/-- All classes that a type name denotes have the same method of a name, or all have none. -/
def MethodsAgree (c : Codebase) (unit : UnitId) (typeName property : String) : Prop :=
  ∀ k ∈ c.classesNamed unit typeName, ∀ l ∈ c.classesNamed unit typeName,
    c.method? k property false = c.method? l property false

/-- Where a call may refer to several things, a plain name and a receiver without a type drop it. The
type of a receiver is taken for the first class that it denotes: where the classes agree, the call is
followed to what they have, and where they do not, it is dropped only if the first one has nothing. -/
theorem ambiguous_receiver_first (hd : c.declarations[caller]? = some declaration)
    (hs : c.scopes[caller]? = some scope) :
    (∀ site name d, site.callee = .name name → c.resolver.target? caller site = some d →
        c.lookup declaration.unit name = [.function d])
      ∧ (∀ site name property d, site.callee = .member (.ident name) property →
          scope.bindings.get? name = none → c.resolver.target? caller site = some d →
            ∀ s ∈ (c.lookup declaration.unit name).flatMap (c.memberOf property), s = .function d)
      ∧ (∀ site receiver property w typeName, site.callee = .member receiver property →
          c.TypedBy declaration.unit scope receiver w typeName →
            (∀ d, c.resolver.target? caller site = some d →
                ∃ k, c.Derivable (.name w typeName) (.cls k) ∧ c.method? k property false = some d)
            ∧ (c.MethodsAgree w typeName property → ∀ k ∈ c.classesNamed w typeName,
                c.resolver.target? caller site = c.method? k property false)
            ∧ (¬ c.MethodsAgree w typeName property → (c.resolver.target? caller site = none ↔
                ∃ k, (c.classesNamed w typeName).head? = some k ∧ c.method? k property false = none)))
      ∧ ∀ root d, (caller, d) ∈ (c.resolver.trace root).edges ↔ c.resolver.Reaches root caller
          ∧ ∃ site ∈ declaration.callSites, c.resolver.target? caller site = some d := by
  refine ⟨fun site name d hsite => target?_name hd hs hsite,
    fun site name property d hsite hname => target?_untyped hd hs hsite hname, ?_, ?_⟩
  · intro site receiver property w typeName hsite htype
    have htarget := target?_typed hd hs hsite htype
    refine ⟨fun d h => ?_, fun hagree k hk => ?_, fun hagree => ?_⟩
    · obtain ⟨k, hk, hmethod⟩ := Option.bind_eq_some_iff.1 (htarget.symm.trans h)
      have hmem := mem_classesNamed.1 (List.mem_of_mem_head? hk)
      exact ⟨k, derivable_of_mem_lookup hmem, hmethod⟩
    · obtain ⟨first, hfirst⟩ := Option.ne_none_iff_exists'.1
        (mt List.head?_eq_none_iff.1 (List.ne_nil_of_mem hk))
      rw [htarget, hfirst, Option.bind_some]
      exact hagree first (List.mem_of_mem_head? hfirst) k hk
    · cases hfirst : (c.classesNamed w typeName).head? with
      | none =>
        refine absurd (fun k hk => ?_) hagree
        rw [List.head?_eq_none_iff.1 hfirst] at hk
        cases hk
      | some first => simp [htarget, hfirst]
  · intro root d
    rw [Resolver.mem_edges_trace, Resolver.mem_directCallees_iff (r := c.resolver) hd]

section Barrel

theorem method?_of_none {isStatic : Bool} {own : Option DeclarationId} (h : c.declaredBase? k = none)
    (hown : c.classes[k]?.map (fun e => e.methods.get? (name, isStatic)) = some own) :
    c.method? k name isStatic = own := by
  obtain ⟨e, he, rfl⟩ := Option.map_eq_some_iff.1 hown
  rw [method?, classChain, chainFrom_of_none h]
  simp [he]

def classFile (path : Path) (methods : List MethodOutline) : Source :=
  (path, { classes := [{ name := some "X", line := 1, methods }], exports := [.local "X" "X"] })

def barrelFiles (main : Outline) (first second : List MethodOutline) : List Source :=
  [(⟨"/main.ts"⟩, { main with imports := [⟨"X", "./barrel", .named "X"⟩] }),
    (⟨"/barrel.ts"⟩, { exports := [.all "./a", .all "./b"] }),
    classFile ⟨"/a.ts"⟩ first, classFile ⟨"/b.ts"⟩ second]

def barrel (main : Outline) (first second : List MethodOutline) : Codebase :=
  let paths := [("./barrel", ⟨"/barrel.ts"⟩), ("./a", ⟨"/a.ts"⟩), ("./b", ⟨"/b.ts"⟩)]
  ofSources (fun _ source => paths.lookup source)
    (fun _ o => o.imports.map ImportBinding.source ++ o.exports.filterMap ExportEntry.source?)
    [⟨"/main.ts"⟩] (barrelFiles main first second)

def fieldCall : CallSite := ⟨.member (.thisField "f") "m", 4⟩

def secondMethod : Codebase :=
  let go : MethodOutline := ⟨"go", false, 4, { callSites := [fieldCall] }⟩
  barrel { classes := [{ name := some "C", line := 2, fields := [("f", "X")], methods := [go] }] } []
    [⟨"m", false, 1, {}⟩]

theorem secondMethod_dropped :
    ∃ declaration scope, secondMethod.declarations[0]? = some declaration
      ∧ secondMethod.scopes[0]? = some scope
      ∧ secondMethod.TypedBy declaration.unit scope (.thisField "f") 0 "X"
      ∧ ¬ secondMethod.MethodsAgree 0 "X" "m" ∧ secondMethod.resolver.target? 0 fieldCall = none := by
  have hlone : secondMethod.declaredBase? 0 = none ∧ secondMethod.declaredBase? 1 = none
      ∧ secondMethod.declaredBase? 2 = none := by decide +kernel
  have hclasses : secondMethod.classesNamed 0 "X" = [1, 2] := by decide +kernel
  have hfirst : secondMethod.method? 1 "m" false = none :=
    method?_of_none hlone.2.1 (by decide +kernel)
  have hsecond : secondMethod.method? 2 "m" false = some 1 :=
    method?_of_none hlone.2.2 (by decide +kernel)
  obtain ⟨declaration, hd⟩ : ∃ x, secondMethod.declarations[0]? = some x := ⟨_, rfl⟩
  obtain ⟨scope, hs, hcls⟩ : ∃ s, secondMethod.scopes[0]? = some s ∧ s.cls = some 0 := ⟨_, rfl, rfl⟩
  obtain ⟨entry, hentry, hunit, hfield⟩ : ∃ e, secondMethod.classes[0]? = some e ∧ e.unit = 0
      ∧ e.fields.get? "f" = some "X" := ⟨_, rfl, rfl, rfl⟩
  have htype : secondMethod.TypedBy declaration.unit scope (.thisField "f") 0 "X" := by
    have hchain : secondMethod.classChain 0 = [] ++ 0 :: [] := chainFrom_of_none hlone.1
    rw [← hunit]
    exact .field hcls hchain (by simp) hentry hfield (by rw [hunit, hclasses]; simp)
  have hagree : ¬ secondMethod.MethodsAgree 0 "X" "m" := by
    intro h
    have := h 1 (by rw [hclasses]; simp) 2 (by rw [hclasses]; simp)
    rw [hfirst, hsecond] at this
    cases this
  obtain ⟨-, -, htyped, -⟩ := ambiguous_receiver_first hd hs
  obtain ⟨-, -, hdropped⟩ := htyped fieldCall _ _ _ _ rfl htype
  exact ⟨declaration, scope, hd, hs, htype, hagree,
    (hdropped hagree).2 ⟨1, by rw [hclasses]; rfl, hfirst⟩⟩

def boundCall : CallSite := ⟨.member (.ident "x") "m", 2⟩

def twoMethods : Codebase :=
  let main : FunctionOutline := ⟨some "main", 2, { callSites := [boundCall], bindings := [("x", "X")] }⟩
  barrel { functions := [main] } [⟨"m", false, 1, {}⟩] [⟨"m", false, 1, {}⟩]

/-- Both classes that the type of the receiver denotes have the method, and the call is followed to that of
the first one. -/
theorem twoMethods_guessed :
    twoMethods.WellFormed
      ∧ ∃ declaration scope, twoMethods.declarations[0]? = some declaration
        ∧ twoMethods.scopes[0]? = some scope ∧ boundCall ∈ declaration.callSites
        ∧ twoMethods.TypedBy declaration.unit scope (.ident "x") declaration.unit "X"
        ∧ twoMethods.classesNamed declaration.unit "X" = [0, 1]
        ∧ twoMethods.method? 0 "m" false = some 1 ∧ twoMethods.method? 1 "m" false = some 2
        ∧ twoMethods.definitions 0 boundCall = [.callable 1]
        ∧ (0, 1) ∈ (twoMethods.resolver.trace 0).edges := by
  have hlone : twoMethods.declaredBase? 0 = none ∧ twoMethods.declaredBase? 1 = none := by decide +kernel
  have hclasses : twoMethods.classesNamed 0 "X" = [0, 1] := by decide +kernel
  have hfirst : twoMethods.method? 0 "m" false = some 1 := method?_of_none hlone.1 (by decide +kernel)
  have hsecond : twoMethods.method? 1 "m" false = some 2 := method?_of_none hlone.2 (by decide +kernel)
  obtain ⟨declaration, hd, hunit, hsites⟩ : ∃ x, twoMethods.declarations[0]? = some x ∧ x.unit = 0
      ∧ x.callSites = [boundCall] := ⟨_, rfl, rfl, rfl⟩
  obtain ⟨scope, hs, hbound⟩ : ∃ s, twoMethods.scopes[0]? = some s ∧ s.bindings.get? "x" = some "X" :=
    ⟨_, rfl, rfl⟩
  have hsite : boundCall ∈ declaration.callSites := by rw [hsites]; exact List.mem_singleton_self _
  have htype : twoMethods.TypedBy declaration.unit scope (.ident "x") declaration.unit "X" := .bound hbound
  have htarget : twoMethods.resolver.target? 0 boundCall = some 1 := by
    rw [target?_typed hd hs rfl htype, hunit, hclasses, List.head?_cons, Option.bind_some, hfirst]
  have hedge : (0, 1) ∈ (twoMethods.resolver.trace 0).edges :=
    Resolver.mem_edges_trace.2 ⟨.refl, (Resolver.mem_directCallees_iff hd).2 ⟨boundCall, hsite, htarget⟩⟩
  have hwf : twoMethods.WellFormed := wellFormed_ofSources _ _ _ (by decide +kernel)
  exact ⟨hwf, declaration, scope, hd, hs, hsite, htype, hunit ▸ hclasses, hfirst, hsecond,
    (Resolver.target?_eq_some_iff.1 htarget).2, hedge⟩

end Barrel

end CallDiagram.Codebase
