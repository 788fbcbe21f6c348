import CallDiagram.Call.Resolver
import CallDiagram.Codebase.Lookup

namespace CallDiagram.Codebase

def classNamed? (c : Codebase) (unit : UnitId) (typeName : String) : Option ClassId :=
  (c.lookup unit typeName).findSome? fun
    | .cls cls => some cls
    | _ => none

def declaredBase? (c : Codebase) (cls : ClassId) : Option ClassId :=
  c.classes[cls]?.bind fun entry => entry.base.bind (c.classNamed? entry.unit)

def unchained (c : Codebase) (chain : List ClassId) : Nat :=
  (List.range c.classes.size).countP fun cls => !chain.contains cls

theorem unchained_append_lt {c : Codebase} {chain : List ClassId} {cls : ClassId}
    (hc : cls < c.classes.size) (hn : cls ∉ chain) :
    c.unchained (chain ++ [cls]) < c.unchained chain := by
  have key : ∀ l : List ClassId, cls ∈ l →
      l.countP (fun k => !(chain ++ [cls]).contains k) < l.countP fun k => !chain.contains k := by
    intro l hl
    induction l with
    | nil => simp at hl
    | cons k l ih =>
      have hle : l.countP (fun k => !(chain ++ [cls]).contains k)
          ≤ l.countP fun k => !chain.contains k :=
        List.countP_mono_left (by simp +contextual)
      by_cases hk : k = cls
      · subst hk
        rw [List.countP_cons_of_neg (by simp), List.countP_cons_of_pos (by simp [hn])]
        omega
      · have := ih (by simpa [Ne.symm hk] using hl)
        simp only [List.countP_cons]
        simp only [List.contains_append, List.contains_cons, List.contains_nil,
          beq_eq_false_iff_ne.2 hk, Bool.or_false]
        simp only [List.contains_append, List.contains_cons, List.contains_nil, Bool.or_false]
          at this
        omega
  exact key _ (List.mem_range.2 hc)

/-- Goes on with a chain from its last class, up to one that is in it already. -/
def chainFrom (c : Codebase) (chain : List ClassId) (last : ClassId) : List ClassId :=
  match c.declaredBase? last with
  | none => chain
  | some base =>
    if base < c.classes.size ∧ base ∉ chain then chainFrom c (chain ++ [base]) base else chain
termination_by c.unchained chain
decreasing_by
  rename_i h
  exact unchained_append_lt h.1 h.2

def classChain (c : Codebase) (cls : ClassId) : List ClassId := c.chainFrom [cls] cls

def base? (c : Codebase) (cls : ClassId) : Option ClassId := (c.classChain cls)[1]?

def method? (c : Codebase) (cls : ClassId) (name : String) (isStatic : Bool) :
    Option DeclarationId :=
  (c.classChain cls).findSome? fun k => c.classes[k]?.bind fun entry =>
    entry.methods.get? (name, isStatic)

/-- The class of a field, from the nearest class where the type of the field denotes one. -/
def fieldClass? (c : Codebase) (cls : ClassId) (field : String) : Option ClassId :=
  (c.classChain cls).findSome? fun k => c.classes[k]?.bind fun entry =>
    (entry.fields.get? field).bind (c.classNamed? entry.unit)

def methodOf (c : Codebase) (cls : Option ClassId) (name : String) (isStatic : Bool) :
    List Symbol :=
  ((cls.bind fun k => c.method? k name isStatic).map Symbol.function).toList

def variableClass? (c : Codebase) (unit : UnitId) (name : String) : Option ClassId :=
  (c.tables[unit]?.bind fun table => table.variableTypes.get? name).bind (c.classNamed? unit)

def memberOf (c : Codebase) (property : String) : Symbol → List Symbol
  | .cls cls => c.methodOf (some cls) property true
  | .module unit => c.exported unit property
  | .variable unit name => c.methodOf (c.variableClass? unit name) property false
  | .function _ | .other _ => []

def memberSymbols (c : Codebase) (unit : UnitId) (scope : Scope) (property : String) :
    Receiver → List Symbol
  | .this => c.methodOf scope.cls property scope.isStatic
  | .super => c.methodOf (scope.cls.bind c.base?) property scope.isStatic
  | .thisField field => c.methodOf (scope.cls.bind fun k => c.fieldClass? k field) property false
  | .ident name =>
    match scope.bindings.get? name with
    | some typeName => c.methodOf (c.classNamed? unit typeName) property false
    | none => dropRepeats ((c.lookup unit name).flatMap (c.memberOf property))
  | .expression => []

/-- What a call may refer to, seen from a declaration of the file `unit` with the given scope. A
variable whose class is known hides what else has its name. -/
def calleeDefinitions (c : Codebase) (unit : UnitId) (scope : Scope) : Callee → List Definition
  | .name name =>
    if scope.bindings.contains name then [.other .variable]
    else (c.lookup unit name).map Symbol.definition
  | .member receiver property => (c.memberSymbols unit scope property receiver).map Symbol.definition
  | .other => []

def definitions (c : Codebase) (caller : DeclarationId) (site : CallSite) : List Definition :=
  match c.declarations[caller]?, c.scopes[caller]? with
  | some declaration, some scope => c.calleeDefinitions declaration.unit scope site.callee
  | _, _ => []

def resolver (c : Codebase) : Resolver where
  declarations := c.declarations
  units := c.units
  definitions := c.definitions

end CallDiagram.Codebase
