import CallDiagram.Source.Statement
import CallDiagram.Text.Order

namespace CallDiagram

structure Body where
  callSites : List CallSite := []
  bindings : List (String × String) := []
  deriving DecidableEq, Repr

structure FunctionOutline where
  name : Option String
  line : Nat
  body : Body
  deriving DecidableEq, Repr

structure MethodOutline where
  name : String
  isStatic : Bool
  line : Nat
  body : Body
  deriving DecidableEq, Repr

structure ClassOutline where
  name : Option String
  line : Nat
  base : Option String := none
  fields : List (String × String) := []
  methods : List MethodOutline := []
  deriving DecidableEq, Repr

structure Outline where
  functions : List FunctionOutline := []
  classes : List ClassOutline := []
  symbols : List (String × SymbolKind) := []
  variableTypes : List (String × String) := []
  imports : List ImportBinding := []
  exports : List ExportEntry := []
  damaged : Bool := false
  deriving DecidableEq, Repr

namespace Outline

def defaultName : String := "default"

def moduleSpecifiers (o : Outline) : List String :=
  sortStrings (o.imports.map ImportBinding.source ++ o.exports.filterMap ExportEntry.source?)

/-- The modules that names are passed on from: by an export, or by an import of what is exported. -/
def forwardedSpecifiers (o : Outline) : List String :=
  let exported := o.exports.filterMap ExportEntry.localName?
  let passedOn := o.imports.filter fun i => exported.contains i.name
  sortStrings (o.exports.filterMap ExportEntry.source? ++ passedOn.map ImportBinding.source)

end Outline

end CallDiagram
