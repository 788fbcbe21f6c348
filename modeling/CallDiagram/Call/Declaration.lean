import CallDiagram.Call.Site
import CallDiagram.Path.Basic

namespace CallDiagram

abbrev DeclarationId := Nat

abbrev UnitId := Nat

structure SourceUnit where
  id : UnitId
  path : Path
  foreign : Bool
  deriving DecidableEq, Repr

inductive DeclarationKind
  | function
  | method
  deriving DecidableEq, Repr

structure Declaration where
  id : DeclarationId
  name : Option String
  container : Option String
  kind : DeclarationKind
  unit : UnitId
  line : Nat
  callSites : List CallSite
  deriving DecidableEq, Repr

namespace Declaration

def displayName? (d : Declaration) : Option String :=
  d.name.map fun name =>
    match d.container with
    | some container => container ++ "." ++ name
    | none => name

end Declaration

inductive SymbolKind
  | cls
  | interface
  | enum
  | typeAlias
  | variable
  | namespace
  deriving DecidableEq, Repr

inductive Definition
  | callable (id : DeclarationId)
  | other (kind : SymbolKind)
  deriving DecidableEq, Repr

end CallDiagram
