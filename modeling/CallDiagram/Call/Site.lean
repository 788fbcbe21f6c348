namespace CallDiagram

inductive Receiver
  | this
  | super
  | ident (name : String)
  | thisField (field : String)
  | expression
  deriving DecidableEq, Repr

inductive Callee
  | name (name : String)
  | member (receiver : Receiver) (property : String)
  | other
  deriving DecidableEq, Repr

structure CallSite where
  callee : Callee
  line : Nat
  deriving DecidableEq, Repr

namespace Callee

def lookupName? : Callee → Option String
  | .name s => some s
  | .member _ property => some property
  | .other => none

end Callee

end CallDiagram
