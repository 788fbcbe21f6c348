import CallDiagram.Call.Declaration

namespace CallDiagram

structure Resolver where
  declarations : Array Declaration
  units : Array SourceUnit
  definitions : (caller : DeclarationId) → CallSite → List Definition

namespace Resolver

def unitOf? (r : Resolver) (d : DeclarationId) : Option SourceUnit :=
  r.declarations[d]?.bind fun declaration => r.units[declaration.unit]?

def isLocal (r : Resolver) (d : DeclarationId) : Bool :=
  match r.unitOf? d with
  | some unit => !unit.foreign
  | none => false

def target? (r : Resolver) (caller : DeclarationId) (site : CallSite) : Option DeclarationId :=
  match site.callee.lookupName? with
  | none => none
  | some _ =>
    match r.definitions caller site with
    | [.callable target] => some target
    | _ => none

def appendNew (old new : List DeclarationId) : List DeclarationId :=
  new.foldl (fun kept d => if kept.contains d then kept else kept ++ [d]) old

def directCallees (r : Resolver) (caller : DeclarationId) : List DeclarationId :=
  match r.declarations[caller]? with
  | none => []
  | some declaration => appendNew [] (declaration.callSites.filterMap (r.target? caller))

theorem lt_size_of_isLocal {r : Resolver} {d : DeclarationId} (h : r.isLocal d) :
    d < r.declarations.size := by
  by_cases hd : d < r.declarations.size
  · exact hd
  · simp [isLocal, unitOf?, Array.getElem?_eq_none (Nat.le_of_not_lt hd)] at h

end Resolver

end CallDiagram
