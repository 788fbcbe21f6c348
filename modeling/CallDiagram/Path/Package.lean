import CallDiagram.Path.Basic

namespace CallDiagram.Path

def dependencyDirectory : String := "node_modules"

def unknownPackage : String := "Unknown Package"

def leadingPackage? (cs : List Char) : Option (List Char) :=
  let first := cs.takeWhile (· ≠ '/')
  let second := (cs.drop (first.length + 1)).takeWhile (· ≠ '/')
  match first with
  | [] => none
  | '@' :: _ :: _ => if second.isEmpty then some first else some (first ++ '/' :: second)
  | _ => some first

/-- The packages named in `cs` from left to right, where no character counts for two of them. The
first `skip` characters are passed over. -/
def packagesIn (skip : Nat) : List Char → List (List Char)
  | [] => []
  | c :: cs =>
    match skip with
    | skip + 1 => packagesIn skip cs
    | 0 =>
      let marker := dependencyDirectory.toList ++ ['/']
      if marker.isPrefixOf (c :: cs) then
        match leadingPackage? ((c :: cs).drop marker.length) with
        | some package => package :: packagesIn (marker.length + package.length - 1) cs
        | none => packagesIn 0 cs
      else packagesIn 0 cs

def package (p : Path) : String :=
  let cs := p.text.toList.map fun c => if c = '\\' then '/' else c
  match (packagesIn 0 cs).getLast? with
  | some name => String.ofList name
  | none => unknownPackage

def isForeign (p : Path) : Bool := p.hasComponent dependencyDirectory

end CallDiagram.Path
