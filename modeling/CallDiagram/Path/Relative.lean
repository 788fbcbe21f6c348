import CallDiagram.Path.Basic

namespace CallDiagram.Path

def sharedLength : List Component → List Component → Nat
  | a :: as, b :: bs => if a = b then sharedLength as bs + 1 else 0
  | _, _ => 0

def Component.text : Component → String
  | .root => "/"
  | .here => "."
  | .up => ".."
  | .name s => s

/-- One `..` for each component of `from` beyond the shared ones, then the rest of `to`. -/
def relativeParts (source target : List Component) : List String :=
  let shared := sharedLength source target
  List.replicate (source.length - shared) ".." ++ (target.drop shared).map Component.text

def relative (source target : Path) : String :=
  Text.unpieces '/' (relativeParts source.components target.components)

end CallDiagram.Path
