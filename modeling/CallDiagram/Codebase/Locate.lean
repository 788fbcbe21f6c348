import CallDiagram.Codebase.Basic
import CallDiagram.EntryPoint

namespace CallDiagram.Codebase

def projectTable? (c : Codebase) (t : FileTree) (file : Path) : Option FileTable :=
  match t.canonicalize file with
  | .error _ => none
  | .ok path =>
    (c.unitByPath.get? path).bind fun unit =>
      if c.projectUnits.contains unit then c.tables[unit]? else none

def ownMethod? (c : Codebase) (cls : ClassId) (name : String) : Option DeclarationId :=
  c.classes[cls]?.bind fun entry =>
    (entry.methods.get? (name, false)).or (entry.methods.get? (name, true))

def locate (c : Codebase) (t : FileTree) (file : Path) (entry : EntryPoint) :
    Except Failure DeclarationId := do
  let some table := c.projectTable? t file | throw (.fileNotInProject file)
  match entry with
  | .function name =>
    let some id := table.functions.get? name | throw (.functionNotFound name file)
    return id
  | .method cls name =>
    let some k := table.classes.get? cls | throw (.classNotFound cls file)
    let some id := c.ownMethod? k name | throw (.methodNotFound name cls file)
    return id

end CallDiagram.Codebase
