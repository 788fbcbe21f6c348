import CallDiagram.Failure
import CallDiagram.Outline.Script

namespace CallDiagram.Outline

def dialectOf (path : Path) : Dialect := (Dialect.ofPath? path).getD .typeScript

def ofFile (t : FileTree) (path : Path) : Except Failure Outline := do
  let text ← (t.readText path).mapError fun reason => .sourceUnreadable path (.inaccessible reason)
  return ofText (dialectOf path) text

end CallDiagram.Outline
