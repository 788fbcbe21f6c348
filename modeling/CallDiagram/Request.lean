import CallDiagram.Call.Trace
import CallDiagram.Codebase.Load
import CallDiagram.Codebase.Locate
import CallDiagram.Codebase.Member
import CallDiagram.Diagram.Drawing

namespace CallDiagram

def Resolver.drawing (r : Resolver) (root : DeclarationId) (options : DiagramOptions) : Drawing :=
  Drawing.ofGraph (Naming.ofRoot r root options) root (r.trace root)

structure Request where
  file : Path
  target : String
  settings : Path := ⟨"tsconfig.json"⟩
  options : DiagramOptions := {}

def Request.run (r : Request) (t : FileTree) : Except Failure String := do
  let entry ← EntryPoint.parse r.target
  let c ← Codebase.load t r.settings
  let root ← c.locate t r.file entry
  return (c.resolver.drawing root r.options).render

end CallDiagram
