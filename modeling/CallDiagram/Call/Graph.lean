import CallDiagram.Call.Declaration

namespace CallDiagram

structure TraceNode where
  declaration : DeclarationId
  callees : List DeclarationId
  deriving DecidableEq, Repr

structure TraceGraph where
  nodes : List TraceNode := []
  deriving DecidableEq, Repr

namespace TraceGraph

def empty : TraceGraph := {}

def contains (g : TraceGraph) (d : DeclarationId) : Bool :=
  g.nodes.any fun node => node.declaration == d

def insert (g : TraceGraph) (d : DeclarationId) (callees : List DeclarationId) :
    Bool × TraceGraph :=
  if g.contains d then (false, g) else (true, ⟨g.nodes ++ [⟨d, callees⟩]⟩)

def callees? (g : TraceGraph) (d : DeclarationId) : Option (List DeclarationId) :=
  (g.nodes.find? fun node => node.declaration == d).map TraceNode.callees

def size (g : TraceGraph) : Nat := g.nodes.length

def isEmpty (g : TraceGraph) : Bool := g.nodes.isEmpty

def edgeCount (g : TraceGraph) : Nat :=
  g.nodes.foldr (fun node count => node.callees.length + count) 0

def edges (g : TraceGraph) : List (DeclarationId × DeclarationId) :=
  g.nodes.flatMap fun node => node.callees.map fun callee => (node.declaration, callee)

@[simp] theorem contains_insert (g : TraceGraph) (d e : DeclarationId)
    (callees : List DeclarationId) :
    (g.insert d callees).2.contains e = (g.contains e || d == e) := by
  unfold insert
  split
  · by_cases h : d = e <;> simp_all
  · simp [contains]

end TraceGraph

end CallDiagram
