import CallDiagram.Call.Graph
import CallDiagram.Diagram.Naming

namespace CallDiagram

inductive DiagramLine
  | downward
  | pinRoot (group : String)
  | fillRoot (identifier : String)
  | fillDependencies
  | pinDependencies
  | arrow (source target : String)
  deriving DecidableEq, Repr

namespace DiagramLine

def rootColour : String := "#a3ffd7"

def dependencyColour : String := "#FFFFFF"

def text : DiagramLine → String
  | .downward => "direction: down"
  | .pinRoot group => group ++ ".near: top-center"
  | .fillRoot identifier => identifier ++ ".style.fill: \"" ++ rootColour ++ "\""
  | .fillDependencies => Group.dependencies ++ ".style.fill: \"" ++ dependencyColour ++ "\""
  | .pinDependencies => Group.dependencies ++ ".near: bottom-center"
  | .arrow source target => source ++ " -> " ++ target

end DiagramLine

abbrev Drawing := List DiagramLine

namespace Drawing

def pinned? (n : Naming) (root : DeclarationId) : Option String :=
  match (n.group? n.current).map Group.text with
  | some "" | none => n.topSegment? root
  | some group => some group

def header (n : Naming) (root : DeclarationId) : Drawing :=
  [.downward] ++ ((pinned? n root).map .pinRoot).toList
    ++ ((n.identifier? root).map .fillRoot).toList ++ [.fillDependencies, .pinDependencies]

def arrow? (n : Naming) : DeclarationId × DeclarationId → Option DiagramLine
  | (source, target) =>
    match n.identifier? source, n.identifier? target with
    | some source, some target => some (.arrow source target)
    | _, _ => none

def ofGraph (n : Naming) (root : DeclarationId) (graph : TraceGraph) : Drawing :=
  header n root ++ graph.edges.filterMap (arrow? n)

def render (drawing : Drawing) : String :=
  String.join (drawing.map fun statement => statement.text ++ "\n")

end Drawing

end CallDiagram
