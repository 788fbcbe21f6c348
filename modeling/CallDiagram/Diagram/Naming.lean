import CallDiagram.Call.Resolver
import CallDiagram.Path.Package
import CallDiagram.Path.Relative
import CallDiagram.Text.Quoted

/-!
The names of declarations in a diagram. A name is a list of quoted segments behind the group of the
file, such as `"Current File"."App"."run()"` or `node_modules."lib-x"."fetch()"`; declarations with
the same group and segments share a node.
-/

namespace CallDiagram

structure DiagramOptions where
  ignoredPackages : List String := []
  omitFileNames : Bool := false
  dontGroupClasses : Bool := false

inductive Group
  | unnamed
  | current
  | file (path : String)
  | package (name : String)
  deriving DecidableEq, Repr

namespace Group

def currentFile : String := "Current File"

def dependencies : String := Path.dependencyDirectory

def text : Group → String
  | .unnamed => ""
  | .current => Text.quote currentFile
  | .file path => Text.quote path
  | .package name => dependencies ++ "." ++ Text.quote name

end Group

structure Naming where
  resolver : Resolver
  current : UnitId
  options : DiagramOptions

namespace Naming

def anonymous : String := "anonymous"

def ofRoot (r : Resolver) (root : DeclarationId) (options : DiagramOptions) : Naming where
  resolver := r
  current := match r.declarations[root]? with
    | some declaration => declaration.unit
    | none => 0
  options := options

def directory (n : Naming) : Path :=
  match n.resolver.units[n.current]? with
  | some unit => unit.path.parent.getD ⟨""⟩
  | none => ⟨""⟩

/-- The group of a file's declarations; nothing when the file belongs to an ignored package. -/
def group? (n : Naming) (unit : UnitId) : Option Group :=
  if unit = n.current then
    some (if n.options.omitFileNames then .unnamed else .current)
  else
    match n.resolver.units[unit]? with
    | none => none
    | some file =>
      if file.foreign then
        if n.options.ignoredPackages.contains file.path.package then none
        else some (.package file.path.package)
      else if n.options.omitFileNames then some .unnamed
      else some (.file (Path.relative n.directory file.path))

def groupOf? (n : Naming) (d : DeclarationId) : Option Group :=
  n.resolver.declarations[d]?.bind fun declaration => n.group? declaration.unit

def markCallable : List String → List String
  | [] => []
  | [segment] => [segment ++ "()"]
  | segment :: segments => segment :: markCallable segments

def segments (n : Naming) (d : DeclarationId) : List String :=
  let name := (n.resolver.declarations[d]?.bind Declaration.displayName?).getD anonymous
  markCallable (Text.pieces '.' name)

/-- The full name of a declaration's node; nothing when the declaration is left out. -/
def identifier? (n : Naming) (d : DeclarationId) : Option String :=
  (n.groupOf? d).map fun group =>
    let parts := (n.segments d).map Text.quote
    Text.unpieces '.' (if group.text = "" then parts else group.text :: parts)

def topSegment? (n : Naming) (d : DeclarationId) : Option String :=
  match n.groupOf? d with
  | none => none
  | some group =>
    if group.text = "" then (n.segments d).head?.map Text.quote else some group.text

end Naming

end CallDiagram
