import CallDiagram.Codebase.Basic
import CallDiagram.Module.Finder
import CallDiagram.Outline.File
import CallDiagram.Project.Load

/-!
A project read with all files that it reaches. Files are read in layers: first those of the project,
then those that they name as modules, and so on. Of a dependency only those modules are followed that
names are passed on from.
-/

namespace CallDiagram

def Outline.followedSpecifiers (o : Outline) (foreign : Bool) : List String :=
  if foreign then o.forwardedSpecifiers else o.moduleSpecifiers

structure Loading where
  codebase : Codebase := {}
  links : List (Table String Path) := []
  seen : List Path

namespace Loading

def discover (state : Loading) (next : List Path) (paths : List Path) : Loading × List Path :=
  paths.foldl (fun (state, next) path =>
    if state.seen.contains path then (state, next)
    else ({ state with seen := path :: state.seen }, next ++ [path])) (state, next)

def add (find : Path → String → Option Path) :
    Loading × List Path → Path × Outline → Loading × List Path
  | (state, next), (path, outline) =>
    let followed := outline.followedSpecifiers path.isForeign
    let targets := followed.filterMap fun name => (find path name).map fun target => (name, target)
    let links : Table String Path := ⟨targets⟩
    let state := { state with
      codebase := state.codebase.addFile path path.isForeign outline
      links := state.links ++ [links] }
    state.discover next (targets.map Prod.snd)

/-- A module name that a file follows though `ends` denies that the search for it ends. -/
def endless? (ends : Path → String → Bool) : Path × Outline → Option (Path × String)
  | (path, outline) =>
    let followed := outline.followedSpecifiers path.isForeign
    (followed.find? fun name => !ends path name).map fun name => (path, name)

def readLayer (t : FileTree) (ends : Path → String → Bool) (paths : List Path) :
    Except Failure (List (Path × Outline)) := do
  let outlines ← paths.mapM fun path => return (path, ← Outline.ofFile t path)
  match outlines.findSome? (endless? ends) with
  | some (path, name) => throw (.sourceUnreadable path (.endlessSearch name))
  | none => return outlines

/-- Reads `pending` and what it leads to, in at most `n` layers. -/
def readLayers (t : FileTree) (ends : Path → String → Bool) (find : Path → String → Option Path) :
    (n : Nat) → Loading → (pending : List Path) → Except Failure Loading
  | 0, state, _ => return state
  | n + 1, state, pending =>
    if pending.isEmpty then return state
    else do
      let outlines ← readLayer t ends pending
      let (state, next) := outlines.foldl (add find) (state, [])
      readLayers t ends find n state (next.mergeSort fun p q => lexLe p.names q.names)

def linked (state : Loading) : Codebase :=
  let unitsOf (links : Table String Path) : Table String UnitId :=
    ⟨links.entries.filterMap fun (name, path) =>
      (state.codebase.unitByPath.get? path).map fun unit => (name, unit)⟩
  { state.codebase with
    tables := (state.codebase.tables.toList.zip state.links).toArray.map fun (table, links) =>
      { table with modules := unitsOf links } }

end Loading

namespace Codebase

/-- No layer is read unless it holds a file that is in no earlier one. -/
def layerLimit (t : FileTree) : Nat := (t.root.files fun _ => false).length + 1

def ofProject (t : FileTree) (p : Project) : Except Failure Codebase := do
  let finder := ModuleFinder.ofSettings p.root.toPath p.settings
  let files := p.files.map Location.toPath
  let state ← Loading.readLayers t (finder.searchEnds t) (finder.find? t) (layerLimit t)
    { seen := files } files
  let c := state.linked
  return { c with projectUnits := files.filterMap c.unitByPath.get? }

def load (t : FileTree) (settings : Path) : Except Failure Codebase := do
  ofProject t (← Project.load t settings)

end Codebase

end CallDiagram
