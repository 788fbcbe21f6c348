import CallDiagram.Glob.Set
import CallDiagram.Path.Package
import CallDiagram.Settings.Load
import CallDiagram.Source.Dialect
import CallDiagram.Text.Order

namespace CallDiagram

structure Project where
  root : Location
  settings : Settings
  files : List Location

namespace Project

def versionControl : String := ".git"

def isSkipped (name : String) : Bool := name == Path.dependencyDirectory || name == versionControl

def defaultIncluded : List String := ["**/*"]

def defaultExcluded : List String := [Path.dependencyDirectory]

def listed (t : FileTree) (root : Location) (names : List String) :
    Except Failure (List Location) :=
  names.mapM fun name =>
    let path := root.toPath.join name
    (t.locate path).mapError (.projectFileNotFound path)

def isSource (place : Location) : Bool :=
  match Dialect.ofPath? place.toPath with
  | some dialect => dialect.isProjectSource
  | none => false

/-- The sources below the root whose way from there is included and not excluded. -/
def selected (t : FileTree) (root : Location) (included excluded : List Glob) : List Location :=
  if (root.getLast?.map isSkipped).getD false then []
  else match t.root.at? root with
    | none => []
    | some directory =>
      let chosen (way : Location) : Bool :=
        isSource way && Glob.anyMatch included (Text.unpieces '/' way)
          && !Glob.anyMatch excluded (Text.unpieces '/' way)
      ((directory.files isSkipped).filter chosen).map (root ++ ·)

/-- With only a list of files, nothing else belongs to the project. -/
def collect (t : FileTree) (root : Location) (settings : Settings) :
    Except Failure (List Location) := do
  let files ← listed t root (settings.files.getD [])
  if settings.files.isSome && settings.included.isNone then return files
  let included ← Glob.compile (settings.included.getD defaultIncluded)
  let excluded ← Glob.compile (settings.excluded.getD defaultExcluded)
  return files ++ selected t root included excluded

def sortPlaces (places : List Location) : List Location :=
  dropRepeats (places.mergeSort lexLe)

def load (t : FileTree) (path : Path) : Except Failure Project := do
  let place ← (t.locate path).mapError (.settingsNotFound path)
  let settings ← Settings.load t place.toPath
  let root := place.dropLast
  return ⟨root, settings, sortPlaces (← collect t root settings)⟩

end Project

end CallDiagram
