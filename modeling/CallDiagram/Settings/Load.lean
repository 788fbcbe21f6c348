import CallDiagram.Failure
import CallDiagram.Settings.Basic

/-!
Settings read together with all that they extend. A setting of the file itself stands before those of
its bases, and an earlier base before a later one. Lists of files are taken only from bases in the
same directory.
-/

namespace CallDiagram.Settings

def extendsLimit : Nat := 16

def inherit (s base : Settings) (sameDirectory : Bool) : Settings :=
  let s := { s with
    baseUrl := s.baseUrl.or base.baseUrl
    paths := if s.paths.isEmpty then base.paths else s.paths }
  if sameDirectory then
    { s with
      files := s.files.or base.files
      included := s.included.or base.included
      excluded := s.excluded.or base.excluded }
  else s

/-- The file that an `extends` entry names, seen from `directory`; nothing for the name of a package.
The ending `.json` may be left out. -/
def basePath? (t : FileTree) (directory : Path) (base : String) : Option Path :=
  let cs := base.toList
  if "./".toList.isPrefixOf cs || "../".toList.isPrefixOf cs || (Path.mk base).isAbsolute then
    let path := directory.join base
    if !".json".toList.isSuffixOf cs && !t.isFile path then some (directory.join (base ++ ".json"))
    else some path
  else none

def directoryOf (path : Path) : Path := path.parent.getD ⟨"."⟩

def ofFile (t : FileTree) (path : Path) : Except Failure Settings := do
  let text ← (t.readText path).mapError (.settingsUnreadable path)
  let some s := parse text | throw (.settingsInvalid path)
  return { s with baseUrl := s.baseUrl.map fun url => ((directoryOf path).join url).text }

def loadWithin (t : FileTree) : (depth : Nat) → Path → Except Failure Settings
  | 0, path => throw (.settingsTooDeep path)
  | depth + 1, path => do
    let s ← ofFile t path
    let directory := directoryOf path
    match s.bases with
    | none => return s
    | some bases =>
      (bases.toList.filterMap (basePath? t directory)).foldlM
        (fun s basePath => do
          let base ← loadWithin t depth basePath
          return s.inherit base ((basePath.parent.map fun p => p.sameAs directory).getD false))
        { s with bases := none }

def load (t : FileTree) (path : Path) : Except Failure Settings :=
  loadWithin t (extendsLimit + 1) path

end CallDiagram.Settings
