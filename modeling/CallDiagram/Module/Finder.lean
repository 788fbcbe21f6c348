import CallDiagram.Module.Manifest
import CallDiagram.Module.PackageName
import CallDiagram.Module.Pattern
import CallDiagram.Path.Package
import CallDiagram.Settings.Basic
import CallDiagram.Source.Dialect

/-!
The file that a module name stands for. Names of files are tried with all known extensions and then as
directories; other names by the patterns of the settings, below the base directory, and as packages
installed in a directory above the file that imports them.
-/

namespace CallDiagram

structure ModuleFinder where
  base? : Option Path
  patterns : List (String × List String)
  projectRoot : Path

namespace ModuleFinder

def indexFiles : List String := ["index.ts", "index.tsx", "index.d.ts", "index.js"]

def scriptExtensions : List String := ["js", "mjs", "cjs", "jsx"]

def sourceExtensions : List String := ["ts", "tsx", "d.ts"]

def candidates (base : Path) : List Path :=
  let extension := base.extension?.getD ""
  (if base.extension?.isSome && scriptExtensions.contains extension then
      sourceExtensions.map base.withoutExtension.withSuffix
    else [])
    ++ (if (base.extension?.bind Dialect.ofExtension?).isSome then [base] else [])
    ++ Dialect.moduleExtensions.map base.withSuffix

def entryTargets (t : FileTree) (directory : Path) : List Path :=
  let entries := ((Manifest.read? t directory).map Manifest.entryPoints).getD []
  (entries.map directory.join).filter fun target => !target.sameAs directory

/-- What a search for a file comes to: a file or none, and nothing at all where it takes more steps
than it is given. -/
abbrev Attempt := Option (Option Path)

def firstFound {α : Type} (resolve : α → Attempt) : List α → Attempt
  | [] => some none
  | place :: rest => (resolve place).bind fun
    | some file => some (some file)
    | none => firstFound resolve rest

def inDirectory? (t : FileTree) (resolve : Path → Attempt) (directory : Path) : Attempt :=
  (firstFound resolve (entryTargets t directory)).map fun found =>
    found.or ((indexFiles.map directory.join).find? t.isFile)

def resolveWithin (t : FileTree) : (n : Nat) → Path → Attempt
  | 0, _ => none
  | n + 1, base =>
    match (candidates base).find? t.isFile with
    | some file => some (some file)
    | none => if t.isDirectory base then inDirectory? t (resolveWithin t n) base else some none

/-- Enough for each search that comes to an end: relative entries make a path longer until it is too
long to name anything, and each absolute entry comes at most once. A manifest has three entries. -/
def manifestLimit (t : FileTree) : Nat :=
  (3 * (t.root.files fun _ => false).length + 1) * (FileTree.pathLimit + 1) + 1

def resolveFile? (t : FileTree) (base : Path) : Option Path :=
  (resolveWithin t (manifestLimit t) base).join

def resolveDirectory? (t : FileTree) (directory : Path) : Option Path :=
  (inDirectory? t (resolveWithin t (manifestLimit t)) directory).join

def isFileName (name : String) : Bool :=
  name == "." || name == ".." || ["./", "../", "/"].any fun start => start.toList.isPrefixOf name.toList

def ofSettings (projectRoot : Path) (settings : Settings) : ModuleFinder where
  base? := settings.baseUrl.map projectRoot.join
  patterns := settings.paths.mergeSort fun p q =>
    ModulePattern.specificity q.1 ≤ ModulePattern.specificity p.1
  projectRoot := projectRoot

def byPattern? (f : ModuleFinder) (t : FileTree) (name : String) : Option Path :=
  f.patterns.findSome? fun (pattern, targets) =>
    (ModulePattern.match? pattern name).bind fun text =>
      targets.findSome? fun target =>
        resolveFile? t ((f.base?.getD f.projectRoot).join (ModulePattern.fill target text))

def byAlias? (f : ModuleFinder) (t : FileTree) (name : String) : Option Path :=
  (f.byPattern? t name).or (f.base?.bind fun base => resolveFile? t (base.join name))

def packageDirectories (t : FileTree) (package : String) (directory : Path) : List Path :=
  let installed := directory.join Path.dependencyDirectory
  if t.isDirectory installed then
    [installed.join package, (installed.join "@types").join (PackageName.typesOf package)].filter
      t.isDirectory
  else []

def byPackage? (t : FileTree) (directory : Path) (name : String) : Option Path :=
  (PackageName.split? name).bind fun (package, inside) =>
    directory.ancestors.findSome? fun above =>
      (packageDirectories t package above).findSome? fun home =>
        match inside with
        | some way => resolveFile? t (home.join way)
        | none => resolveDirectory? t home

def find? (f : ModuleFinder) (t : FileTree) (importer : Path) (name : String) : Option Path :=
  let directory := importer.parent.getD ⟨"."⟩
  let found :=
    if isFileName name then resolveFile? t (directory.join name)
    else (f.byAlias? t name).or (byPackage? t directory name)
  found.bind fun path => (t.canonicalize path).toOption

inductive Start
  | file (base : Path)
  | directory (home : Path)

def Start.resolveWithin (t : FileTree) (n : Nat) : Start → Attempt
  | .file base => ModuleFinder.resolveWithin t n base
  | .directory home => inDirectory? t (ModuleFinder.resolveWithin t n) home

/-- A name of a file is taken from the directory of the file that imports it. Other names are tried by
the patterns, then below the base directory, and then as packages in the directories above. -/
def starts (f : ModuleFinder) (t : FileTree) (importer : Path) (name : String) : List Start :=
  let directory := importer.parent.getD ⟨"."⟩
  if isFileName name then [.file (directory.join name)]
  else
    (f.patterns.flatMap fun (pattern, targets) =>
        ((ModulePattern.match? pattern name).map fun text => targets.map fun target =>
          Start.file ((f.base?.getD f.projectRoot).join (ModulePattern.fill target text))).getD [])
      ++ (f.base?.map fun base => Start.file (base.join name)).toList
      ++ ((PackageName.split? name).map fun (package, inside) =>
          directory.ancestors.flatMap fun above => (packageDirectories t package above).map fun home =>
            match inside with
            | some way => .file (home.join way)
            | none => .directory home).getD []

/-- Whether the search for the file of a module name comes to an end. Where it does not, `find?` has no
file for the name either. -/
def searchEnds (f : ModuleFinder) (t : FileTree) (importer : Path) (name : String) : Bool :=
  (firstFound (Start.resolveWithin t (manifestLimit t)) (f.starts t importer name)).isSome

end ModuleFinder

end CallDiagram
