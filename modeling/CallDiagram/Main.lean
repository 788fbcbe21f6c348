import CallDiagram.CommandLine

namespace CallDiagram.Disk

def isReadable (name : String) : Bool :=
  let path : Path := ⟨name⟩
  (Dialect.ofPath? path).isSome
    || ["json", "jsonc", "json5"].contains (path.extension?.getD "json")

def contents (item : IO.FS.DirEntry) : IO Contents := do
  match String.fromUTF8? (← IO.FS.readBinFile item.path) with
  | some s => return .text s
  | none => return .binary

partial def entry (item : IO.FS.DirEntry) : IO Entry := do
  match (← item.path.symlinkMetadata).type with
  | .dir =>
    if item.fileName == Project.versionControl then return .directory []
    let children ← item.path.readDir
    return .directory (← children.toList.mapM fun child =>
      return (child.fileName, ← entry child))
  | .symlink =>
    let target ← (IO.FS.realPath item.path).toBaseIO
    return .link (match target with
      | .ok path => path.toString
      | .error _ => item.fileName)
  | .file => if isReadable item.fileName then .file <$> contents item else return .file .binary
  | .other => return .file .binary

def add (t : FileTree) (directory : Path) (name : String) : IO FileTree := do
  match ← (entry ⟨directory.text, name⟩).toBaseIO with
  | .ok e => return t.insert ((directory.join name).names) e
  | .error _ => return t

def workspace (place : Path) : IO Path := do
  for directory in place.ancestors do
    let item : IO.FS.DirEntry := ⟨directory.text, Project.versionControl⟩
    if ← item.path.pathExists then return directory
  return place

def addAround (t : FileTree) (place : Path) : IO FileTree := do
  let top ← workspace place
  let mut t ← add t top "."
  for directory in top.ancestors do
    t ← add t directory Path.dependencyDirectory
  return t

def around (request : Request) : IO FileTree := do
  let working : Path := ⟨(← IO.currentDir).toString⟩
  let mut t ← addAround { top := [], workingDirectory := working.names } working
  for path in [request.settings, request.file] do
    if let .ok found ← (IO.FS.realPath path.text).toBaseIO then
      let place : Path := ⟨found.toString⟩
      if (t.root.at? place.names).isNone then
        t ← addAround t (place.parent.getD place)
      let item : IO.FS.DirEntry := ⟨"/", found.toString⟩
      if let .ok c ← (contents item).toBaseIO then
        t := t.insert place.names (.file c)
  return t

end CallDiagram.Disk

open CallDiagram

def main (arguments : List String) : IO UInt32 := do
  let t ← match Command.ofArguments arguments with
    | .ok (.draw request) => Disk.around request
    | _ => pure { top := [] }
  let response := Response.ofArguments t arguments
  IO.print response.output
  if let some complaint := response.complaint? then IO.eprintln complaint
  return response.exitCode.toUInt32
