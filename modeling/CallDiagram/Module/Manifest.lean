import CallDiagram.Data.Json
import CallDiagram.FileTree.Lookup

namespace CallDiagram

structure Manifest where
  types : Option String := none
  typings : Option String := none
  main : Option String := none
  deriving DecidableEq, Repr

namespace Manifest

open Data (Value)

def entryPoints (m : Manifest) : List String :=
  [m.types, m.typings, m.main].filterMap id

def optionalText (value : Value) : Option (Option String) := Value.optional Value.string? value

def readMembers (m : Manifest) (seen : List String) :
    List (Option String × Value) → Option Manifest
  | [] => some m
  | (none, _) :: _ => none
  | (some key, value) :: rest =>
    if seen.contains key then none
    else match key with
      | "types" =>
        (optionalText value).bind fun e => readMembers { m with types := e } (key :: seen) rest
      | "typings" =>
        (optionalText value).bind fun e => readMembers { m with typings := e } (key :: seen) rest
      | "main" =>
        (optionalText value).bind fun e => readMembers { m with main := e } (key :: seen) rest
      | _ => readMembers m seen rest

def ofValue? : Value → Option Manifest
  | .object members => readMembers {} [] members
  | .array [types, typings, main] => do
    return ⟨← optionalText types, ← optionalText typings, ← optionalText main⟩
  | _ => none

def fileName : String := "package.json"

def read? (t : FileTree) (directory : Path) : Option Manifest :=
  match t.readText (directory.join fileName) with
  | .ok text => (Data.Json.read text).bind ofValue?
  | .error _ => none

end Manifest

end CallDiagram
