import CallDiagram.Data.Json5
import CallDiagram.Text.Blank

namespace CallDiagram

inductive Bases
  | one (base : String)
  | many (bases : List String)
  deriving DecidableEq, Repr

def Bases.toList : Bases → List String
  | .one base => [base]
  | .many bases => bases

structure Settings where
  bases : Option Bases := none
  files : Option (List String) := none
  included : Option (List String) := none
  excluded : Option (List String) := none
  baseUrl : Option String := none
  paths : List (String × List String) := []
  deriving DecidableEq, Repr

namespace Settings

open Data (Value)

/-- Adds a pattern in its place; an equal one gives way. -/
def insertPath (pattern : String) (targets : List String) :
    List (String × List String) → List (String × List String)
  | [] => [(pattern, targets)]
  | (other, kept) :: rest =>
    if pattern = other then (pattern, targets) :: rest
    else if pattern < other then (pattern, targets) :: (other, kept) :: rest
    else (other, kept) :: insertPath pattern targets rest

def readPaths : Value → Option (List (String × List String))
  | .object members =>
    members.foldlM (fun paths (key, value) => do
      return insertPath (← key) (← value.strings?) paths) []
  | _ => none

def readBases : Value → Option Bases
  | .string text => text.map .one
  | value => value.strings?.map .many

/-- Sets fields one after the other. An object sets each at most once and holds nothing unreadable;
an array sets them in the order of `fields`, as far as it goes. -/
def readFields (fields : List (String × (Value → σ → Option σ))) (start : σ) : Value → Option σ
  | .object members =>
    let rec go (seen : List String) (state : σ) : List (Option String × Value) → Option σ
      | [] => some state
      | (none, _) :: _ => none
      | (some key, value) :: rest =>
        match fields.lookup key with
        | none => if value.isReadable then go seen state rest else none
        | some set =>
          if seen.contains key then none
          else (set value state).bind fun state => go (key :: seen) state rest
    go [] start members
  | .array items => (fields.zip items).foldlM (fun state (field, item) => field.2 item state) start
  | _ => none

def compilerFields : List (String × (Value → Settings → Option Settings)) :=
  [("baseUrl", fun v s => (Value.optional Value.string? v).map fun x => { s with baseUrl := x }),
   ("paths", fun v s => (readPaths v).map fun x => { s with paths := x })]

def settingsFields : List (String × (Value → Settings → Option Settings)) :=
  [("extends", fun v s => (Value.optional readBases v).map fun x => { s with bases := x }),
   ("files", fun v s => (Value.optional Value.strings? v).map fun x => { s with files := x }),
   ("include", fun v s => (Value.optional Value.strings? v).map fun x => { s with included := x }),
   ("exclude", fun v s => (Value.optional Value.strings? v).map fun x => { s with excluded := x }),
   ("compilerOptions", fun v s => readFields compilerFields s v)]

def parse (text : String) : Option Settings :=
  if Text.isBlankText text then some {}
  else (Data.Json5.read text).bind (readFields settingsFields {})

end Settings

end CallDiagram
