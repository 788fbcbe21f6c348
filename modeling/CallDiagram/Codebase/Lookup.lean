import CallDiagram.Codebase.Basic
import CallDiagram.Text.Order

/-!
What a name denotes in a file: what the file declares under it, or else what it imports. Exports are
followed from file to file, as far as they lead; one lookup asks no file twice for the same name, so
that files which export from each other do no harm.
-/

namespace CallDiagram

inductive Symbol
  | function (id : DeclarationId)
  | cls (id : ClassId)
  | variable (unit : UnitId) (name : String)
  | module (unit : UnitId)
  | other (kind : SymbolKind)
  deriving DecidableEq, Repr

def Symbol.definition : Symbol → Definition
  | .function id => .callable id
  | .cls _ => .other .cls
  | .variable _ _ => .other .variable
  | .module _ => .other .namespace
  | .other kind => .other kind

abbrev Asked := List (UnitId × String)

abbrev Search := StateT Asked Option

namespace FileTable

def plainSymbols (table : FileTable) (unit : UnitId) (name : String) : List Symbol :=
  match table.symbols.get? name with
  | none => []
  | some .variable => [.variable unit name]
  | some .interface => if table.classes.contains name then [] else [.other .interface]
  | some kind => [.other kind]

def declared (table : FileTable) (unit : UnitId) (name : String) : List Symbol :=
  ((table.functions.get? name).map Symbol.function).toList
    ++ ((table.classes.get? name).map Symbol.cls).toList ++ table.plainSymbols unit name

end FileTable

namespace Codebase

def declaredIn (c : Codebase) (unit : UnitId) (name : String) : List Symbol :=
  match c.tables[unit]? with
  | some table => table.declared unit name
  | none => []

def module? (c : Codebase) (unit : UnitId) (source : String) : Option UnitId :=
  c.tables[unit]?.bind fun table => table.modules.get? source

def collect (f : α → Search (List Symbol)) : List α → Search (List Symbol)
  | [] => return []
  | a :: rest => do
    let found ← f a
    return found ++ (← collect f rest)

def requestedName : Imported → Option String
  | .named name => some name
  | .default => some Outline.defaultName
  | .namespace => none

def imported (c : Codebase) (ask : UnitId → String → Search (List Symbol)) (unit : UnitId)
    (binding : ImportBinding) : Search (List Symbol) :=
  match c.module? unit binding.source, requestedName binding.imported with
  | none, _ => return []
  | some target, some name => ask target name
  | some target, none => return [.module target]

def named (c : Codebase) (ask : UnitId → String → Search (List Symbol)) (unit : UnitId)
    (name : String) : Search (List Symbol) :=
  let declared := c.declaredIn unit name
  if declared.isEmpty then
    match c.tables[unit]?.bind fun table => table.imports.get? name with
    | some binding => c.imported ask unit binding
    | none => return []
  else return declared

def entryNamed (c : Codebase) (ask : UnitId → String → Search (List Symbol)) (unit : UnitId)
    (name : String) : ExportEntry → Search (List Symbol)
  | .local exported inner => if exported = name then c.named ask unit inner else return []
  | .named exported inner source =>
    match c.module? unit source with
    | some target => if exported = name then ask target inner else return []
    | none => return []
  | .namespace exported source =>
    match c.module? unit source with
    | some target => return if exported = name then [.module target] else []
    | none => return []
  | .all _ => return []

def entryAll (c : Codebase) (ask : UnitId → String → Search (List Symbol)) (unit : UnitId)
    (name : String) : ExportEntry → Search (List Symbol)
  | .all source =>
    match c.module? unit source with
    | some target => ask target name
    | none => return []
  | _ => return []

/-- What a file exports under a name: by name, or else by an entry that exports everything, or else
because the file only declares. -/
def exportedBy (c : Codebase) (ask : UnitId → String → Search (List Symbol)) (unit : UnitId)
    (name : String) (table : FileTable) : Search (List Symbol) := do
  let byName ← collect (c.entryNamed ask unit name) table.exports
  let found ←
    if byName.isEmpty && name != Outline.defaultName then
      collect (c.entryAll ask unit name) table.exports
    else pure byName
  let found :=
    if found.isEmpty && table.isDeclarationFile then table.declared unit name else found
  return dropRepeats found

/-- What a file exports under a name, unless it has been asked for that before; one question may lead
to at most `n` others in a row. -/
def exportedWithin (c : Codebase) : (n : Nat) → UnitId → String → Search (List Symbol)
  | 0, _, _ => failure
  | n + 1, unit, name => do
    if (← get).contains (unit, name) then return []
    modify ((unit, name) :: ·)
    match c.tables[unit]? with
    | some table => c.exportedBy (c.exportedWithin n) unit name table
    | none => return []

def FileTable.requestedNames (table : FileTable) : List String :=
  (table.imports.entries.filterMap fun (_, binding) => requestedName binding.imported)
    ++ table.exports.filterMap fun
      | .named _ inner _ => some inner
      | _ => none

/-- More questions than there are for a name and all the names that files ask each other for. -/
def searchLimit (c : Codebase) : Nat :=
  let names := c.tables.toList.flatMap FileTable.requestedNames
  c.tables.size * (names.length + 1) + 1

def answer (search : Search (List Symbol)) : List Symbol :=
  match search [] with
  | some (found, _) => found
  | none => []

def exported (c : Codebase) (unit : UnitId) (name : String) : List Symbol :=
  answer (c.exportedWithin c.searchLimit unit name)

def lookup (c : Codebase) (unit : UnitId) (name : String) : List Symbol :=
  answer (c.named (c.exportedWithin c.searchLimit) unit name)

end Codebase

end CallDiagram
