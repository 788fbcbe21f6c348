import CallDiagram.Call.Declaration
import CallDiagram.Data.Table
import CallDiagram.Outline.Basic
import CallDiagram.Source.Dialect

/-!
All files that belong to a project or are reached from it, with the names each of them declares,
imports and exports. Files, declarations and classes are numbered in the order they are added.
-/

namespace CallDiagram

abbrev ClassId := Nat

structure ClassEntry where
  unit : UnitId
  base : Option String
  fields : Table String String
  methods : Table (String × Bool) DeclarationId := {}

structure FileTable where
  functions : Table String DeclarationId := {}
  classes : Table String ClassId := {}
  symbols : Table String SymbolKind := {}
  variableTypes : Table String String := {}
  imports : Table String ImportBinding := {}
  exports : List ExportEntry := []
  modules : Table String UnitId := {}
  isDeclarationFile : Bool := false

structure Scope where
  cls : Option ClassId := none
  isStatic : Bool := false
  bindings : Table String String := {}

structure Codebase where
  units : Array SourceUnit := #[]
  tables : Array FileTable := #[]
  unitByPath : Table Path UnitId := {}
  declarations : Array Declaration := #[]
  scopes : Array Scope := #[]
  classes : Array ClassEntry := #[]
  projectUnits : List UnitId := []

namespace Codebase

def addDeclaration (c : Codebase) (make : DeclarationId → Declaration) (scope : Scope) : Codebase :=
  { c with
    declarations := c.declarations.push (make c.declarations.size)
    scopes := c.scopes.push scope }

def functionDeclaration (f : FunctionOutline) (unit : UnitId) (id : DeclarationId) : Declaration where
  id := id
  name := f.name
  container := none
  kind := .function
  unit := unit
  line := f.line
  callSites := f.body.callSites

def methodDeclaration (m : MethodOutline) (container : Option String) (unit : UnitId)
    (id : DeclarationId) : Declaration where
  id := id
  name := some m.name
  container := container
  kind := .method
  unit := unit
  line := m.line
  callSites := m.body.callSites

def tableName (name : Option String) : String := name.getD Outline.defaultName

def addFunction (unit : UnitId) : Codebase × FileTable → FunctionOutline → Codebase × FileTable
  | (c, table), f =>
    (c.addDeclaration (functionDeclaration f unit) { bindings := ⟨f.body.bindings⟩ },
      { table with functions := table.functions.set (tableName f.name) c.declarations.size })

def addMethod (unit : UnitId) (cls : ClassId) (container : Option String) :
    Codebase × ClassEntry → MethodOutline → Codebase × ClassEntry
  | (c, entry), m =>
    let scope : Scope := { cls := some cls, isStatic := m.isStatic, bindings := ⟨m.body.bindings⟩ }
    (c.addDeclaration (methodDeclaration m container unit) scope,
      { entry with methods := entry.methods.set (m.name, m.isStatic) c.declarations.size })

def addClass (unit : UnitId) : Codebase × FileTable → ClassOutline → Codebase × FileTable
  | (c, table), o =>
    let cls := c.classes.size
    let (c, entry) := o.methods.foldl (addMethod unit cls o.name)
      (c, { unit, base := o.base, fields := ⟨o.fields⟩ })
    ({ c with classes := c.classes.push entry },
      { table with classes := table.classes.set (tableName o.name) cls })

def plainTable (path : Path) (o : Outline) : FileTable where
  symbols := ⟨o.symbols⟩
  variableTypes := ⟨o.variableTypes⟩
  imports := ⟨o.imports.map fun i => (i.name, i)⟩
  exports := o.exports
  isDeclarationFile := path.isDeclarationFile

def addFile (c : Codebase) (path : Path) (foreign : Bool) (o : Outline) : Codebase :=
  let unit := c.units.size
  let (c, table) := o.functions.foldl (addFunction unit) (c, plainTable path o)
  let (c, table) := o.classes.foldl (addClass unit) (c, table)
  { c with
    units := c.units.push { id := unit, path, foreign }
    tables := c.tables.push table
    unitByPath := c.unitByPath.set path unit }

end Codebase

end CallDiagram
