import CallDiagram.Outline.Basic
import CallDiagram.Source.Grammar.Script

/-!
The outline of a script. Signatures and implementations of one name share an entry, where the
implementation counts.
-/

namespace CallDiagram

namespace Outline

def parameterBinding? (p : Parameter) : Option (String × String) :=
  p.name.bind fun name => p.typeName.map fun cls => (name, cls)

def sortByLine (sites : List CallSite) : List CallSite :=
  sites.mergeSort fun a b => a.line ≤ b.line

def bodyOf (f : Function) : Body :=
  let pieces := Node.walk f.body.toList
  { callSites := sortByLine (pieces.filterMap Node.callSite?)
    bindings := f.parameters.filterMap parameterBinding? ++ pieces.filterMap Node.binding? }

/-- Puts an entry in the place of the first one of its kind if it has a body, and at the end if there
is none of its kind. -/
def merge (isSame : α → Bool) (hasBody : Bool) (new : α) : List α → List α
  | [] => [new]
  | old :: rest =>
    if isSame old then (if hasBody then new else old) :: rest
    else old :: merge isSame hasBody new rest

def addFunction (functions : List FunctionOutline) (f : Function) : List FunctionOutline :=
  let new : FunctionOutline := { name := f.name, line := f.line, body := bodyOf f }
  merge (fun old => f.name.isSome && old.name == f.name) f.body.isSome new functions

def addMethod (methods : List MethodOutline) (name : String) (m : Method) : List MethodOutline :=
  let new : MethodOutline := {
    name, isStatic := m.isStatic, line := m.function.line, body := bodyOf m.function }
  merge (fun old => old.name == name && old.isStatic == m.isStatic) m.function.body.isSome new methods

def constructorName : String := "constructor"

def parameterFields (f : Function) : List (String × String) :=
  (f.parameters.filter Parameter.isField).filterMap parameterBinding?

def fieldBinding? (key : Key) (typeName : Option String) (value : Option Node) :
    Option (String × String) :=
  key.name?.bind fun name =>
    (typeName.or (value.bind Node.createdClass?)).map fun cls => (name, cls)

def addMember (c : ClassOutline) : ClassMember → ClassOutline
  | .method m =>
    match m.key.name? with
    | none => c
    | some name =>
      if name = constructorName then { c with fields := c.fields ++ parameterFields m.function }
      else if m.isAccessor then c
      else { c with methods := addMethod c.methods name m }
  | .field key typeName _ value =>
    { c with fields := c.fields ++ (fieldBinding? key typeName value).toList }
  | .other _ => c

def ofClass (c : ClassDefinition) : ClassOutline :=
  c.members.foldl addMember
    { name := c.name, line := c.line, base := c.base.bind Node.className? }

def exportLocal (o : Outline) (exported name : String) : Outline :=
  let entry := ExportEntry.local exported name
  if o.exports.contains entry then o else { o with exports := o.exports ++ [entry] }

def exportIf (o : Outline) (isExported : Bool) (name : String) : Outline :=
  if isExported then o.exportLocal name name else o

def addVariable (isExported : Bool) (o : Outline) (declarator : Node) : Outline :=
  match declarator with
  | .declarator (.name name) .. =>
    let o := { o with variableTypes := o.variableTypes ++ declarator.binding?.toList }
    let o := o.exportIf isExported name
    { o with symbols := o.symbols ++ [(name, .variable)] }
  | _ => o

def addExport (o : Outline) : ExportEntry → Outline
  | .local exported name => o.exportLocal exported name
  | entry => { o with exports := o.exports ++ [entry] }

def addStatement (o : Outline) (isExported : Bool) : Statement → Outline
  | .function f =>
    let o := { o with functions := addFunction o.functions f }
    f.name.elim o (o.exportIf isExported)
  | .cls c =>
    let o := { o with classes := o.classes ++ [ofClass c] }
    c.name.elim o (o.exportIf isExported)
  | .bindings declarators => declarators.foldl (addVariable isExported) o
  | .named kind name _ =>
    let o := o.exportIf isExported name
    { o with symbols := o.symbols ++ [(name, kind)] }
  | .ambient inner => o.addStatement isExported inner
  | .exported inner => o.addStatement true inner
  | .exportedDefault inner =>
    let o := o.addStatement false inner
    inner.name?.elim o (o.exportLocal defaultName)
  | .defaultFunction f =>
    let o := { o with functions := addFunction o.functions f }
    o.exportLocal defaultName (f.name.getD defaultName)
  | .defaultClass c =>
    let o := { o with classes := o.classes ++ [ofClass c] }
    o.exportLocal defaultName (c.name.getD defaultName)
  | .imports bindings _ => { o with imports := o.imports ++ bindings }
  | .exports entries _ => entries.foldl addExport o
  | .other _ => o

def ofScript (s : Script) : Outline :=
  s.statements.foldl (fun o statement => o.addStatement false statement) { damaged := s.damaged }

def ofText (dialect : Dialect) (text : String) : Outline := ofScript (Script.ofText dialect text)

end Outline

end CallDiagram
