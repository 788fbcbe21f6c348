import CallDiagram.Call.Declaration
import CallDiagram.Source.Node

namespace CallDiagram

structure Parameter where
  name : Option String
  typeName : Option String
  isField : Bool
  parts : List Node

structure Signature where
  head : List Node := []
  parameters : List Parameter
  result : List Node := []

structure Function extends Signature where
  name : Option String
  line : Nat
  body : Option Node

inductive Key
  | name (text : String)
  | literal
  | computed (key : Node)

structure Method where
  key : Key
  isStatic : Bool
  isAccessor : Bool
  function : Function

inductive ClassMember
  | method (m : Method)
  | field (key : Key) (typeName : Option String) (types : List Node) (value : Option Node)
  | other (part : Node)

structure ClassDefinition where
  name : Option String
  line : Nat
  decorators : List Node
  typeParameters : List Node
  base : Option Node
  supertypes : List Node
  members : List ClassMember

inductive Imported
  | named (name : String)
  | default
  | namespace
  deriving DecidableEq, Repr

structure ImportBinding where
  name : String
  source : String
  imported : Imported
  deriving DecidableEq, Repr

inductive ExportEntry
  | local (exported name : String)
  | named (exported imported source : String)
  | namespace (exported source : String)
  | all (source : String)
  deriving DecidableEq, Repr

namespace ExportEntry

def source? : ExportEntry → Option String
  | .local _ _ => none
  | .named _ _ source | .namespace _ source | .all source => some source

def localName? : ExportEntry → Option String
  | .local _ name => some name
  | _ => none

end ExportEntry

inductive Statement
  | function (f : Function)
  | cls (c : ClassDefinition)
  | bindings (declarators : List Node)
  | named (kind : SymbolKind) (name : String) (parts : List Node)
  | ambient (inner : Statement)
  | exported (inner : Statement)
  | exportedDefault (inner : Statement)
  | defaultFunction (f : Function)
  | defaultClass (c : ClassDefinition)
  | imports (bindings : List ImportBinding) (parts : List Node)
  | exports (entries : List ExportEntry) (parts : List Node)
  | other (part : Node)

def Signature.nodes (s : Signature) : List Node :=
  s.head ++ s.parameters.flatMap Parameter.parts ++ s.result

def Function.nodes (f : Function) : List Node := f.toSignature.nodes ++ f.body.toList

namespace Key

def nodes : Key → List Node
  | .computed key => [key]
  | _ => []

def name? : Key → Option String
  | .name text => some text
  | _ => none

end Key

def ClassMember.nodes : ClassMember → List Node
  | .method m => m.key.nodes ++ m.function.nodes
  | .field key _ types value => key.nodes ++ types ++ value.toList
  | .other part => [part]

def ClassDefinition.nodes (c : ClassDefinition) : List Node :=
  c.decorators ++ c.typeParameters ++ c.base.toList ++ c.supertypes ++ c.members.flatMap ClassMember.nodes

namespace Statement

def name? : Statement → Option String
  | .function f => f.name
  | .cls c => c.name
  | .named _ name _ => some name
  | _ => none

def nodes : Statement → List Node
  | .function f | .defaultFunction f => f.nodes
  | .cls c | .defaultClass c => c.nodes
  | .bindings declarators => declarators
  | .named _ _ parts => parts
  | .ambient inner | .exported inner | .exportedDefault inner => inner.nodes
  | .imports _ parts | .exports _ parts => parts
  | .other part => [part]

def decorate (decorators : List Node) : Statement → Statement
  | .function f => .function { f with head := decorators ++ f.head }
  | .cls c => .cls { c with decorators := decorators ++ c.decorators }
  | .bindings declarators => .bindings (decorators ++ declarators)
  | .named kind name parts => .named kind name (decorators ++ parts)
  | .ambient inner => .ambient (inner.decorate decorators)
  | .exported inner => .exported (inner.decorate decorators)
  | .exportedDefault inner => .exportedDefault (inner.decorate decorators)
  | .defaultFunction f => .defaultFunction { f with head := decorators ++ f.head }
  | .defaultClass c => .defaultClass { c with decorators := decorators ++ c.decorators }
  | .imports names parts => .imports names (decorators ++ parts)
  | .exports entries parts => .exports entries (decorators ++ parts)
  | .other part => .other (.other (decorators ++ [part]))

end Statement

end CallDiagram
