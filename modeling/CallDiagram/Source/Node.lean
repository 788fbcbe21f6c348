import CallDiagram.Call.Site

/-!
Pieces of a program. Only what calls, names and types depend on has a form of its own; of everything
else the parts are kept, in the order they are written. `walk` visits the pieces below a list of
them, each before its parts.
-/

namespace CallDiagram

inductive Node
  | name (text : String)
  | this
  | super
  | member (object : Node) (property : String)
  /-- A call that starts on `line`, or a template behind a tag. Its parts are the pieces of its type
  arguments, and its arguments or what is substituted in the template. -/
  | call (function : Option Node) (isTemplate : Bool) (parts : List Node) (line : Nat)
  | creation (constructor : Node) (parts : List Node)
  | declarator (target : Node) (typeName : Option String) (types : List Node) (value : Option Node)
  | other (parts : List Node)

namespace Node

def children : Node → List Node
  | .name _ | .this | .super => []
  | .member object _ => [object]
  | .call function _ parts _ => function.toList ++ parts
  | .creation constructor parts => constructor :: parts
  | .declarator target _ types value => target :: (types ++ value.toList)
  | .other parts => parts

noncomputable def weight (nodes : List Node) : Nat :=
  nodes.foldr (fun n total => sizeOf n + total) 0

@[simp] theorem weight_nil : weight [] = 0 := rfl

@[simp] theorem weight_cons (n : Node) (nodes : List Node) :
    weight (n :: nodes) = sizeOf n + weight nodes := rfl

@[simp] theorem weight_append (l m : List Node) : weight (l ++ m) = weight l + weight m := by
  induction l with
  | nil => simp
  | cons n l ih => simp [ih, Nat.add_assoc]

theorem weight_le (nodes : List Node) : weight nodes ≤ sizeOf nodes := by
  induction nodes with
  | nil => simp
  | cons n nodes ih => simp; omega

theorem weight_children_lt (n : Node) : weight n.children < sizeOf n := by
  cases n with
  | name => simp only [children, weight_nil, Node.name.sizeOf_spec]; omega
  | this | super => simp [children]
  | member => simp [children]; omega
  | call function _ parts =>
    have := weight_le parts
    cases function <;> simp [children] <;> omega
  | creation _ parts => have := weight_le parts; simp [children]; omega
  | declarator _ _ types value =>
    have := weight_le types
    cases value <;> simp [children] <;> omega
  | other parts => have := weight_le parts; simp [children]; omega

def walk : List Node → List Node
  | [] => []
  | n :: stack => n :: walk (n.children ++ stack)
termination_by stack => weight stack
decreasing_by
  have := weight_children_lt n
  simp
  omega

def receiver : Node → Receiver
  | .this => .this
  | .super => .super
  | .name text => .ident text
  | .member .this field => .thisField field
  | _ => .expression

def callee : Node → Callee
  | .name text => .name text
  | .member object property => .member object.receiver property
  | _ => .other

def callSite? : Node → Option CallSite
  | .call function isTemplate _ line =>
    if isTemplate then none else function.map fun function => ⟨function.callee, line⟩
  | _ => none

def className? : Node → Option String
  | .name text => some text
  | .member _ property => some property
  | _ => none

def createdClass? : Node → Option String
  | .creation constructor _ => constructor.className?
  | _ => none

/-- A variable whose class is known from its type, or else from the new object it starts with. -/
def binding? : Node → Option (String × String)
  | .declarator (.name text) typeName _ value =>
    (typeName.or (value.bind createdClass?)).map fun cls => (text, cls)
  | _ => none

end Node

end CallDiagram
