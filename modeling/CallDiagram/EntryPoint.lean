import CallDiagram.Failure
import CallDiagram.Text.Blank
import CallDiagram.Text.Cut

namespace CallDiagram

inductive EntryPoint
  | function (name : String)
  | method (cls : String) (name : String)
  deriving DecidableEq, Repr

namespace EntryPoint

def parse? (input : String) : Option EntryPoint :=
  match (Text.cut '.' (Text.trimChars input.toList)).map Text.trimChars with
  | [name] => if name.isEmpty then none else some (.function (String.ofList name))
  | [cls, name] =>
    if cls.isEmpty || name.isEmpty then none
    else some (.method (String.ofList cls) (String.ofList name))
  | _ => none

def parse (input : String) : Except Failure EntryPoint :=
  match parse? input with
  | some entry => .ok entry
  | none => .error (.invalidTarget input)

def text : EntryPoint → String
  | .function name => name
  | .method cls name => cls ++ "." ++ name

end EntryPoint

end CallDiagram
