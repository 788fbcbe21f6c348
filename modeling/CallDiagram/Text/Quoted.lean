namespace CallDiagram.Text.Quoted

def escape (c : Char) : List Char := if c = '"' ∨ c = '\\' then ['\\', c] else [c]

def encode (cs : List Char) : List Char := '"' :: cs.flatMap escape ++ ['"']

end CallDiagram.Text.Quoted

namespace CallDiagram.Text

def quote (s : String) : String := String.ofList (Quoted.encode s.toList)

end CallDiagram.Text
