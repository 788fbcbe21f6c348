import CallDiagram.Data.Value

namespace CallDiagram.Data.Json

def isSpace (c : Char) : Bool := c == ' ' || c == '\n' || c == '\t' || c == '\r'

def skip (cs : List Char) : List Char := cs.dropWhile isSpace

def units : List Char → Option (List Nat × List Char)
  | [] => none
  | '"' :: rest => some ([], rest)
  | '\\' :: 'u' :: a :: b :: c :: d :: rest => do
    let unit ← hexValue? [a, b, c, d]
    let (more, rest) ← units rest
    return (unit :: more, rest)
  | '\\' :: c :: rest => do
    let unit ← match c with
      | '"' | '\\' | '/' => some c.toNat
      | 'b' => some 8
      | 'f' => some 12
      | 'n' => some 10
      | 'r' => some 13
      | 't' => some 9
      | _ => none
    let (more, rest) ← units rest
    return (unit :: more, rest)
  | c :: rest =>
    if c.toNat < 32 then none
    else do
      let (more, rest) ← units rest
      return (c.toNat :: more, rest)

def text (cs : List Char) : Option (Option String × List Char) :=
  (units cs).map fun (units, rest) => ((textOfUnits units).map String.ofList, rest)

def digits (cs : List Char) : Option (List Char) :=
  match cs.dropWhile Char.isDigit with
  | rest => if rest.length < cs.length then some rest else none

def exponent (cs : List Char) : Option (List Char) :=
  match cs with
  | 'e' :: rest | 'E' :: rest =>
    match rest with
    | '+' :: rest | '-' :: rest => digits rest
    | rest => digits rest
  | rest => some rest

def fraction (cs : List Char) : Option (List Char) :=
  match cs with
  | '.' :: rest => digits rest
  | rest => some rest

def number (cs : List Char) : Option (List Char) := do
  let cs := match cs with
    | '-' :: rest => rest
    | rest => rest
  let rest ← match cs with
    | '0' :: c :: rest => if c.isDigit then none else some (c :: rest)
    | '0' :: [] => some []
    | rest => digits rest
  exponent (← fraction rest)

mutual
def value : Nat → List Char → Option (Value × List Char)
  | 0, _ => none
  | n + 1, cs =>
    match skip cs with
    | '{' :: rest =>
      match skip rest with
      | '}' :: rest => some (.object [], rest)
      | rest => (members n rest).map fun (all, rest) => (.object all, rest)
    | '[' :: rest =>
      match skip rest with
      | ']' :: rest => some (.array [], rest)
      | rest => (items n rest).map fun (all, rest) => (.array all, rest)
    | '"' :: rest => (text rest).map fun (s, rest) => (.string s, rest)
    | cs =>
      match dropWord? "null" cs with
      | some rest => some (.null, rest)
      | none =>
        match (dropWord? "true" cs).orElse fun _ => dropWord? "false" cs with
        | some rest => some (.bool, rest)
        | none => (number cs).map fun rest => (.number true, rest)

def items : Nat → List Char → Option (List Value × List Char)
  | 0, _ => none
  | n + 1, cs => do
    let (item, rest) ← value n cs
    match skip rest with
    | ',' :: rest =>
      let (more, rest) ← items n rest
      return (item :: more, rest)
    | ']' :: rest => return ([item], rest)
    | _ => none

def members : Nat → List Char → Option (List (Option String × Value) × List Char)
  | 0, _ => none
  | n + 1, cs => do
    match skip cs with
    | '"' :: rest =>
      let (key, rest) ← text rest
      match skip rest with
      | ':' :: rest =>
        let (item, rest) ← value n rest
        match skip rest with
        | ',' :: rest =>
          let (more, rest) ← members n rest
          return ((key, item) :: more, rest)
        | '}' :: rest => return ([(key, item)], rest)
        | _ => none
      | _ => none
    | _ => none
end

def read (s : String) : Option Value :=
  match value (s.length + 1) s.toList with
  | some (v, rest) => if (skip rest).isEmpty then some v else none
  | none => none

end CallDiagram.Data.Json
