import CallDiagram.Data.Decimal
import CallDiagram.Data.Value
import CallDiagram.Text.Letter

namespace CallDiagram.Data.Json5

def isLineEnd (c : Char) : Bool :=
  c == '\n' || c == '\r' || c == '\u2028' || c == '\u2029'

def isSpace (c : Char) : Bool :=
  let n := c.toNat
  isLineEnd c || n == 9 || n == 11 || n == 12 || n == 0x20 || n == 0xA0 || n == 0xFEFF ||
    n == 0x1680 || (0x2000 ≤ n && n ≤ 0x200A) || n == 0x202F || n == 0x205F || n == 0x3000

inductive Gap
  | blank
  | line
  | block

def skipFrom : Gap → List Char → List Char
  | .blank, '/' :: '/' :: rest => skipFrom .line rest
  | .blank, '/' :: '*' :: rest => skipFrom .block rest
  | .blank, c :: rest => if isSpace c then skipFrom .blank rest else c :: rest
  | .line, c :: rest => if isLineEnd c then skipFrom .blank rest else skipFrom .line rest
  | .block, '*' :: '/' :: rest => skipFrom .blank rest
  | .block, _ :: rest => skipFrom .block rest
  | .block, [] => ['/']
  | _, [] => []

def skip (cs : List Char) : List Char := skipFrom .blank cs

def escapeUnit? (c : Char) : Option Nat :=
  match c with
  | 'b' => some 8
  | 'f' => some 12
  | 'n' => some 10
  | 'r' => some 13
  | 't' => some 9
  | 'v' => some 11
  | '0' => some 0
  | 'x' | 'u' => none
  | c => if c.isDigit then none else some c.toNat

def units (quote : Char) : List Char → Option (List Nat × List Char)
  | [] => none
  | '\\' :: '\r' :: '\n' :: rest => units quote rest
  | '\\' :: 'x' :: a :: b :: rest => do
    let unit ← hexValue? [a, b]
    let (more, rest) ← units quote rest
    return (unit :: more, rest)
  | '\\' :: 'u' :: a :: b :: c :: d :: rest => do
    let unit ← hexValue? [a, b, c, d]
    let (more, rest) ← units quote rest
    return (unit :: more, rest)
  | '\\' :: c :: rest =>
    if isLineEnd c then units quote rest
    else do
      let unit ← escapeUnit? c
      let (more, rest) ← units quote rest
      return (unit :: more, rest)
  | c :: rest =>
    if c = quote then some ([], rest)
    else if isLineEnd c || c == '\\' then none
    else do
      let (more, rest) ← units quote rest
      return (c.toNat :: more, rest)

def spell (units : List Nat) : Option String := (textOfUnits units).map String.ofList

def isNameStart (c : Char) : Bool := c == '$' || c == '_' || Text.isLetter c

def nameUnits (first : Bool) : List Char → Option (List Nat × List Char)
  | '\\' :: 'u' :: a :: b :: c :: d :: rest => do
    let unit ← hexValue? [a, b, c, d]
    let (more, rest) ← nameUnits false rest
    return (unit :: more, rest)
  | c :: rest =>
    if isNameStart c || (!first && Text.isNameContinuation c) then do
      let (more, rest) ← nameUnits false rest
      return (c.toNat :: more, rest)
    else if first then none else some ([], c :: rest)
  | [] => if first then none else some ([], [])

def key (cs : List Char) : Option (Option String × List Char) :=
  match cs with
  | '"' :: rest => (units '"' rest).map fun (units, rest) => (spell units, rest)
  | '\'' :: rest => (units '\'' rest).map fun (units, rest) => (spell units, rest)
  | cs => (nameUnits true cs).map fun (units, rest) => (spell units, rest)

def exponent (cs : List Char) : Option Int × List Char :=
  let read (sign : Int) (rest : List Char) : Option Int × List Char :=
    let digits := rest.takeWhile Char.isDigit
    if digits.isEmpty then (none, cs)
    else (some (sign * Decimal.ofDigits digits), rest.drop digits.length)
  match cs with
  | 'e' :: '+' :: rest | 'E' :: '+' :: rest => read 1 rest
  | 'e' :: '-' :: rest | 'E' :: '-' :: rest => read (-1) rest
  | 'e' :: rest | 'E' :: rest => read 1 rest
  | _ => (none, cs)

def fitsWord (negative : Bool) (n : Nat) : Bool :=
  if negative then n ≤ Nat.pow 2 63 else n < Nat.pow 2 63

def decimal (negative : Bool) (cs : List Char) : Option (Bool × List Char) :=
  let whole := match cs with
    | '0' :: _ => ['0']
    | cs => cs.takeWhile Char.isDigit
  match cs.drop whole.length with
  | '.' :: rest =>
    let part := rest.takeWhile Char.isDigit
    if whole.isEmpty && part.isEmpty then none
    else
      let (e?, rest) := exponent (rest.drop part.length)
      some (Decimal.isFinite (Decimal.ofDigits (whole ++ part)) (e?.getD 0 - part.length), rest)
  | rest =>
    if whole.isEmpty then none
    else match exponent rest with
      | (some e, rest) => some (Decimal.isFinite (Decimal.ofDigits whole) e, rest)
      | (none, rest) => some (fitsWord negative (Decimal.ofDigits whole), rest)

def isHexDigit (c : Char) : Bool := (hexValue? [c]).isSome

def unsigned (sign : Option Char) (cs : List Char) : Option (Bool × List Char) :=
  let hex (rest : List Char) : Option (Bool × List Char) :=
    let digits := rest.takeWhile isHexDigit
    match digits, hexValue? digits with
    | _ :: _, some n => some (sign.isNone && n < Nat.pow 2 32, rest.drop digits.length)
    | _, _ => decimal (sign == some '-') cs
  match cs with
  | '0' :: 'x' :: rest | '0' :: 'X' :: rest => hex rest
  | cs =>
    match decimal (sign == some '-') cs with
    | some found => some found
    | none =>
      match (dropWord? "Infinity" cs).orElse fun _ => dropWord? "NaN" cs with
      | some rest => some (sign != some '+', rest)
      | none => none

def number (cs : List Char) : Option (Bool × List Char) :=
  match cs with
  | '+' :: rest => unsigned (some '+') rest
  | '-' :: rest => unsigned (some '-') rest
  | cs => unsigned none cs

mutual
def value : Nat → List Char → Option (Value × List Char)
  | 0, _ => none
  | n + 1, cs =>
    match cs with
    | '{' :: rest =>
      match skip rest with
      | '}' :: rest => some (.object [], rest)
      | rest => (members n rest).map fun (all, rest) => (.object all, rest)
    | '[' :: rest =>
      match skip rest with
      | ']' :: rest => some (.array [], rest)
      | rest => (items n rest).map fun (all, rest) => (.array all, rest)
    | '"' :: rest => (units '"' rest).map fun (units, rest) => (.string (spell units), rest)
    | '\'' :: rest => (units '\'' rest).map fun (units, rest) => (.string (spell units), rest)
    | cs =>
      match dropWord? "null" cs with
      | some rest => some (.null, rest)
      | none =>
        match (dropWord? "true" cs).orElse fun _ => dropWord? "false" cs with
        | some rest => some (.bool, rest)
        | none => (number cs).map fun (readable, rest) => (.number readable, rest)

def items : Nat → List Char → Option (List Value × List Char)
  | 0, _ => none
  | n + 1, cs => do
    let (item, rest) ← value n cs
    match skip rest with
    | ']' :: rest => return ([item], rest)
    | ',' :: rest =>
      match skip rest with
      | ']' :: rest => return ([item], rest)
      | rest =>
        let (more, rest) ← items n rest
        return (item :: more, rest)
    | _ => none

def members : Nat → List Char → Option (List (Option String × Value) × List Char)
  | 0, _ => none
  | n + 1, cs => do
    let (name, rest) ← key cs
    match skip rest with
    | ':' :: rest =>
      let (item, rest) ← value n (skip rest)
      match skip rest with
      | '}' :: rest => return ([(name, item)], rest)
      | ',' :: rest =>
        match skip rest with
        | '}' :: rest => return ([(name, item)], rest)
        | rest =>
          let (more, rest) ← members n rest
          return ((name, item) :: more, rest)
      | _ => none
    | _ => none
end

def read (s : String) : Option Value :=
  match value (s.length + 1) (skip s.toList) with
  | some (v, rest) => if (skip rest).isEmpty then some v else none
  | none => none

end CallDiagram.Data.Json5
