namespace CallDiagram.Data.Decimal

def ofDigits (digits : List Char) : Nat :=
  digits.foldl (fun n c => n * 10 + (c.toNat - '0'.toNat)) 0

def bound : Nat := Nat.pow 2 1024 - Nat.pow 2 970

def isFinite (mantissa : Nat) (scale : Int) : Bool :=
  if mantissa = 0 then true
  else
    let size : Int := (Nat.toDigits 10 mantissa).length + scale
    if 310 < size then false
    else if size < 308 then true
    else if 0 ≤ scale then mantissa * Nat.pow 10 scale.toNat < bound
    else mantissa < bound * Nat.pow 10 (-scale).toNat

end CallDiagram.Data.Decimal
