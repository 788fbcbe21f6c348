namespace CallDiagram.PackageName

def splitAtSlash? : (count : Nat) → List Char → Option (List Char × List Char)
  | _, [] => none
  | count, c :: cs =>
    if c = '/' then
      match count with
      | 0 | 1 => some ([], cs)
      | count + 1 => (splitAtSlash? count cs).map fun (before, behind) => (c :: before, behind)
    else (splitAtSlash? count cs).map fun (before, behind) => (c :: before, behind)

def ownSlashes : List Char → Nat
  | '@' :: _ => 2
  | _ => 1

def splitChars? (name : List Char) : Option (List Char × Option (List Char)) :=
  match splitAtSlash? (ownSlashes name) name with
  | some (package, inside) =>
    if package.isEmpty then some (name, none)
    else some (package, if inside.isEmpty then none else some inside)
  | none => if ownSlashes name = 2 ∧ '/' ∉ name then none else some (name, none)

def split? (name : String) : Option (String × Option String) :=
  (splitChars? name.toList).map fun (package, inside) =>
    (String.ofList package, inside.map String.ofList)

/-- The package that declares the types of another: a scope is joined to the name by `__`. -/
def typesOf (package : String) : String :=
  match package.toList with
  | '@' :: full =>
    match splitAtSlash? 1 full with
    | some (scope, name) => String.ofList (scope ++ ['_', '_'] ++ name)
    | none => String.ofList full
  | _ => package

end CallDiagram.PackageName
