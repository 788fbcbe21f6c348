import CallDiagram.Text.Cut

namespace CallDiagram.ModulePattern

def splitAtStar (pattern : List Char) : List Char × Option (List Char) :=
  match pattern.dropWhile (· ≠ '*') with
  | [] => (pattern, none)
  | _ :: after => (pattern.takeWhile (· ≠ '*'), some after)

def dropEnd? (ending cs : List Char) : Option (List Char) :=
  if ending.isSuffixOf cs then some (cs.take (cs.length - ending.length)) else none

def matchChars? (pattern name : List Char) : Option (List Char) :=
  match splitAtStar pattern with
  | (before, some after) =>
    if before.isPrefixOf name then dropEnd? after (name.drop before.length) else none
  | (_, none) => if pattern = name then some [] else none

def match? (pattern name : String) : Option String :=
  (matchChars? pattern.toList name.toList).map String.ofList

def fill (target text : String) : String :=
  String.ofList (target.toList.flatMap fun c => if c = '*' then text.toList else [c])

def specificity (pattern : String) : Nat :=
  (String.ofList (splitAtStar pattern.toList).1).utf8ByteSize

end CallDiagram.ModulePattern
