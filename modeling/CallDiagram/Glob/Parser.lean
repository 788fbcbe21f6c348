import CallDiagram.Failure
import CallDiagram.Glob.Basic

namespace CallDiagram.Glob

structure OpenGroup where
  branches : List (List Token)
  before : List Token

structure Progress where
  previous : Option Char := none
  tokens : List Token := []
  groups : List OpenGroup := []

namespace Progress

def push (p : Progress) (read : Char) (token : Token) : Progress :=
  { p with previous := some read, tokens := token :: p.tokens }

def pushStars (p : Progress) : Progress := (p.push '*' .anything).push '*' .anything

def replaceSlash (p : Progress) (read : Char) (token : Token) : Progress :=
  let tokens := match p.tokens with
    | .directoriesFirst :: rest => .directoriesFirst :: rest
    | .directoriesLast :: rest => .directoriesLast :: rest
    | _ :: rest => token :: rest
    | [] => [token]
  { p with previous := some read, tokens := tokens }

def atBoundary (p : Progress) : Bool :=
  p.previous == some '/' || (!p.groups.isEmpty && (p.previous == some ',' || p.previous == some '{'))

def afterStars (p : Progress) (rest : List Char) : Progress × List Char :=
  if p.tokens.isEmpty then
    match rest with
    | [] => (p.push '*' .directoriesFirst, [])
    | '/' :: rest => (p.push '/' .directoriesFirst, rest)
    | rest => (p.pushStars, rest)
  else if !p.atBoundary then (p.pushStars, rest)
  else
    match rest with
    | [] => (p.replaceSlash '*' .directoriesLast, [])
    | '/' :: rest => (p.replaceSlash '/' .directoriesBetween, rest)
    | c :: rest =>
      if (c == ',' || c == '}') && !p.groups.isEmpty then
        (p.replaceSlash '*' .directoriesLast, c :: rest)
      else (p.pushStars, c :: rest)

end Progress

def classRanges (first inRange : Bool) (ranges : List (Char × Char)) :
    List Char → Except GlobError (List (Char × Char) × List Char)
  | [] => .error .unclosedClass
  | c :: rest =>
    if c = ']' ∧ first = false then
      .ok ((if inRange then ('-', '-') :: ranges else ranges).reverse, rest)
    else if c = '-' ∧ first = false ∧ inRange = false then classRanges false true ranges rest
    else
      match inRange, ranges with
      | true, (low, _) :: others =>
        if c < low then .error (.invalidRange low c)
        else classRanges false false ((low, c) :: others) rest
      | _, _ => classRanges false false ((c, c) :: ranges) rest

def readClass : List Char → Except GlobError (Token × List Char)
  | '!' :: rest | '^' :: rest => do
    let (ranges, rest) ← classRanges true false [] rest
    return (.oneOf true ranges, rest)
  | rest => do
    let (ranges, rest) ← classRanges true false [] rest
    return (.oneOf false ranges, rest)

def readFrom : (n : Nat) → Progress → List Char → Except GlobError Progress
  | 0, p, _ => .ok p
  | _ + 1, p, [] => .ok p
  | n + 1, p, c :: rest =>
    match c, rest with
    | '?', rest => readFrom n (p.push '?' .anyByte) rest
    | '*', '*' :: rest =>
      let (p, rest) := p.afterStars rest
      readFrom n p rest
    | '*', rest => readFrom n (p.push '*' .anything) rest
    | '[', rest => do
      let (token, rest) ← readClass rest
      readFrom n (p.push ']' token) rest
    | '{', rest => readFrom n ⟨some '{', [], ⟨[], p.tokens⟩ :: p.groups⟩ rest
    | '}', rest =>
      match p.groups with
      | [] => .error .unopenedAlternates
      | group :: groups =>
        let branches := (p.tokens.reverse :: group.branches).reverse
        readFrom n ⟨some '}', .alternatives branches :: group.before, groups⟩ rest
    | ',', rest =>
      match p.groups with
      | [] => readFrom n (p.push ',' (.literal ',')) rest
      | group :: groups =>
        let group : OpenGroup := { group with branches := p.tokens.reverse :: group.branches }
        readFrom n ⟨some ',', [], group :: groups⟩ rest
    | '\\', [] => .error .danglingEscape
    | '\\', c :: rest => readFrom n (p.push c (.literal c)) rest
    | c, rest => readFrom n (p.push c (.literal c)) rest

def parse (pattern : String) : Except GlobError Glob := do
  let p ← readFrom pattern.length {} pattern.toList
  if p.groups.isEmpty then .ok ⟨p.tokens.reverse⟩ else .error .unclosedAlternates

end CallDiagram.Glob
