import CallDiagram.Text.Cut

/-!
Paths as they are written, and what they name piece by piece.

A path keeps its text, because messages show it; two paths that differ only in doubled slashes or in
`.` pieces have the same components. All names are Unicode text: there are no paths of other bytes.
-/

namespace CallDiagram

structure Path where
  text : String
  deriving DecidableEq, Repr

namespace Path

inductive Component
  | root
  | here
  | up
  | name (s : String)
  deriving DecidableEq, Repr

def isAbsolute (p : Path) : Bool := p.text.toList.head? == some '/'

/-- The start of the text that is no piece of its own: the slash of an absolute path, or a leading
`.` of a relative one. -/
def anchor : List Char → List Char
  | '/' :: _ => ['/']
  | ['.'] => ['.']
  | '.' :: '/' :: _ => ['.']
  | _ => []

def body (cs : List Char) : List (List Char) := Text.cut '/' (cs.drop (anchor cs).length)

def isIdle : List Char → Bool
  | [] => true
  | ['.'] => true
  | _ => false

def pieceComponent (piece : List Char) : Component :=
  if piece = ['.', '.'] then .up else .name (String.ofList piece)

def components (p : Path) : List Component :=
  let cs := p.text.toList
  let start := match anchor cs with
    | ['/'] => [.root]
    | ['.'] => [.here]
    | _ => []
  start ++ ((body cs).filter (! isIdle ·)).map pieceComponent

def names (p : Path) : List String :=
  p.components.filterMap fun
    | .name s => some s
    | _ => none

def sameAs (p q : Path) : Bool := p.components == q.components

/-- The text left when the last piece that names something is taken off, or nothing when there is
no such piece to take. -/
def parent (p : Path) : Option Path :=
  let cs := p.text.toList
  let trimEnd (pieces : List (List Char)) := (pieces.reverse.dropWhile isIdle).reverse
  match trimEnd (body cs) with
  | [] => match anchor cs with
    | ['.'] => some ⟨""⟩
    | _ => none
  | pieces => some ⟨String.ofList (anchor cs ++ Text.join '/' (trimEnd pieces.dropLast))⟩

def ancestors (p : Path) : List Path :=
  climb p.components.length p
where
  climb : Nat → Path → List Path
    | 0, p => [p]
    | n + 1, p => match p.parent with
      | none => [p]
      | some q => p :: climb n q

def fileName? (p : Path) : Option String :=
  match p.components.getLast? with
  | some (.name s) => some s
  | _ => none

def splitAtDot (name : List Char) : List Char × Option (List Char) :=
  match (Text.cut '.' name).reverse with
  | [] | [_] => (name, none)
  | ending :: rest =>
    match Text.join '.' rest.reverse with
    | [] => (name, none)
    | stem => (stem, some ending)

def extension? (p : Path) : Option String :=
  p.fileName?.bind fun name => (splitAtDot name.toList).2.map String.ofList

def withoutExtension (p : Path) : Path :=
  match p.extension? with
  | none => p
  | some _ =>
    let cs := p.text.toList
    match (body cs).reverse.dropWhile isIdle with
    | [] => p
    | name :: rest =>
      ⟨String.ofList (anchor cs ++ Text.join '/' (rest.reverse ++ [(splitAtDot name).1]))⟩

def withSuffix (p : Path) (ext : String) : Path := ⟨p.text ++ "." ++ ext⟩

def join (p : Path) (text : String) : Path :=
  if (Path.mk text).isAbsolute then ⟨text⟩
  else match p.text.toList.getLast? with
    | none | some '/' => ⟨p.text ++ text⟩
    | some _ => ⟨p.text ++ "/" ++ text⟩

def hasComponent (p : Path) (s : String) : Bool := p.components.contains (.name s)

end Path

/-- A place in a file tree: the names from the root down, none of them a link. -/
abbrev Location := List String

namespace Location

def toPath (l : Location) : Path := ⟨"/" ++ Text.unpieces '/' l⟩

end Location

end CallDiagram
