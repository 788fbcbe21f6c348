import CallDiagram.FileTree.Basic

/-!
Finding what a path names. Pieces are followed one at a time from the root or from the working
directory; a link puts the pieces of its target in place of itself, at most `linkLimit` times in one
search. Everyone may read everything. Only `find` minds how long a path is: a place is located, made
canonical or met on a walk however far down it is.
-/

namespace CallDiagram

inductive AccessError
  | notFound
  | notADirectory
  | isADirectory
  | nameTooLong
  | tooManyLinks
  | notText
  deriving DecidableEq, Repr

def AccessError.message : AccessError → String
  | .notFound => "No such file or directory (os error 2)"
  | .notADirectory => "Not a directory (os error 20)"
  | .isADirectory => "Is a directory (os error 21)"
  | .nameTooLong => "File name too long (os error 36)"
  | .tooManyLinks => "Too many levels of symbolic links (os error 40)"
  | .notText => "stream did not contain valid UTF-8"

namespace FileTree

/-- How many links one search may go through. -/
def linkLimit : Nat := 40

def nameLimit : Nat := 255

/-- A path whose text has this many bytes or more finds nothing. -/
def pathLimit : Nat := 4096

inductive Search
  | found (place : Location)
  | failed (error : AccessError)
  | linked (directory : Location) (target : String) (rest : List String)

def follow (root : Entry) : Location → List String → Search
  | place, [] => .found place
  | place, piece :: rest =>
    if piece = "" ∨ piece = "." then follow root place rest
    else if piece = ".." then follow root place.dropLast rest
    else if nameLimit < piece.utf8ByteSize then .failed .nameTooLong
    else match root.at? (place ++ [piece]) with
      | none => .failed .notFound
      | some (.directory _) => follow root (place ++ [piece]) rest
      | some (.file _) =>
        match rest with
        | [] => .found (place ++ [piece])
        | _ :: _ => .failed .notADirectory
      | some (.link target) => .linked place target rest

def search (root : Entry) : Nat → Location → List String → Except AccessError Location
  | links, place, pieces =>
    match follow root place pieces with
    | .found place => .ok place
    | .failed e => .error e
    | .linked directory target rest =>
      match links with
      | 0 => .error .tooManyLinks
      | links + 1 =>
        let start := if (Path.mk target).isAbsolute then [] else directory
        search root links start (Text.pieces '/' target ++ rest)

def locate (t : FileTree) (p : Path) : Except AccessError Location :=
  if p.text = "" then .error .notFound
  else
    let start := if p.isAbsolute then [] else t.workingDirectory
    search t.root linkLimit start (Text.pieces '/' p.text)

def canonicalize (t : FileTree) (p : Path) : Except AccessError Path :=
  (t.locate p).map Location.toPath

def insert (t : FileTree) (place : Location) (e : Entry) : FileTree :=
  let place := match place.getLast?, t.locate (Location.toPath place.dropLast) with
    | some name, .ok directory => directory ++ [name]
    | _, _ => place
  { t with top := (e.insert place t.root).children }

def find (t : FileTree) (p : Path) : Except AccessError Entry :=
  if pathLimit ≤ p.text.utf8ByteSize then .error .nameTooLong
  else do
    match t.root.at? (← t.locate p) with
    | some e => .ok e
    | none => .error .notFound

def isFile (t : FileTree) (p : Path) : Bool :=
  match t.find p with
  | .ok e => e.isFile
  | .error _ => false

def isDirectory (t : FileTree) (p : Path) : Bool :=
  match t.find p with
  | .ok e => e.isDirectory
  | .error _ => false

def readText (t : FileTree) (p : Path) : Except AccessError String := do
  match ← t.find p with
  | .file (.text s) => .ok s
  | .file .binary => .error .notText
  | .directory _ => .error .isADirectory
  | .link _ => .error .notFound

end FileTree

end CallDiagram
