import CallDiagram.Path.Basic

namespace CallDiagram

/-- What a file holds, as far as reading it as text can tell. -/
inductive Contents
  | text (s : String)
  | binary
  deriving DecidableEq

inductive Entry
  | file (contents : Contents)
  | link (target : String)
  | directory (children : List (String × Entry))

structure FileTree where
  top : List (String × Entry)
  workingDirectory : Location := []

namespace Entry

def isDirectory : Entry → Bool
  | .directory _ => true
  | _ => false

def isFile : Entry → Bool
  | .file _ => true
  | _ => false

def child? : Entry → String → Option Entry
  | .directory children, name => children.lookup name
  | _, _ => none

def at? : Entry → Location → Option Entry
  | e, [] => some e
  | e, name :: names => (e.child? name).bind (at? · names)

@[simp] theorem at?_nil (e : Entry) : e.at? [] = some e := rfl

theorem at?_append (e : Entry) (l m : Location) : e.at? (l ++ m) = (e.at? l).bind (·.at? m) := by
  induction l generalizing e with
  | nil => rfl
  | cons name names ih => cases h : e.child? name <;> simp [at?, h, ih]

def children : Entry → List (String × Entry)
  | .directory children => children
  | _ => []

def insert (new : Entry) : Location → Entry → Entry
  | [], _ => new
  | name :: names, e =>
    let child := (e.child? name).getD (.directory [])
    .directory (e.children.filter (·.1 ≠ name) ++ [(name, insert new names child)])

mutual
/-- The places of the regular files below an entry. Links are not followed, and directories whose
name satisfies `skip` are not entered. -/
def files (skip : String → Bool) : Entry → List Location
  | .file _ => [[]]
  | .link _ => []
  | .directory children => filesAmong skip children

def filesAmong (skip : String → Bool) : List (String × Entry) → List Location
  | [] => []
  | (name, e) :: rest =>
    (if e.isDirectory && skip name then [] else (e.files skip).map (name :: ·))
      ++ filesAmong skip rest
end

end Entry

namespace FileTree

def root (t : FileTree) : Entry := .directory t.top

end FileTree

end CallDiagram
