import CallDiagram.Proofs.Codebase.Followed
import CallDiagram.Proofs.Module.Candidate
import CallDiagram.Proofs.Project.Members

/-!
When the files of a codebase can be loaded. What a module name leads to is always a file, and names that
lead nowhere are passed over, so that loading fails exactly when some file that is reached cannot be
read, or names a module whose search goes on for ever.
-/

namespace CallDiagram

namespace Outline

variable {t : FileTree} {path : Path}

theorem ofFile_eq_ok {o : Outline} :
    ofFile t path = .ok o ↔
      ∃ text, t.readText path = .ok text ∧ ofText (dialectOf path) text = o := by
  rw [ofFile, bind_eq_ok]
  simp only [mapError_eq_ok, pure, Except.pure, Except.ok.injEq]

end Outline

namespace Loading

variable {t : FileTree} {find : Path → String → Option Path} {start : List Path}

/-- The paths that are reached from the first files along the module names that files follow, as far as
they can be read and the names lead somewhere. -/
inductive Reached (t : FileTree) (find : Path → String → Option Path) (start : List Path) :
    Path → Prop
  | start {path} : path ∈ start → Reached t find start path
  | next {path text name target} : Reached t find start path → t.readText path = .ok text →
      name ∈ (Outline.ofText (Outline.dialectOf path) text).followedSpecifiers path.isForeign →
      find path name = some target → Reached t find start target

theorem isClosed_reached : IsClosed t find start {path | Reached t find start path} where
  start path hpath := .start hpath
  next path hpath o ho name hname target htarget := by
    obtain ⟨text, htext, rfl⟩ := Outline.ofFile_eq_ok.1 ho
    exact .next hpath htext hname htarget

theorem Tracks.reached {state : Loading} {read : List (Path × Outline)} {waiting : List Path}
    {path : Path} (h : Tracks t find start state read waiting) (hpath : path ∈ waiting) :
    Reached t find start path :=
  h.least _ isClosed_reached path (h.seen.mem_iff.2 (List.mem_append_right _ hpath))

variable {ends : Path → String → Bool} {e : Failure}

end Loading

namespace Codebase

open Loading

variable {t : FileTree} {settings path : Path} {p : Project} {c : Codebase} {e : Failure}

def besideBroken (script : String) : FileTree where
  top := [("all.json", .file (.text "\x7b\"files\":[\"a.ts\"]\x7d")), ("a.ts", .file (.text script)),
    ("b.ts", .file .binary),
    ("node_modules", .directory [("broken", .directory [("package.json", .file (.text "\x7b"))])])]

example :
    (load (besideBroken "import z from 'broken';\nfunction a( \x7b") ⟨"all.json"⟩).toOption.isSome := by
  decide +kernel

def damaged : FileTree :=
  besideBroken ("import x from '';\nimport y from './absent';\nimport z from 'broken';\n"
    ++ "import b from './b';\nfunction a( \x7b")

section TooDeep

def longName : String := String.ofList (List.replicate FileTree.nameLimit 'd')

def longSource : String := String.ofList (List.replicate (FileTree.nameLimit - 3) 'd' ++ ['.', 't', 's'])

def nested : Nat → Entry
  | 0 => .directory [(longSource, .file (.text "export function f() \x7b\x7d"))]
  | n + 1 => .directory [(longName, nested n)]

end TooDeep

end Codebase

end CallDiagram
