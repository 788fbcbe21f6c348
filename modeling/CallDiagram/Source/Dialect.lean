import CallDiagram.Path.Basic

namespace CallDiagram

inductive Dialect
  | typeScript
  | tsx
  | javaScript
  deriving DecidableEq, Repr

namespace Dialect

/-- Upper and lower case do not matter; the extensions hold ASCII letters alone, so no other letter
has one of them for its lower case. -/
def ofExtension? (ext : String) : Option Dialect :=
  match String.ofList (ext.toList.map Char.toLower) with
  | "ts" | "mts" | "cts" => some .typeScript
  | "tsx" => some .tsx
  | "js" | "mjs" | "cjs" | "jsx" => some .javaScript
  | _ => none

def ofPath? (p : Path) : Option Dialect := p.extension?.bind ofExtension?

def name : Dialect → String
  | .typeScript => "TypeScript"
  | .tsx => "TSX"
  | .javaScript => "JavaScript"

def isProjectSource : Dialect → Bool
  | .typeScript | .tsx => true
  | .javaScript => false

def hasMarkup : Dialect → Bool
  | .typeScript => false
  | .tsx | .javaScript => true

def moduleExtensions : List String :=
  ["ts", "tsx", "d.ts", "mts", "cts", "js", "mjs", "cjs", "jsx"]

end Dialect

def Path.isDeclarationFile (p : Path) : Bool :=
  match p.fileName? with
  | none => false
  | some name => [".d.ts", ".d.mts", ".d.cts"].any fun ending => ending.toList.isSuffixOf name.toList

end CallDiagram
