import CallDiagram.FileTree.Lookup

namespace CallDiagram

inductive GlobError
  | unclosedClass
  | invalidRange (low high : Char)
  | unclosedAlternates
  | unopenedAlternates
  | danglingEscape
  deriving DecidableEq, Repr

namespace GlobError

def message : GlobError → String
  | .unclosedClass => "unclosed character class; missing ']'"
  | .invalidRange low high => "invalid range; '" ++ low.toString ++ "' > '" ++ high.toString ++ "'"
  | .unclosedAlternates =>
    "unclosed alternate group; missing '\x7d' (maybe escape '\x7b' with '[\x7b]'?)"
  | .unopenedAlternates =>
    "unopened alternate group; missing '\x7b' (maybe escape '\x7d' with '[\x7d]'?)"
  | .danglingEscape => "dangling '\\'"

end GlobError

inductive SourceError
  | inaccessible (reason : AccessError)
  /-- The search for a module that the file names goes on for ever. -/
  | endlessSearch (name : String)
  deriving DecidableEq, Repr

inductive Failure
  | invalidTarget (input : String)
  | fileNotInProject (file : Path)
  | functionNotFound (name : String) (file : Path)
  | classNotFound (name : String) (file : Path)
  | methodNotFound (name : String) (cls : String) (file : Path)
  | settingsNotFound (path : Path) (reason : AccessError)
  | settingsUnreadable (path : Path) (reason : AccessError)
  | settingsInvalid (path : Path)
  | settingsTooDeep (path : Path)
  | projectFileNotFound (path : Path) (reason : AccessError)
  | globInvalid (glob : String) (reason : GlobError)
  | sourceUnreadable (path : Path) (reason : SourceError)
  deriving DecidableEq, Repr

namespace Failure

def message : Failure → String
  | .invalidTarget input =>
    "Invalid call target '" ++ input ++ "': expected `function` or `Class.method`"
  | .fileNotInProject file => "Source file " ++ file.text ++ " is not part of the project"
  | .functionNotFound name file => "Function '" ++ name ++ "' not found in " ++ file.text
  | .classNotFound name file => "Class '" ++ name ++ "' not found in " ++ file.text
  | .methodNotFound name cls file =>
    "Method '" ++ name ++ "' not found in class '" ++ cls ++ "' in " ++ file.text
  | .settingsNotFound path reason =>
    "Cannot find tsconfig " ++ path.text ++ ": " ++ reason.message
  | .settingsUnreadable path reason =>
    "Failed to read tsconfig " ++ path.text ++ ": " ++ reason.message
  | .settingsInvalid path => "Invalid tsconfig " ++ path.text
  | .settingsTooDeep path => "tsconfig extends chain too deep at " ++ path.text
  | .projectFileNotFound path reason =>
    "Cannot find project file " ++ path.text ++ ": " ++ reason.message
  | .globInvalid glob reason => "error parsing glob '" ++ glob ++ "': " ++ reason.message
  | .sourceUnreadable path (.inaccessible reason) =>
    "Failed to read source file " ++ path.text ++ ": " ++ reason.message
  | .sourceUnreadable _ (.endlessSearch _) =>
    "thread 'main' has overflowed its stack\nfatal runtime error: stack overflow"

def isCutOff : Failure → Bool
  | .sourceUnreadable _ (.endlessSearch _) => true
  | _ => false

end Failure

end CallDiagram
