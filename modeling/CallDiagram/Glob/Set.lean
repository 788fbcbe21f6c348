import CallDiagram.Glob.Parser
import CallDiagram.Path.Basic

namespace CallDiagram.Glob

def dropHere : List Char → List Char
  | '.' :: '/' :: rest => dropHere rest
  | cs => cs

def tidy (pattern : String) : String :=
  let cs := dropHere pattern.toList
  String.ofList ((cs.reverse.dropWhile (· == '/')).reverse)

/-- Whether the pattern may name a directory: it has no star and no extension. -/
def mayBeDirectory (pattern : String) : Bool :=
  !pattern.toList.contains '*' && (Path.mk pattern).extension?.isNone

def globsOf (pattern : String) : List String :=
  let pattern := tidy pattern
  if mayBeDirectory pattern then [pattern, pattern ++ "/**/*"] else [pattern]

def compile (patterns : List String) : Except Failure (List Glob) :=
  (patterns.flatMap globsOf).mapM fun glob => (parse glob).mapError (.globInvalid glob)

def anyMatch (globs : List Glob) (text : String) : Bool := globs.any (·.isMatch text)

end CallDiagram.Glob
