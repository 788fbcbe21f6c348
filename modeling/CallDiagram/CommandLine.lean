import CallDiagram.Request

/-!
The command line. Arguments are read from left to right: the first that cannot stand where it is ends
the reading, and so does one that asks for help or for the version.
-/

namespace CallDiagram

inductive Command
  | help
  | version
  | draw (request : Request)

namespace CommandLine

inductive Flag
  | debug
  | omitFileNames
  | dontGroupClasses
  deriving DecidableEq, Repr

inductive Valued
  | settings
  | ignoredPackage
  deriving DecidableEq, Repr

inductive Switch
  | flag (f : Flag)
  | valued (v : Valued)
  | help
  | version
  deriving DecidableEq, Repr

def Flag.name : Flag → String
  | .debug => "--debug"
  | .omitFileNames => "--omit-file-names"
  | .dontGroupClasses => "--dont-group-classes"

def Valued.name : Valued → String
  | .settings => "--tsconfig"
  | .ignoredPackage => "--ignore-package"

def Switch.ofName? : String → Option Switch
  | "debug" => some (.flag .debug)
  | "omit-file-names" | "omitFileNames" => some (.flag .omitFileNames)
  | "dont-group-classes" | "dontGroupClasses" => some (.flag .dontGroupClasses)
  | "tsconfig" => some (.valued .settings)
  | "ignore-package" | "ignorePackage" => some (.valued .ignoredPackage)
  | "help" => some .help
  | "version" => some .version
  | _ => none

def Switch.ofLetter? : Char → Option Switch
  | 't' => some (.valued .settings)
  | 'i' => some (.valued .ignoredPackage)
  | 'h' => some .help
  | 'V' => some .version
  | _ => none

inductive UsageError
  | unexpectedArgument (text : String)
  | missingValue (option : Valued)
  | unneededValue (argument : String)
  | repeated (option : String)
  | emptyPath (place : String)
  | missingPath
  | missingTarget
  deriving DecidableEq, Repr

def UsageError.message : UsageError → String
  | .unexpectedArgument text => "unexpected argument '" ++ text ++ "'"
  | .missingValue option => "a value is required for '" ++ option.name ++ "'"
  | .unneededValue argument => "no value may stand in '" ++ argument ++ "'"
  | .repeated option => "'" ++ option ++ "' cannot be used more than once"
  | .emptyPath place => "a path is required for '" ++ place ++ "'"
  | .missingPath => "the source file is missing"
  | .missingTarget => "the call target is missing"

inductive Shape
  | plain
  | endOfOptions
  | option (switch : Option Switch) (attached : Option String)

def cutAtEquals (cs : List Char) : List Char × Option String :=
  match cs.dropWhile (· ≠ '=') with
  | [] => (cs, none)
  | _ :: value => (cs.takeWhile (· ≠ '='), some (String.ofList value))

def attachedValue : List Char → Option String
  | [] => none
  | '=' :: value => some (String.ofList value)
  | value => some (String.ofList value)

def Shape.ofChars : List Char → Shape
  | ['-', '-'] => .endOfOptions
  | '-' :: '-' :: text =>
    let (name, attached) := cutAtEquals text
    .option (Switch.ofName? (String.ofList name)) attached
  | '-' :: letter :: text =>
    match Switch.ofLetter? letter with
    | some (.valued v) => .option (some (.valued v)) (attachedValue text)
    | switch => .option switch none
  | _ => .plain

def Shape.of (argument : String) : Shape := .ofChars argument.toList

inductive Item
  | plain (text : String)
  | flag (f : Flag)
  | valued (v : Valued) (value : String)
  | help
  | version

/-- The value of an option that has none attached is the next argument, which must be plain. -/
def items : List String → List (Except UsageError Item)
  | [] => []
  | argument :: rest =>
    match Shape.of argument with
    | .plain => .ok (.plain argument) :: items rest
    | .endOfOptions => rest.map fun text => .ok (.plain text)
    | .option none _ => [.error (.unexpectedArgument argument)]
    | .option (some (.valued v)) (some value) => .ok (.valued v value) :: items rest
    | .option (some (.valued v)) none =>
      match rest with
      | [] => [.error (.missingValue v)]
      | value :: rest =>
        match Shape.of value with
        | .plain => .ok (.valued v value) :: items rest
        | _ => [.error (.missingValue v)]
    | .option (some _) (some _) => [.error (.unneededValue argument)]
    | .option (some (.flag f)) none => .ok (.flag f) :: items rest
    | .option (some .help) none => [.ok .help]
    | .option (some .version) none => [.ok .version]

structure Given where
  file : Option Path := none
  target : Option String := none
  settings : Option Path := none
  ignoredPackages : List String := []
  flags : List Flag := []

namespace Given

def pathIn (place text : String) : Except UsageError Path :=
  if text = "" then .error (.emptyPath place) else .ok ⟨text⟩

def addPlain (g : Given) (text : String) : Except UsageError Given :=
  match g.file, g.target with
  | none, _ => return { g with file := some (← pathIn "source file" text) }
  | some _, none => return { g with target := some text }
  | some _, some _ => throw (.unexpectedArgument text)

def addFlag (g : Given) (f : Flag) : Except UsageError Given :=
  if g.flags.contains f then throw (.repeated f.name) else return { g with flags := f :: g.flags }

def addValue (g : Given) (value : String) : Valued → Except UsageError Given
  | .ignoredPackage => return { g with ignoredPackages := g.ignoredPackages ++ [value] }
  | .settings => do
    if g.settings.isSome then throw (.repeated Valued.settings.name)
    return { g with settings := some (← pathIn Valued.settings.name value) }

def request (g : Given) : Except UsageError Request := do
  let some file := g.file | throw .missingPath
  let some target := g.target | throw .missingTarget
  let options : DiagramOptions := {
    ignoredPackages := g.ignoredPackages
    omitFileNames := g.flags.contains .omitFileNames
    dontGroupClasses := g.flags.contains .dontGroupClasses }
  return match g.settings with
    | none => { file, target, options }
    | some settings => { file, target, settings, options }

def read (g : Given) : List (Except UsageError Item) → Except UsageError Command
  | [] => .draw <$> g.request
  | .error e :: _ => throw e
  | .ok (.plain text) :: rest => do read (← g.addPlain text) rest
  | .ok (.flag f) :: rest => do read (← g.addFlag f) rest
  | .ok (.valued v value) :: rest => do read (← g.addValue value v) rest
  | .ok .help :: _ => return .help
  | .ok .version :: _ => return .version

end Given

end CommandLine

open CommandLine

def Command.ofArguments (arguments : List String) : Except UsageError Command :=
  Given.read {} (items arguments)

namespace Command

def versionText : String := "calltrace 0.1.0\n"

def helpText : String :=
  "Trace what a TypeScript function or class method calls and print a D2 diagram

Usage: calltrace [OPTIONS] <SOURCE_FILE> <CALL_TARGET>

Arguments:
  <SOURCE_FILE>  Source file containing the entry point
  <CALL_TARGET>  Entry point: `functionName` or `ClassName.methodName`

Options:
  -t, --tsconfig <TSCONFIG>              Project configuration file [default: tsconfig.json]
  -i, --ignore-package <IGNORE_PACKAGE>  Dependency package to leave out of the diagram (repeatable) [aliases: --ignorePackage]
      --debug                            Print debug logs and error details to stderr
      --omit-file-names                  Do not group nodes by file path [aliases: --omitFileNames]
      --dont-group-classes               Do not group methods by class (accepted, currently no effect) [aliases: --dontGroupClasses]
  -h, --help                             Print help
  -V, --version                          Print version
"

def run (t : FileTree) : Command → Except Failure String
  | .help => .ok helpText
  | .version => .ok versionText
  | .draw request => request.run t

end Command

inductive Response
  | printed (text : String)
  | failed (reason : Failure)
  | misused (reason : UsageError)

namespace Response

def ofArguments (t : FileTree) (arguments : List String) : Response :=
  match Command.ofArguments arguments with
  | .error e => .misused e
  | .ok command =>
    match command.run t with
    | .error e => .failed e
    | .ok text => .printed text

def exitCode : Response → Nat
  | .printed _ => 0
  | .failed e => if e.isCutOff then 134 else 1
  | .misused _ => 2

def output : Response → String
  | .printed text => text
  | .failed _ | .misused _ => ""

def complaint? : Response → Option String
  | .printed _ => none
  | .failed e => some (if e.isCutOff then e.message else "Error: " ++ e.message)
  | .misused e => some ("error: " ++ e.message)

end Response

end CallDiagram
