import CallDiagram.Source.Grammar.Class
import CallDiagram.Source.Grammar.Markup

namespace CallDiagram.Grammar

open CallDiagram.Parser

def declarator (g : Grammar) (extent : Extent) : Parser Node := do
  let target ← g.pattern
  let _ ← mark? "!"
  let type ← g.annotation
  return .declarator target type.cls type.parts (← g.initializer extent)

def declarators (g : Grammar) (extent : Extent := {}) : Parser (List Node) :=
  sepBy "," (g.declarator extent)

def startsVariables : Parser Bool := do
  match ← token with
  | .word "var" | .word "const" => return true
  | .word "let" =>
    match ← following with
    | .word text => return isName text
    | .mark "[" | .mark "\x7b" => return true
    | _ => return false
  | _ => return false

def bindingStatement (g : Grammar) : Parser Statement := do
  guard (← startsVariables)
  advance
  let ds ← declarators g
  semicolon
  return .bindings ds

def enumMember (g : Grammar) : Parser (List Node) := do
  let key ← g.key
  return key.nodes ++ (← g.initializer).toList

def members (p : Parser (List Node)) : Parser (List Node) :=
  p <|> do
    damage
    skipBraces
    return []

def enumeration (g : Grammar) : Parser Statement := do
  let _ ← word? "const"
  word "enum"
  let name ← name
  return .named .enum name (← members do
    mark "\x7b"
    return (← separated "\x7d" g.enumMember).flatten)

def interface (g : Grammar) : Parser Statement := do
  word "interface"
  let name ← name
  let head ← g.typeParameters
  let bases ← afterToken (.word "extends") (List.flatten <$> sepBy "," g.typeParts)
  return .named .interface name (head ++ bases ++ (← members g.objectType))

def typeAlias (g : Grammar) : Parser Statement := do
  word "type"
  guard !(← startsLine)
  let name ← name
  let head ← g.typeParameters
  mark "="
  let types ← unlessMissing g.typeParts
  semicolon
  return .named .typeAlias name (head ++ types.getD [])

def moduleName : Parser String := do
  match ← token with
  | .string text => advance; return text
  | _ => written qualifiedName

def namespaceStatement (g : Grammar) : Parser Statement := do
  unless ← word? "namespace" do word "module"
  guard !(← startsLine)
  let name ← moduleName
  if ← isMark "\x7b" then return .named .namespace name [← g.block]
  semicolon
  return .named .namespace name []

def functionStatement (g : Grammar) : Parser Statement := do
  guard ((← isWord "function") || (← startsAsyncFunction))
  let f ← g.function
  guard f.name.isSome
  if f.body.isNone then semicolon
  return .function f

def classStatement (g : Grammar) : Parser Statement := do
  let c ← g.cls
  guard c.name.isSome
  return .cls c

def startsClass : Parser Bool := do
  match ← token with
  | .word "class" | .mark "@" => return true
  | .word "abstract" => return (← following) == .word "class"
  | _ => return false

def globalBlock (g : Grammar) : Parser Statement := do
  word "global"
  return .other (← g.block)

def plainDeclaration (g : Grammar) : Parser Statement := do
  match ← token with
  | .word "const" => if (← following) == .word "enum" then g.enumeration else g.bindingStatement
  | .word "var" | .word "let" => g.bindingStatement
  | .word "function" | .word "async" => g.functionStatement
  | .word "class" | .word "abstract" | .mark "@" => guard (← startsClass); g.classStatement
  | .word "enum" => g.enumeration
  | .word "interface" => g.interface
  | .word "type" => g.typeAlias
  | .word "namespace" | .word "module" => g.namespaceStatement
  | _ => failure

def ambient (g : Grammar) : Parser Statement := do
  word "declare"
  guard !(← startsLine)
  .ambient <$> (g.plainDeclaration <|> g.globalBlock)

def declaration (g : Grammar) : Parser Statement := g.ambient <|> g.plainDeclaration

def unquoted (text : String) : String :=
  String.ofList (Text.stripWhile (fun c => ['"', '\'', '`'].contains c) text.toList)

def string : Parser String := do
  let .string text ← token | failure
  advance
  return text

def moduleSource : Parser String := return unquoted (← string)

def attributes (g : Grammar) : Parser (List Node) := do
  if (← isWord "with") || (← isWord "assert") && !(← startsLine) then
    advance
    mark "\x7b"
    return (← separated "\x7d" g.objectMember).flatten
  return []

def outerName : Parser String := string <|> anyWord

def renamed : Parser (String × Option String) := do
  let name ← outerName
  if ← isWord "as" then
    match ← following with
    | .word _ | .string _ => advance; return (name, some (← outerName))
    | _ => return (name, none)
  else return (name, none)

def specifier : Parser (String × Option String) := do
  let only : Parser (String × Option String) := do
    word "type"
    let e ← renamed
    guard ((← isMark ",") || (← isMark "\x7d"))
    return e
  let plain : Parser (String × Option String) := do
    let e ← renamed
    guard ((← isMark ",") || (← isMark "\x7d"))
    return e
  plain <|> only

def specifiers : Parser (List (String × Option String)) := do
  mark "\x7b"
  separated "\x7d" specifier

def importedAs (name : String) : Imported := if name == "default" then .default else .named name

def importClause : Parser (List (String × Imported)) := do
  let whole : Parser (List (String × Imported)) := do
    mark "*"
    word "as"
    return [(← name, .namespace)]
  let parts : Parser (List (String × Imported)) := do
    return (← specifiers).map fun (name, alias?) => (alias?.getD name, importedAs name)
  whole <|> parts <|> do
    let main ← name
    let rest ← after? "," (whole <|> parts)
    return (main, .default) :: rest.getD []

def importFrom (g : Grammar) : Parser Statement := do
  let clause ← importClause
  word "from"
  let source ← moduleSource
  let parts ← g.attributes
  semicolon
  return .imports (clause.map fun (name, imported) => { name, source, imported }) parts

def importRequired : Parser Statement := do
  let name ← name
  mark "="
  word "require"
  mark "("
  let source ← moduleSource
  mark ")"
  semicolon
  return .imports [{ name, source, imported := .namespace }] []

def importAlias : Parser Statement := do
  discard name
  mark "="
  qualifiedName
  semicolon
  return .other (.other [])

def importEffects (g : Grammar) : Parser Statement := do
  discard moduleSource
  let parts ← g.attributes
  semicolon
  return .imports [] parts

def importStatement (g : Grammar) : Parser Statement := do
  word "import"
  let binding := g.importFrom <|> importRequired
  binding <|> (do word "type"; binding) <|> importAlias <|> g.importEffects

def source? : Parser (Option String) := do
  if ← word? "from" then some <$> moduleSource else return none

def exportNames (g : Grammar) : Parser Statement := do
  let _ ← word? "type"
  let names ← specifiers
  let source ← source?
  let parts ← g.attributes
  semicolon
  let entries := names.map fun (name, alias?) =>
    let exported := alias?.getD name
    match source with
    | some source => .named exported name source
    | none => .local exported name
  return .exports entries parts

def exportAll (g : Grammar) : Parser Statement := do
  mark "*"
  let alias? ← if ← word? "as" then some <$> outerName else pure none
  word "from"
  let source ← moduleSource
  let parts ← g.attributes
  semicolon
  let entry := match alias? with
    | some name => .namespace (unquoted name) source
    | none => .all source
  return .exports [entry] parts

def exportValue (g : Grammar) : Parser Statement := do
  let e ← g.sequence
  semicolon
  return match e with
    | .name text => .exports [.local "default" text] []
    | e => .other e

def exportDefault (g : Grammar) : Parser Statement := do
  word "default"
  if (← isWord "function") || (← startsAsyncFunction) then
    let f ← g.function
    if f.body.isNone then semicolon
    return if f.name.isSome then .exportedDefault (.function f) else .defaultFunction f
  if ← startsClass then
    let c ← g.cls
    return if c.name.isSome then .exportedDefault (.cls c) else .defaultClass c
  .exportedDefault <$> g.declaration <|> g.exportValue

def exportWhole (g : Grammar) : Parser Statement := do
  let parts ←
    if ← mark? "=" then List.singleton <$> g.sequence
    else
      word "as"
      word "namespace"
      discard name
      pure []
  semicolon
  return .exports [] parts

def exported (g : Grammar) : Parser Statement := do
  word "export"
  match ← token with
  | .mark "*" => g.exportAll
  | .mark "\x7b" => g.exportNames
  | .word "type" =>
    if (← following) == .mark "*" then damage *> advance *> g.exportAll
    else g.exportNames <|> .exported <$> g.declaration
  | .word "default" => g.exportDefault
  | .word "import" => advance *> importAlias
  | _ => g.exportNames <|> .exported <$> g.declaration <|> g.exportWhole

def exportStatement (g : Grammar) : Parser Statement := do
  let decorators ← g.decorators
  return (← g.exported).decorate decorators

def parenthesized (g : Grammar) : Parser Node := do
  mark "("
  let e ← g.sequence
  close ")"
  return e

def inner (g : Grammar) : Parser Node := return .other (← g.statement).nodes

def ifStatement (g : Grammar) : Parser Node := do
  let condition ← g.parenthesized
  let first ← g.inner
  let second ← if ← word? "else" then some <$> g.inner else pure none
  return .other (condition :: first :: second.toList)

def forEachHead (g : Grammar) : Parser (List Node) := do
  let target ←
    if ← startsVariables then
      advance
      let target ← g.pattern
      let type ← g.annotation
      pure (target :: (type.parts ++ (← g.initializer { hasIn := false }).toList))
    else pure [← g.operand]
  unless ← word? "of" do word "in"
  return target ++ [← g.sequence]

def forHead (g : Grammar) : Parser (List Node) := do
  let noIn : Extent := { hasIn := false }
  let start ←
    if ← isMark ";" then pure []
    else if ← startsVariables then
      advance
      declarators g noIn
    else pure [← g.sequence noIn]
  mark ";"
  let condition ← if ← isMark ";" then pure [] else pure [← g.sequence]
  mark ";"
  let step ← if ← isMark ")" then pure [] else pure [← g.sequence]
  return start ++ condition ++ step

def forStatement (g : Grammar) : Parser Node := do
  let _ ← word? "await"
  mark "("
  let head ← (do let head ← g.forEachHead; mark ")"; return head) <|>
    (do let head ← g.forHead; mark ")"; return head)
  return .other (head ++ [← g.inner])

def whileStatement (g : Grammar) : Parser Node := do
  let condition ← g.parenthesized
  return .other [condition, ← g.inner]

def doStatement (g : Grammar) : Parser Node := do
  let body ← g.inner
  word "while"
  let condition ← g.parenthesized
  let _ ← mark? ";"
  return .other [body, condition]

def switchCase (g : Grammar) : Parser Node := do
  let value ← if ← word? "default" then pure [] else word "case" *> return [← g.sequence]
  mark ":"
  let body ← many do
    if (← isWord "case") || (← isWord "default") || (← isMark "\x7d") then return none
    some <$> g.inner
  return .other (value ++ body)

def switchStatement (g : Grammar) : Parser Node := do
  let value ← g.parenthesized
  mark "\x7b"
  return .other (value :: (← manyUntil "\x7d" g.switchCase))

def tryStatement (g : Grammar) : Parser Node := do
  let body ← g.block
  let handler ←
    if ← word? "catch" then
      let bound ←
        if ← mark? "(" then
          let target ← g.pattern
          let type ← g.annotation
          mark ")"
          pure (target :: type.parts)
        else pure []
      pure (bound ++ [← g.block])
    else pure []
  let last ← if ← word? "finally" then pure [← g.block] else pure []
  return .other (body :: handler ++ last)

def returnStatement (g : Grammar) : Parser Node := do
  let alone := (← isMark ";") || (← isMark "\x7d") || (← atEnd) || (← startsLine)
  let parts ← if alone then pure [] else pure [← g.sequence]
  semicolon
  return .other parts

def throwStatement (g : Grammar) : Parser Node := do
  let e ← g.sequence
  semicolon
  return e

def jumpStatement : Parser Node := do
  unless ← startsLine do discard <| attempt name
  semicolon
  return .other []

def keywordStatement? (g : Grammar) (word : String) : Option (Parser Node) :=
  match word with
  | "if" => some g.ifStatement
  | "for" => some g.forStatement
  | "while" | "with" => some g.whileStatement
  | "do" => some g.doStatement
  | "switch" => some g.switchStatement
  | "try" => some g.tryStatement
  | "return" => some g.returnStatement
  | "throw" => some g.throwStatement
  | "break" | "continue" => some jumpStatement
  | "debugger" => some (semicolon *> return .other [])
  | _ => none

def labelled (g : Grammar) : Parser Statement := do
  discard name
  mark ":"
  .other <$> g.inner

def expressionStatement (g : Grammar) : Parser Statement := do
  let e ← g.sequence
  semicolon
  return .other e

def isUnnamed : Parser Bool := do
  match ← following with
  | .mark text => return text != "*"
  | t => return t == .word "extends"

def declaringWords : List String := ["abstract", "interface"]

/-- Whether the word that stands here must start a declaration. Some words may be names as well, but
not before a name. -/
def mustDeclare (text : String) : Parser Bool := do
  let next := (← get).next
  let isBeforeName := match next.token with
    | .word name => isName name && !(["as", "satisfies"].contains name)
    | _ => false
  match text with
  | "let" => return isBeforeName
  | "async" => return (← startsAsyncFunction) && !(← behind isUnnamed)
  | "declare" | "module" | "namespace" | "type" => return isBeforeName && !next.startsLine
  | _ => return declaringWords.contains text

def wordStatement (g : Grammar) (text : String) : Parser Statement := do
  match g.keywordStatement? text with
  | some p =>
    advance
    .other <$> p
  | none =>
    match text with
    | "import" => g.importStatement <|> g.expressionStatement
    | "export" => g.exportStatement
    | "function" | "class" => if ← isUnnamed then g.expressionStatement else g.plainDeclaration
    | "const" | "var" | "enum" => g.plainDeclaration
    | _ =>
      if ← mustDeclare text then g.declaration
      else g.declaration <|> g.labelled <|> g.expressionStatement

def statementHere (g : Grammar) : Parser Statement := do
  match ← token with
  | .mark "\x7b" => .other <$> g.block
  | .mark ";" => advance; return .other (.other [])
  | .mark "@" => g.exportStatement <|> g.classStatement <|> g.expressionStatement
  | .word text => g.wordStatement text
  | .stray _ => failure
  | _ => g.expressionStatement

def startingWords : List String :=
  ["abstract", "async", "class", "const", "declare", "enum", "export", "function", "import",
    "interface", "let", "namespace", "type", "var"]

def startsStatement : Parser Bool := do
  if !(← startsLine) then return false
  match ← token with
  | .word text => return startingWords.contains text
  | _ => return false

def isBraced : Statement → Bool
  | .function _ | .cls _ | .defaultFunction _ | .defaultClass _ => true
  | .named kind _ _ => kind != .typeAlias
  | .ambient inner | .exported inner | .exportedDefault inner => isBraced inner
  | _ => false

/-- A declaration that the text ends inside of, as if `depth` braces more were closed. What may as
well be an expression is taken for one. -/
def declarationCutOff (g : Grammar) (depth : Nat) : Parser Statement := do
  damage
  modify fun c => { c with rest := c.rest ++ List.replicate depth '\x7d' }
  let isAbstract ← isWord "abstract"
  let s ← g.statementHere
  guard (← atEnd)
  match s with
  | .function _ => failure
  | .cls _ => guard isAbstract
  | s => guard (isBraced s)
  return s

def isStray : Token → Bool
  | .stray _ => true
  | .mark text => text == "\x7d"
  | .word text => declaringWords.contains text
  | _ => false

def leaveOut (g : Grammar) : Parser Statement := do
  let depth ← openBraces
  let cutOff : Parser Statement := guard (0 < depth) *> g.declarationCutOff depth
  let stray : Parser Statement := do
    guard (isStray (← token))
    damage
    advance
    return .other (.other [])
  cutOff <|> stray <|> .other <$> g.unreadable startsStatement

def readStatement (g : Grammar) : Parser Statement := do
  guard !(← atEnd)
  let c ← get
  if c.startsHiddenLine then
    set c.skipLine
    return .other (.other [])
  g.statementHere <|> g.leaveOut

end CallDiagram.Grammar
