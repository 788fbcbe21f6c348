import CallDiagram.Source.Grammar.Basic

namespace CallDiagram.Grammar

open CallDiagram.Parser

def endsPhrase : Token → Bool
  | .mark text => [";", ",", ")", "]", "\x7d", "="].contains text
  | _ => false

def unlessMissing (p : Parser α) : Parser (Option α) := do
  if endsPhrase (← token) then
    damage
    return none
  some <$> p

def behindMark? (text : String) (p : Parser α) : Parser (Option α) := do
  if ← mark? text then unlessMissing p else return none

def annotation (g : Grammar) : Parser TypeNode := do
  let found ← behindMark? ":" do
    let hasComment := (← get).hasComment
    let type ← g.type
    return if hasComment then { type with cls := none } else type
  return found.getD {}

def typeArguments (g : Grammar) : Parser (List Node) := do
  openAngle
  return (← separated ">" g.typeParts).flatten

def initializer (g : Grammar) (extent : Extent := {}) : Parser (Option Node) :=
  behindMark? "=" (g.expression extent)

def spreadable (g : Grammar) : Parser Node := do
  if ← mark? "..." then return .other [← g.expression]
  g.expression

def startsArgument : Token → Bool
  | .word _ | .number | .string _ => true
  | _ => false

def argument (g : Grammar) : Parser (List Node) := do
  let first ← g.spreadable
  let rest ← many do
    if startsArgument (← token) then damage *> some <$> g.spreadable else return none
  return first :: rest

def arguments (g : Grammar) : Parser (List Node) := do
  mark "("
  guard !(← isMark ";")
  return (← separated ")" (unlessOmitted g.argument)).flatten

def substitution? (p : Parser α) : Parser (Option α) := do
  let c ← get
  match Token.templateText c.rest with
  | (text, '`' :: rest) =>
    set (c.jump (c.text ++ text ++ ['`']) rest)
    return none
  | (text, '$' :: '{' :: rest) =>
    set (c.jump (c.text ++ text ++ ['$', '{']) rest)
    let a ← p
    guard (← isMark "\x7d")
    return some a
  | _ => failure

def template (p : Parser α) : Parser (List α) := do
  guard ((← token) == .backtick)
  many (substitution? p)

def key (g : Grammar) : Parser Key := do
  match ← token with
  | .word text | .privateName text => advance; return .name text
  | .string _ | .number => advance; return .literal
  | .mark "[" =>
    advance
    let e ← g.sequence
    mark "]"
    return .computed e
  | _ => failure

def startsKey : Token → Bool
  | .word _ | .privateName _ | .string _ | .number | .mark "[" => true
  | _ => false

def withDefault (g : Grammar) : Parser (List Node) := do
  let target ← g.pattern
  return target :: (← g.initializer).toList

def element (g : Grammar) : Parser (List Node) := do
  if ← mark? "..." then return [← g.pattern]
  g.withDefault

def property (g : Grammar) : Parser (List Node) := do
  if ← mark? "..." then return [← g.pattern]
  let key ← g.key
  if ← mark? ":" then return key.nodes ++ (← g.withDefault)
  match key with
  | .name text => return .name text :: (← g.initializer).toList
  | _ => failure

def readPattern (g : Grammar) : Parser Node := do
  if ← mark? "[" then return .other (← separated "]" (unlessOmitted g.element)).flatten
  if ← mark? "\x7b" then return .other (← separated "\x7d" (unlessOmitted g.property)).flatten
  return .name (← name)

def typeArgumentsOfCall (g : Grammar) : Parser (List Node) := do
  let types ← g.typeArguments
  guard (← isMark "(")
  return types

def decorator (g : Grammar) : Parser Node := do
  mark "@"
  let line ← line
  if ← mark? "(" then
    let e ← g.sequence
    mark ")"
    return .other [e]
  let first ← name
  let members ← many (after? "." anyWord)
  let callee := members.foldl Node.member (.name first)
  let types := (← attempt g.typeArgumentsOfCall).getD []
  if ← isMark "(" then return .call (some callee) false (types ++ (← g.arguments)) line
  return callee

def decorators (g : Grammar) : Parser (List Node) :=
  many do if ← isMark "@" then some <$> g.decorator else return none

def parameterModifiers : List String := ["public", "private", "protected", "readonly", "override"]

def continuesParameter : Token → Bool
  | .word _ | .mark "\x7b" | .mark "[" | .mark "..." => true
  | _ => false

def modifiers : Parser Bool :=
  repeated (fun isField => do
    match ← token with
    | .word text =>
      if parameterModifiers.contains text && continuesParameter (← following) then
        advance
        return some (isField || text != "override")
      else return none
    | _ => return none) false

def parameter (g : Grammar) : Parser Parameter := do
  let decorators ← g.decorators
  let isField ← modifiers
  let target ←
    if ← mark? "..." then (.other [·]) <$> g.pattern
    else if ← word? "this" then pure .this
    else g.pattern
  let _ ← mark? "?"
  let type ← g.annotation
  let value ← g.initializer
  let name := match target with
    | .name text => some text
    | _ => none
  return { name, typeName := type.cls, isField,
           parts := decorators ++ target :: (type.parts ++ value.toList) }

def parameters (g : Grammar) : Parser (List Parameter) := do
  mark "("
  separated ")" g.parameter

def damagedParameter (g : Grammar) : Parser (Option Parameter) := do
  damage
  let read ← many do
    if startsArgument (← token) then
      match ← attempt g.parameter with
      | some p => return some (some p)
      | none => advance; return some none
    else return none
  return (read.filterMap id).getLast?

def declaredParameters (g : Grammar) : Parser (List Parameter) :=
  g.parameters <|> do
    mark "("
    let single : Parser (Option Parameter) := do
      let p ← g.parameter
      guard !(startsArgument (← token))
      return some p
    let read := (← sepBy "," (single <|> g.damagedParameter)).filterMap id
    unless ← close? ")" do
      guard ((← isMark "\x7b") && !read.isEmpty)
      damage
    return read

end CallDiagram.Grammar
