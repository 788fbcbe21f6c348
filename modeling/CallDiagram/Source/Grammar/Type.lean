import CallDiagram.Source.Grammar.Binding

namespace CallDiagram.Grammar

open CallDiagram.Parser

def variance : Parser Bool := do
  if ← word? "const" then return true
  if ← word? "in" then return true
  if ← isWord "out" then
    match ← following with
    | .word _ => advance; return true
    | _ => return false
  return false

def typeParameter (g : Grammar) : Parser (List Node) := do
  discard <| many do if ← variance then return some () else return none
  discard name
  let bound ← afterToken (.word "extends") g.typeParts
  return bound ++ (← afterToken (.mark "=") g.typeParts)

def typeParameters (g : Grammar) : Parser (List Node) := do
  if ← openAngle? then return (← separated ">" g.typeParameter).flatten
  return []

def subject : Parser Node := do
  if ← word? "this" then return .this
  return .name (← name)

def assertion (g : Grammar) : Parser (List Node) := do
  word "asserts"
  guard !(← startsLine)
  discard subject
  afterToken (.word "is") g.typeParts

def predicate (g : Grammar) : Parser (List Node) := do
  discard subject
  guard !(← startsLine)
  word "is"
  g.typeParts

def result (g : Grammar) : Parser (List Node) :=
  g.assertion <|> g.predicate <|> g.typeParts

def signature (g : Grammar) : Parser Signature := do
  let head ← g.typeParameters
  let parameters ← g.declaredParameters
  return { head, parameters, result := ← afterToken (.mark ":") g.result }

def startsSignature : Token → Bool
  | .mark "(" | .mark "<" | .mark "<<" => true
  | _ => false

def functionType (g : Grammar) : Parser (List Node) := do
  if ← word? "abstract" then word "new" else discard <| word? "new"
  let head ← g.typeParameters
  let parameters ← g.parameters
  mark "=>"
  return Signature.nodes { head, parameters, result := ← g.result }

def isMemberModifier (text : String) : Bool := ["readonly", "get", "set"].contains text

def memberModifier : Parser (Option Unit) := do
  match ← token with
  | .mark "+" | .mark "-" => advance; return some ()
  | .word text =>
    if isMemberModifier text && startsKey (← following) then
      advance
      return some ()
    else return none
  | _ => return none

def bracketed (g : Grammar) : Parser (List Node) := do
  mark "["
  let index : Parser (List Node) := do
    discard name
    mark ":"
    let types ← g.typeParts
    mark "]"
    return types
  let mapped : Parser (List Node) := do
    discard name
    word "in"
    let types ← g.typeParts
    let renamed ← afterToken (.word "as") g.typeParts
    mark "]"
    return types ++ renamed
  let computed : Parser (List Node) := do
    let e ← g.sequence
    mark "]"
    return [e]
  index <|> mapped <|> computed

def memberKey (g : Grammar) : Parser (List Node) := do
  let parts ←
    if ← isMark "[" then g.bracketed
    else
      let isConstructor := (← isWord "new") && startsSignature (← following)
      if startsKey (← token) && !isConstructor then advance
      pure []
  if ← isWord "new" then advance
  return parts

def optionality : Parser Unit := do
  unless ← mark? "?" do
    if (← isMark "+") || (← isMark "-") then
      advance
      mark "?"

def typeMember (g : Grammar) : Parser (List Node) := do
  discard <| many memberModifier
  let key ← g.memberKey
  optionality
  let types ←
    if startsSignature (← token) then Signature.nodes <$> g.signature
    else TypeNode.parts <$> g.annotation
  unless (← mark? ",") || (← mark? ";") do
    guard ((← isMark "\x7d") || (← startsLine))
  return key ++ types

def objectType (g : Grammar) : Parser (List Node) := do
  mark "\x7b"
  return (← manyUntil "\x7d" g.typeMember).flatten

def tupleElement (g : Grammar) : Parser (List Node) := do
  discard <| mark? "..."
  discard <| attempt (do discard anyWord; discard <| mark? "?"; mark ":")
  let types ← g.typeParts
  discard <| mark? "?"
  return types

def typeArgumentsHere (g : Grammar) : Parser (List Node) := do
  if ← startsLine then return []
  return (← attempt g.typeArguments).getD []

def propertyOf (object : Node) : Parser Node := do
  match ← token with
  | .word text | .privateName text => advance; return .member object text
  | _ => failure

/-- A module that is named inside a type is called for. -/
def importCall (g : Grammar) : Parser Node := do
  let line ← line
  word "import"
  return .call (some (.other [])) false (← g.arguments) line

def queryLink? (g : Grammar) (line : Nat) (object : Node) : Parser (Option Node) := do
  match ← token with
  | .mark "." =>
    advance
    some <$> propertyOf object
  | .mark "(" =>
    if ← startsLine then return none
    return some (.call (some object) false (← g.arguments) line)
  | _ => return none

def query (g : Grammar) : Parser (List Node) := do
  let line ← line
  let start ← if ← isWord "import" then g.importCall else subject
  let value ← repeated (g.queryLink? line) start
  return value :: (← g.typeArgumentsHere)

def predefinedTypes : List String :=
  ["any", "number", "boolean", "string", "symbol", "void", "unknown", "never", "object",
    "undefined", "null", "true", "false", "this", "const"]

def qualifiedName : Parser Unit := do
  discard name
  discard <| many (after? "." anyWord)

def lastPart (text : String) : Option String := (Text.pieces '.' text).getLast?

def typeReference (g : Grammar) : Parser TypeNode := do
  let .word first ← token | failure
  if predefinedTypes.contains first then
    advance
    return {}
  let text ← written qualifiedName
  return { cls := lastPart text, parts := ← g.typeArgumentsHere }

def typeOperators : List String := ["keyof", "unique", "readonly", "infer"]

def primaryType (g : Grammar) : Parser TypeNode := do
  match ← token with
  | .mark "(" =>
    advance
    let parts ← g.typeParts
    mark ")"
    return { parts }
  | .mark "[" =>
    advance
    return { parts := (← separated "]" g.tupleElement).flatten }
  | .mark "\x7b" => return { parts := ← g.objectType }
  | .mark "-" => advance; guard ((← token) == .number); advance; return {}
  | .string _ | .number => advance; return {}
  | .backtick => return { parts := (← template g.typeParts).flatten }
  | .word "typeof" => advance; return { parts := ← g.query }
  | .word "import" => return { parts := ← g.query }
  | _ => g.typeReference

def typeSuffix (g : Grammar) : Parser (Option (List Node)) := do
  if (← isMark "[") && !(← startsLine) then
    advance
    if ← mark? "]" then return some []
    let types ← g.typeParts
    mark "]"
    return some types
  return none

def suffixedType (g : Grammar) : Parser TypeNode := do
  let type ← g.primaryType
  let suffixes ← many g.typeSuffix
  return if suffixes.isEmpty then type else { parts := type.parts ++ suffixes.flatten }

def inferred (operand : Parser TypeNode) : Parser (List Node) := do
  discard name
  let bound ← attempt do
    word "extends"
    let type ← operand
    guard !(← isMark "?")
    return type.parts
  return bound.getD []

def operatorWithin (g : Grammar) : Nat → Parser TypeNode
  | 0 => failure
  | n + 1 => do
    let operated : Parser TypeNode := do
      let .word text ← token | failure
      guard (typeOperators.contains text)
      advance
      if text == "infer" then return { parts := ← inferred (g.operatorWithin n) }
      return { parts := (← g.operatorWithin n).parts }
    operated <|> g.suffixedType

def operatorType (g : Grammar) : Parser TypeNode := do g.operatorWithin (← get).limit

def joined (between : String) (operand : Parser TypeNode) : Parser TypeNode := do
  let leading ← mark? between
  match ← sepBy between operand with
  | [type] => return if leading then { parts := type.parts } else type
  | types => return { parts := types.flatMap TypeNode.parts }

def unionType (g : Grammar) : Parser TypeNode := joined "|" (joined "&" g.operatorType)

def unconditionalType (g : Grammar) : Parser TypeNode := do
  let mayBeFunction := startsSignature (← token) || (← isWord "new")
    || (← isWord "abstract") && (← following) == .word "new"
  if mayBeFunction then
    if let some parts ← attempt g.functionType then return { parts }
  g.unionType

def readType (g : Grammar) : Parser TypeNode := do
  let type ← g.unconditionalType
  if (← isWord "extends") && !(← startsLine) then
    advance
    let bound ← g.unconditionalType
    mark "?"
    let first ← g.typeParts
    mark ":"
    return { parts := type.parts ++ bound.parts ++ first ++ (← g.typeParts) }
  return type

end CallDiagram.Grammar
