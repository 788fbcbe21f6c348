import CallDiagram.Source.Grammar.Type

/-!
Expressions. Operators are told from operands, but how tightly they bind is of no interest: of an
expression with operators only the operands are kept, and the pieces of types among them. An operand is a first thing with members, calls
and the like behind it.
-/

namespace CallDiagram.Grammar

open CallDiagram.Parser

def grouped : List Node → Node
  | [part] => part
  | parts => .other parts

def block (g : Grammar) : Parser Node := do
  mark "\x7b"
  return .other ((← manyUntil "\x7d" g.statement).flatMap Statement.nodes)

def functionTail (g : Grammar) (name : Option String) (line : Nat) : Parser Function := do
  let signature ← g.signature
  let body ← if ← isMark "\x7b" then some <$> g.block else pure none
  return { signature with name, line, body }

def functionFrom (g : Grammar) (line : Nat) : Parser Function := do
  word "function"
  let _ ← mark? "*"
  let nameLine ← Parser.line
  match ← peekName with
  | some text =>
    advance
    g.functionTail (some text) nameLine
  | none => g.functionTail none line

def startsAsyncFunction : Parser Bool := do
  if ← isWord "async" then behind (return (← isWord "function") && !(← startsLine))
  else return false

def function (g : Grammar) : Parser Function := do
  let line ← line
  if ← startsAsyncFunction then advance
  g.functionFrom line

def arrowBody (g : Grammar) (extent : Extent) : Parser Node := do
  if ← isMark "\x7b" then g.block
  else return .other (← unlessMissing (g.expression extent)).toList

def arrowHead (g : Grammar) (extent : Extent) : Parser (List Node) := do
  match ← peekName with
  | some text =>
    advance
    guard !(← startsLine)
    mark "=>"
    return [.name text]
  | none =>
    let head ← g.typeParameters
    let parameters ← g.parameters
    let result ← if extent.hasResultType then afterToken (.mark ":") g.result else pure []
    guard !(← startsLine)
    mark "=>"
    return Signature.nodes { head, parameters, result }

def arrow? (g : Grammar) (extent : Extent) : Parser (Option Node) := do
  let asynchronous ← attempt do
    word "async"
    guard !(← startsLine)
    let head ← g.arrowHead extent
    return head
  let head ← match asynchronous with
    | some head => pure (some head)
    | none => match ← token with
      | .word _ | .mark "(" | .mark "<" => attempt (g.arrowHead extent)
      | _ => pure none
  match head with
  | some head => return some (.other (head ++ [← g.arrowBody extent]))
  | none => return none

def methodModifiers : List String := ["get", "set", "async"]

def methodModifier : Parser (Option Unit) := do
  match ← token with
  | .mark "*" => advance; return some ()
  | .word text =>
    let next ← following
    if methodModifiers.contains text && (startsKey next || next == .mark "*") then
      advance
      return some ()
    else return none
  | _ => return none

def objectMember (g : Grammar) : Parser (List Node) := do
  if ← mark? "..." then return [← g.expression]
  discard <| many methodModifier
  let key ← g.key
  if ← mark? ":" then return key.nodes ++ [← g.expression]
  if startsSignature (← token) then return key.nodes ++ (← g.functionTail none 0).nodes
  match key with
  | .name text => return .name text :: (← g.initializer).toList
  | _ => failure

def skipRegularExpression : Parser Unit := do
  let c ← get
  let some (text, rest) := Token.regularExpression c.ahead | failure
  set (c.jump text rest)

def startsExpression : Token → Bool
  | .word text => isName text || ["this", "super", "new", "function", "class", "null", "typeof",
      "void", "delete", "await", "yield", "import", "true", "false"].contains text
  | .privateName _ | .number | .string _ | .backtick => true
  | .mark text => ["(", "[", "\x7b", "!", "~", "+", "-", "++", "--", "/", "/=", "@", "<"].contains text
  | .stray _ | .endOfText => false

def endsTypeArguments : Parser Bool := do
  match ← token with
  | .mark "(" | .backtick => return true
  | .mark "<" | .mark ">" | .mark "+" | .mark "-" => return false
  | .word text =>
    if ["in", "instanceof", "as", "satisfies"].contains text then return true
    else return (← startsLine) || !startsExpression (.word text)
  | t => return (← startsLine) || !startsExpression t || t == .mark "/"

structure Chain where
  hasCalls : Bool := true
  hasInstantiation : Bool := true
  hasAssertion : Bool := true
  hasTypeArguments : Bool := true

def bareOperand : Chain := { hasAssertion := false, hasTypeArguments := false }

def subscript (g : Grammar) (object : Node) : Parser Node := do
  mark "["
  let index ← g.sequence
  close "]"
  return .other [object, index]

def call (g : Grammar) (function : Node) (types : List Node) (line : Nat) : Parser Node :=
  return .call (some function) false (types ++ (← g.arguments)) line

def taggedTemplate (g : Grammar) (tag : Node) (types : List Node) (line : Nat) : Parser Node :=
  return .call (some tag) true (types ++ (← template g.sequence)) line

def optionalLink (g : Grammar) (object : Node) (line : Nat) : Parser Node := do
  match ← token with
  | .mark "(" => g.call object [] line
  | .mark "[" => g.subscript object
  | .mark "<" | .mark "<<" => g.call object (← g.typeArguments) line
  | .backtick => g.taggedTemplate object [] line
  | _ => propertyOf object

def typeArguments? (g : Grammar) (chain : Chain) : Parser (Option (List Node)) :=
  attempt do
    let types ← g.typeArguments
    guard (← endsTypeArguments)
    match ← token with
    | .mark "(" => guard chain.hasCalls
    | .backtick => pure ()
    | _ => guard chain.hasInstantiation
    return types

def behindTypeArguments (g : Grammar) (object : Node) (types : List Node) (line : Nat) :
    Parser Node := do
  match ← token with
  | .mark "(" => g.call object types line
  | .backtick => g.taggedTemplate object types line
  | _ => return .other (object :: types)

def link? (g : Grammar) (chain : Chain) (line : Nat) (object : Node) : Parser (Option Node) := do
  match ← token with
  | .mark "." =>
    advance
    some <$> (propertyOf object <|> damage *> pure object)
  | .mark "?." =>
    if chain.hasCalls then
      advance
      some <$> g.optionalLink object line
    else return none
  | .mark "[" => some <$> g.subscript object
  | .mark "(" => if chain.hasCalls then some <$> g.call object [] line else return none
  | .mark "!" =>
    if !chain.hasAssertion || (← startsLine) then return none
    advance
    return some (.other [object])
  | .mark "<" | .mark "<<" =>
    if !chain.hasTypeArguments then return none
    match ← g.typeArguments? chain with
    | some types => some <$> g.behindTypeArguments object types line
    | none => return none
  | .backtick => some <$> g.taggedTemplate object [] line
  | _ => return none

def links (g : Grammar) (chain : Chain) (line : Nat) (start : Node) : Parser Node :=
  repeated (g.link? chain line) start

def primary (g : Grammar) (creation : Parser Node) : Parser Node := do
  match ← token with
  | .word "this" => advance; return .this
  | .word "super" => advance; return .super
  | .word "function" => return .other (← g.function).nodes
  | .word "class" => return .other (← g.cls).nodes
  | .word "new" => creation
  | .word "import" =>
    advance
    if ← mark? "." then word "meta" else guard ((← isMark "(") || (← isMark "<"))
    return .other []
  | .word "async" =>
    if ← startsAsyncFunction then return .other (← g.function).nodes
    advance
    return .name "async"
  | .word text =>
    guard (isName text || ["null", "true", "false"].contains text)
    advance
    return if isName text && text != "undefined" then .name text else .other []
  | .privateName _ | .number | .string _ => advance; return .other []
  | .backtick => return .other (← template g.sequence)
  | .mark "(" =>
    advance
    let e ← g.sequence
    close ")"
    return .other [e]
  | .mark "[" =>
    advance
    return .other (← separated "]" (unlessOmitted (List.singleton <$> g.spreadable))).flatten
  | .mark "\x7b" =>
    advance
    return .other (← separated "\x7d" (unlessOmitted g.objectMember)).flatten
  | .mark "/" | .mark "/=" =>
    skipRegularExpression
    return .other []
  | .mark "@" => return .other (← g.cls).nodes
  | .mark "<" =>
    guard (← get).dialect.hasMarkup
    let e ← g.markup
    mark ">"
    return e
  | _ => failure

/-- The class of a new object, and the arguments. Of `new new C()` the inner one has the arguments. -/
def creationWithin (g : Grammar) : Nat → Parser Node
  | 0 => failure
  | n + 1 => do
    word "new"
    if ← mark? "." then
      word "target"
      return .other []
    let line ← line
    let nested ← isWord "new"
    let start ← g.primary (g.creationWithin n)
    if nested then return .creation start []
    let cls ← g.links { bareOperand with hasCalls := false } line start
    let types ← attempt do
      let types ← g.typeArguments
      guard (← endsTypeArguments)
      return types
    let arguments ← if ← isMark "(" then g.arguments else pure []
    return .creation cls (types.getD [] ++ arguments)

def creation (g : Grammar) : Parser Node := do g.creationWithin (← get).limit

def operand (g : Grammar) (chain : Chain := {}) : Parser Node := do
  let line ← line
  g.links chain line (← g.primary g.creation)

def prefixMarks : List String := ["!", "~", "+", "-", "++", "--"]

def prefixWords : List String := ["typeof", "void", "delete", "await"]

structure Prefix where
  isLate : Bool := false
  types : List Node := []
  line : Nat

def prefixOperator (g : Grammar) : Parser (Option Prefix) := do
  let line ← line
  match ← token with
  | .mark "<" =>
    if (← get).dialect.hasMarkup then return none
    openAngle
    let types ← g.typeParts
    mark ">"
    return some { types, line }
  | .mark text => if prefixMarks.contains text then advance; return some { line } else return none
  | .word text =>
    if prefixWords.contains text then
      advance
      return some { isLate := text == "await", line }
    else return none
  | _ => return none

/-- An operand with the operators before it. A `!` behind it belongs to all of them but those that
come late, and is left unread if there is none of these. Type arguments are left unread. -/
def unary (g : Grammar) : Parser Node := do
  skipStray
  let operators ← many g.prefixOperator
  let early := (operators.reverse.takeWhile fun p => !p.isLate).reverse
  let late := operators.take (operators.length - early.length)
  let line ← Parser.line
  let e ←
    if operators.isEmpty then g.operand bareOperand
    else pure <| (← unlessMissing (g.operand bareOperand)).getD (.other [])
  let e := if early.isEmpty then e else .other (early.flatMap Prefix.types ++ [e])
  let e ←
    if late.isEmpty then pure e
    else
      let line := (early.head?.map Prefix.line).getD line
      let e ← g.links { hasTypeArguments := false } line e
      pure (.other (late.flatMap Prefix.types ++ [e]))
  if ← startsLine then return e
  return if (← mark? "++") || (← mark? "--") then .other [e] else e

def infixMarks : List String :=
  ["+", "-", "*", "/", "%", "**", "<", "<=", "<<", ">", ">=", ">>", ">>>", "==", "!=", "===", "!==",
    "&", "|", "^", "&&", "||", "??"]

def arithmeticMarks : List String := ["+", "-", "*", "/", "%", "**", "<<", ">>", ">>>"]

def assignmentMarks : List String :=
  ["=", "+=", "-=", "*=", "/=", "%=", "**=", "<<=", ">>=", ">>>=", "&=", "|=", "^=", "&&=", "||=",
    "??="]

def infixOperator? (extent : Extent) : Parser (Option String) := do
  let c := (← get).joinAngles
  let operator := match c.token with
    | .mark text => if infixMarks.contains text then some text else none
    | .word "instanceof" => some "instanceof"
    | .word "in" => if extent.hasIn then some "in" else none
    | _ => none
  if operator.isSome then set c.next
  return operator

def assignmentOperator? : Parser Bool := do
  let c := (← get).joinAngles
  let found := match c.token with
    | .mark text => assignmentMarks.contains text
    | _ => false
  if found then set c.next
  return found

def ascription (g : Grammar) : Parser (Option (List Node)) := do
  if ((← isWord "as") || (← isWord "satisfies")) && !(← startsLine) then
    advance
    some <$> g.typeParts
  else return none

structure Operands where
  before : List Node := []
  group : List Node
  line : Nat

def Operands.all (o : Operands) : List Node := o.before ++ o.group

def operandBehind (g : Grammar) (o : Operands) (operator : String) : Parser Operands := do
  let line ← line
  let some e ← unlessMissing g.unary | return o
  let e ← if operator = "**" then g.links { hasTypeArguments := false } line e else pure e
  return if arithmeticMarks.contains operator then { o with group := o.group ++ [e] }
    else { before := o.all, group := [e], line }

def callOfGroup (g : Grammar) (o : Operands) (types : List Node) : Parser Operands := do
  let e ← g.behindTypeArguments (grouped o.group) types o.line
  return { o with group := [← g.links bareOperand o.line e] }

/-- More of an expression that starts on `line`: one more operand, a call with type arguments, a type
that the operands are taken to have, or a `!`, which belongs to all operands except behind `**`. -/
def moreOperands (g : Grammar) (extent : Extent) (line : Nat) (o : Operands) :
    Parser (Option Operands) := do
  let whole (e : Node) : Operands := { group := [e], line }
  if let some types ← g.typeArguments? {} then return some (← g.callOfGroup o types)
  if let some operator ← infixOperator? extent then return some (← g.operandBehind o operator)
  if let some types ← g.ascription then return some (whole (.other (o.all ++ types)))
  if ← startsLine then return none
  if ← isMark "!" then return some (whole (← g.links {} line (grouped o.all)))
  if (← mark? "++") || (← mark? "--") then return some (whole (.other o.all))
  return none

def cases (g : Grammar) (extent : Extent) : Parser (List Node) := do
  mark "?"
  let first (extent : Extent) : Parser Node := do
    let e ← g.expression extent
    mark ":"
    return e
  let e ← first { hasIn := true } <|> first { hasResultType := false }
  return [e, ← g.expression extent]

def yielded (g : Grammar) (extent : Extent) : Parser Node := do
  word "yield"
  let delegated ← mark? "*"
  if delegated || !(← startsLine) && startsExpression (← token) then
    return .other [← g.expression extent]
  return .other []

def readExpression (g : Grammar) (extent : Extent) : Parser Node := do
  if ← isWord "yield" then return ← g.yielded extent
  if let some e ← g.arrow? extent then return e
  let line ← line
  let operands ← repeated (g.moreOperands extent line) { group := [← g.unary], line }
  if ← isMark "?" then return .other (operands.all ++ (← g.cases extent))
  if ← assignmentOperator? then
    return .other (operands.all ++ (← unlessMissing (g.expression extent)).toList)
  return grouped operands.all

def readSequence (g : Grammar) (extent : Extent) : Parser Node :=
  return grouped (← sepBy "," (g.expression extent))

end CallDiagram.Grammar
