import CallDiagram.Source.Grammar.Binding

namespace CallDiagram.Grammar

open CallDiagram.Parser

def isMarkupNamePart (c : Char) : Bool := Token.isNamePart c || ['-', ':', '.'].contains c

def markupName : Parser Unit := do
  let c ← get
  let (name, rest) := c.ahead.span isMarkupNamePart
  guard !name.isEmpty
  set (c.jump name rest)

def quoted : Parser Unit := do
  let c ← get
  match c.ahead with
  | quote :: cs =>
    guard (quote == '"' || quote == '\'')
    match cs.span (· != quote) with
    | (text, _ :: rest) => set (c.jump (quote :: text ++ [quote]) rest)
    | _ => failure
  | [] => failure

def embedded (g : Grammar) : Parser (List Node) := do
  mark "\x7b"
  if ← isMark "\x7d" then return []
  let _ ← mark? "..."
  let e ← g.sequence
  guard (← isMark "\x7d")
  return [e]

def attributeValue (g : Grammar) : Parser (List Node) := do
  match ← token with
  | .mark "\x7b" =>
    let parts ← g.embedded
    advance
    return parts
  | .mark "<" =>
    let e ← g.markup
    advance
    return [e]
  | _ => quoted; return []

def attribute? (g : Grammar) : Parser (Option (List Node)) := do
  match ← token with
  | .mark ">" | .mark "/" => return none
  | .mark "\x7b" =>
    let parts ← g.embedded
    advance
    return some parts
  | _ =>
    markupName
    if ← mark? "=" then some <$> g.attributeValue else return some []

def skipMarkupText : Parser Unit := do
  let c ← get
  let (text, rest) := c.rest.span fun d => d != '<' && d != '{'
  set (c.jump (c.text ++ text) rest).splitAngles

def child? (g : Grammar) : Parser (Option (List Node)) := do
  skipMarkupText
  if ← isMark "\x7b" then return some (← g.embedded)
  if (← isMark "<") && (← following) == .mark "/" then
    advance
    advance
    unless ← isMark ">" do markupName
    guard (← isMark ">")
    return none
  return some [← g.markup]

def readMarkup (g : Grammar) : Parser Node := do
  mark "<"
  let mut parts := []
  unless ← isMark ">" do
    markupName
    let types := (← attempt g.typeArguments).getD []
    parts := types ++ (← many g.attribute?).flatten
  if ← mark? "/" then
    guard (← isMark ">")
    return .other parts
  guard (← isMark ">")
  return .other (parts ++ (← many g.child?).flatten)

end CallDiagram.Grammar
