import CallDiagram.Source.Grammar.Damage

namespace CallDiagram.Grammar

open CallDiagram.Parser

def memberModifiers : List String :=
  ["declare", "public", "private", "protected", "static", "override", "abstract", "readonly",
    "accessor", "async", "get", "set"]

def continuesMember (t : Token) : Bool := startsKey t || t == .mark "*"

def startsWithModifier (text : String) : Parser Bool := do
  let next := (← get).next
  return memberModifiers.contains text && continuesMember next.token &&
    (!next.startsLine || next.token == .mark "*")

def memberModifiersHere : Parser (List String) :=
  many do
    match ← token with
    | .mark "*" => advance; return some "*"
    | .word text =>
      if ← startsWithModifier text then
        advance
        return some text
      else return none
    | _ => return none

def memberEnd : Parser Unit := do
  unless ← mark? "," do semicolon

def indexSignature (g : Grammar) : Parser ClassMember := do
  discard memberModifiersHere
  mark "["
  discard name
  mark ":"
  let types ← g.typeParts
  mark "]"
  let value ← g.annotation
  memberEnd
  return .other (.other (types ++ value.parts))

def staticBlock (g : Grammar) : Parser ClassMember := do
  word "static"
  return .other (← g.block)

def keyedMember (g : Grammar) : Parser ClassMember := do
  let modifiers ← memberModifiersHere
  let line ← line
  let key ← g.key
  discard <| (· || ·) <$> mark? "?" <*> mark? "!"
  if startsSignature (← token) then
    let function ← g.functionTail key.name? line
    if function.body.isNone then memberEnd
    return .method {
      key
      isStatic := modifiers.contains "static"
      isAccessor := modifiers.contains "get" || modifiers.contains "set"
      function }
  let type ← g.annotation
  let value ← g.initializer
  memberEnd
  return .field key type.cls type.parts value

def damagedMember (g : Grammar) : Parser (List ClassMember) := do
  return [.other (← g.unreadable startsLine)]

def member (g : Grammar) : Parser (List ClassMember) := do
  if ← mark? ";" then return []
  if ← mark? "," then
    damage
    return []
  if ← isMark "@" then return [.other (← g.decorator)]
  return [← g.staticBlock <|> g.indexSignature <|> g.keyedMember]

def heritage (g : Grammar) : Parser (Node × List Node) := do
  let e ← g.operand { hasInstantiation := false }
  return (e, ← if startsSignature (← token) then g.typeArguments else pure [])

def readClass (g : Grammar) : Parser ClassDefinition := do
  let line ← line
  let decorators ← g.decorators
  let _ ← word? "abstract"
  word "class"
  let nameLine ← Parser.line
  let name ← if ← isWord "implements" then pure none else attempt Parser.name
  let typeParameters ← g.typeParameters
  let base ← if ← word? "extends" then some <$> g.heritage else pure none
  let interfaces ← afterToken (.word "implements") (List.flatten <$> sepBy "," g.typeParts)
  mark "\x7b"
  let members ← manyUntil "\x7d" (g.member <|> g.damagedMember)
  return { name, line := if name.isSome then nameLine else line, decorators, typeParameters,
           base := base.map Prod.fst
           supertypes := base.elim [] Prod.snd ++ interfaces
           members := members.flatten }

end CallDiagram.Grammar
