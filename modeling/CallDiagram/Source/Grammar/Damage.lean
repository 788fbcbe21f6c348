import CallDiagram.Source.Grammar.Expression

namespace CallDiagram.Grammar

open CallDiagram.Parser

def followBraces (depth : Nat) : Parser (Option Nat) := do
  match depth, ← token with
  | _, .endOfText | 0, .mark "\x7d" | 0, .mark ";" => return none
  | depth, .mark "\x7b" => advance; return some (depth + 1)
  | depth + 1, .mark "\x7d" => advance; return some depth
  | depth, _ => advance; return some depth

def skipBraces : Parser Unit := do
  mark "\x7b"
  let depth ← repeated (fun depth => if depth = 0 then return none else followBraces depth) 1
  guard (depth = 0)

/-- How many of the braces that are opened in what starts here are open where the text ends. -/
def openBraces : Parser Nat := lookAhead do
  let depth ← repeated followBraces 0
  return if ← atEnd then depth else 0

def piece (g : Grammar) : Parser (List Node) := do
  if ← isMark "\x7b" then return [← g.block]
  match ← attempt g.sequence with
  | some e => return [e]
  | none => advance; return []

def pieces (g : Grammar) (startsNew : Parser Bool) : Parser (List Node) := do
  let first ← g.piece
  let rest ← many do
    if (← atEnd) || (← isMark "\x7d") || (← startsNew) then return none
    if ← mark? ";" then return none
    some <$> g.piece
  return first ++ rest.flatten

def unreadable (g : Grammar) (startsNew : Parser Bool) : Parser Node := do
  guard !(← atEnd)
  damage
  if 0 < (← openBraces) then
    skipToEnd
    return .other []
  return .other (← g.pieces startsNew)

end CallDiagram.Grammar
