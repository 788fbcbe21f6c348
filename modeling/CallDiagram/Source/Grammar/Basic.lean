import CallDiagram.Source.Cursor
import CallDiagram.Source.Statement

/-!
Reading with a cursor. The rules of the grammar refer to one another, so each is given a `Grammar` to
read the phrases inside its own; `Grammar.Script` ties the knot.
-/

namespace CallDiagram

abbrev Parser := StateT Cursor Option

namespace Parser

def token : Parser Token := return (← get).token

def advance : Parser Unit := modify Cursor.next

def line : Parser Nat := return (← get).line

def startsLine : Parser Bool := return (← get).startsLine

def isMark (text : String) : Parser Bool := return (← token) == .mark text

def isWord (text : String) : Parser Bool := return (← token) == .word text

def atEnd : Parser Bool := return (← token) == .endOfText

def skip? (wanted : Token) : Parser Bool := do
  if (← token) == wanted then
    advance
    return true
  else return false

def mark? (text : String) : Parser Bool := skip? (.mark text)

def word? (text : String) : Parser Bool := skip? (.word text)

def mark (text : String) : Parser Unit := do guard (← mark? text)

def word (text : String) : Parser Unit := do guard (← word? text)

def attempt (p : Parser α) : Parser (Option α) := fun c =>
  match p c with
  | some (a, c) => some (some a, c)
  | none => some (none, c)

def following : Parser Token := return (← get).next.token

def lookAhead (p : Parser α) : Parser α := fun c => (p c).map fun (a, _) => (a, c)

def skipToEnd : Parser Unit := modify fun c => c.jump c.ahead []

def behind (p : Parser α) : Parser α := fun c => (p c.next).map fun (a, _) => (a, c)

def repeatWithin (step : α → Parser (Option α)) : Nat → α → Parser α
  | 0, a => return a
  | n + 1, a => do
    match ← step a with
    | some a => repeatWithin step n a
    | none => return a

def repeated (step : α → Parser (Option α)) (start : α) : Parser α := do
  repeatWithin step (← get).limit start

def manyWithin (p : Parser (Option α)) : Nat → Parser (List α)
  | 0 => failure
  | n + 1 => do
    match ← p with
    | none => return []
    | some a => return a :: (← manyWithin p n)

def many (p : Parser (Option α)) : Parser (List α) := do manyWithin p (← get).limit

def manyUntil (close : String) (p : Parser α) : Parser (List α) :=
  many do if ← mark? close then return none else some <$> p

def damage : Parser Unit := modify fun c => { c with damaged := true }

def skipStray : Parser Unit := do
  discard <| many do
    match ← token with
    | .stray _ => damage *> advance; return some ()
    | _ => return none

/-- Goes past the closing mark. One that is missing where the whole ends or is closed itself is
damage, except for a `>`. -/
def close? (close : String) : Parser Bool := do
  if ← mark? close then return true
  if close == ">" || !(← isMark ";") && !(← isMark ")") && !(← isMark "]") then return false
  damage
  return true

def close (text : String) : Parser Unit := do guard (← close? text)

def separatedWithin (closing : String) (p : Parser α) : Nat → Parser (List α)
  | 0 => failure
  | n + 1 => do
    if ← close? closing then return []
    let a ← p
    if ← mark? "," then return a :: (← separatedWithin closing p n)
    close closing
    return [a]

def separated (closing : String) (p : Parser α) : Parser (List α) := do
  separatedWithin closing p (← get).limit

def unlessOmitted (p : Parser (List α)) : Parser (List α) := do
  if ← isMark "," then return [] else p

def sepBy (between : String) (p : Parser α) : Parser (List α) := do
  let first ← p
  return first :: (← many do if ← mark? between then some <$> p else return none)

def after? (text : String) (p : Parser α) : Parser (Option α) := do
  if ← mark? text then some <$> p else return none

def afterToken (t : Token) (p : Parser (List α)) : Parser (List α) := do
  if ← skip? t then p else return []

def openAngle? : Parser Bool := do
  match (← token) with
  | .mark "<" | .mark "<<" =>
    modify fun c => c.splitAngles.next
    return true
  | _ => return false

def openAngle : Parser Unit := do guard (← openAngle?)

def reservedWords : List String :=
  ["break", "case", "catch", "class", "const", "continue", "debugger", "default", "delete", "do",
    "else", "enum", "export", "extends", "false", "finally", "for", "function", "if", "import", "in",
    "instanceof", "new", "null", "return", "super", "switch", "this", "throw", "true", "try",
    "typeof", "var", "void", "while", "with", "await", "yield"]

def isName (text : String) : Bool := !reservedWords.contains text

def continuingWords : List String :=
  ["case", "catch", "default", "else", "extends", "finally", "in", "instanceof"]

def startsAfresh : Token → Bool
  | .word text => !continuingWords.contains text
  | .privateName _ | .number | .string _ => true
  | .mark text => ["\x7b", "@"].contains text
  | _ => false

/-- The end of a statement: a semicolon, or a place where one may be left out. One that is missing
before another statement is damage. -/
def semicolon : Parser Unit := do
  if ← mark? ";" then return
  if (← isMark "\x7d") || (← atEnd) || (← startsLine) then return
  guard (startsAfresh (← token))
  damage

def peekName : Parser (Option String) := do
  match ← token with
  | .word text => return if isName text then some text else none
  | _ => return none

def name : Parser String := do
  let some text ← peekName | failure
  advance
  return text

def anyWord : Parser String := do
  let .word text ← token | failure
  advance
  return text

def written (p : Parser Unit) : Parser String := do
  let start ← get
  p
  let stop ← get
  let length := start.ahead.length - stop.ahead.length - stop.blanks.length
  return String.ofList (start.ahead.take length)

end Parser

structure Extent where
  hasIn : Bool := true
  hasResultType : Bool := true
  deriving DecidableEq

inductive Phrase
  | type
  | expression (extent : Extent)
  | sequence (extent : Extent)
  | pattern
  | cls
  | markup
  | statement

/-- What is kept of a type: the class that it names, if it does nothing else, and the pieces inside it. -/
structure TypeNode where
  cls : Option String := none
  parts : List Node := []

abbrev Phrase.Result : Phrase → Type
  | .type => TypeNode
  | .cls => ClassDefinition
  | .statement => Statement
  | .expression _ | .sequence _ | .pattern | .markup => Node

abbrev Grammar := (phrase : Phrase) → Parser phrase.Result

namespace Grammar

def type (g : Grammar) : Parser TypeNode := g .type

def typeParts (g : Grammar) : Parser (List Node) := TypeNode.parts <$> g.type

def expression (g : Grammar) (extent : Extent := {}) : Parser Node := g (.expression extent)

def sequence (g : Grammar) (extent : Extent := {}) : Parser Node := g (.sequence extent)

def pattern (g : Grammar) : Parser Node := g .pattern

def cls (g : Grammar) : Parser ClassDefinition := g .cls

def markup (g : Grammar) : Parser Node := g .markup

def statement (g : Grammar) : Parser Statement := g .statement

end Grammar

end CallDiagram
