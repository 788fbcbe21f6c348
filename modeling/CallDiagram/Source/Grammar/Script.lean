import CallDiagram.Source.Grammar.Statement

/-!
Whole source texts. The rules go back to one another only when they have gone forward in the text
since, but for a few steps, so that the length of the text bounds how deep they go.
-/

namespace CallDiagram

namespace Grammar

def step (g : Grammar) : Grammar
  | .type => g.readType
  | .expression extent => g.readExpression extent
  | .sequence extent => g.readSequence extent
  | .pattern => g.readPattern
  | .cls => g.readClass
  | .markup => g.readMarkup
  | .statement => g.readStatement

def within : Nat → Grammar
  | 0, _ => failure
  | n + 1, phrase => step (within n) phrase

/-- How often rules may go back to one another without going forward. -/
def detours : Nat := 8

def script (g : Grammar) : Parser (List Statement) :=
  Parser.many do if ← Parser.atEnd then return none else some <$> g.statement

end Grammar

structure Script where
  statements : List Statement
  damaged : Bool

def Script.ofText (dialect : Dialect) (text : String) : Script :=
  let start := Cursor.ofText dialect text
  match (Grammar.within (Grammar.detours * start.limit)).script start with
  | some (statements, stop) => { statements, damaged := stop.damaged }
  | none => { statements := [], damaged := true }

end CallDiagram
