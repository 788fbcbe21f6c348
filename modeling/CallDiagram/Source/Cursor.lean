import CallDiagram.Source.Dialect
import CallDiagram.Source.Token

namespace CallDiagram

structure Cursor where
  dialect : Dialect
  limit : Nat
  blanks : List Char := []
  token : Token := .endOfText
  text : List Char := []
  rest : List Char
  line : Nat := 1
  damaged : Bool := false

namespace Cursor

def lines (cs : List Char) : Nat := cs.count '\n'

def jump (c : Cursor) (passed rest : List Char) : Cursor :=
  let (blanks, rest) := Token.blanks .between rest
  let (token, text, rest) := Token.first rest
  { c with blanks, token, text, rest, line := c.line + lines passed + lines blanks }

def next (c : Cursor) : Cursor := c.jump c.text c.rest

def ahead (c : Cursor) : List Char := c.text ++ c.rest

def ofText (dialect : Dialect) (text : String) : Cursor :=
  let cs := text.toList
  let (first, rest) := Token.hashbang cs
  Cursor.jump { dialect, limit := cs.length + 1, rest := [] } first rest

def startsLine (c : Cursor) : Bool := c.blanks.any Token.endsLine

def angleMarks : List String := [">>>=", ">>>", ">>=", ">>", ">="]

/-- The cursor with as long a mark as can be made of a `>` and what follows it. -/
def joinAngles (c : Cursor) : Cursor :=
  if c.token = .mark ">" then
    match angleMarks.find? fun text => text.toList.isPrefixOf c.ahead with
    | some text => { c with
        token := .mark text, text := text.toList, rest := c.ahead.drop text.length }
    | none => c
  else c

def splitAngles (c : Cursor) : Cursor :=
  match c.token, c.ahead with
  | .mark _, '<' :: rest => { c with token := .mark "<", text := ['<'], rest }
  | _, _ => c

def hasComment (c : Cursor) : Bool := c.blanks.contains '/'

def startsHiddenLine (c : Cursor) : Bool :=
  "<!--".toList.isPrefixOf c.ahead || "-->".toList.isPrefixOf c.ahead

def skipLine (c : Cursor) : Cursor :=
  let (passed, rest) := Token.line c.ahead
  c.jump passed rest

end Cursor

end CallDiagram
