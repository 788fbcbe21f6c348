import CallDiagram.Text.Blank

namespace CallDiagram

inductive Token
  | word (text : String)
  | privateName (text : String)
  | number
  | string (text : String)
  | backtick
  | mark (text : String)
  | stray (first : Char)
  | endOfText
  deriving DecidableEq, Repr

namespace Token

abbrev Split := List Char × List Char

def Split.after (text : List Char) (s : Split) : Split := (text ++ s.1, s.2)

def isBlank (c : Char) : Bool :=
  Text.isBlank c && c.toNat != 0x85 || c.toNat == 0x200B || c.toNat == 0x2060 || c.toNat == 0xFEFF

def endsLine (c : Char) : Bool := c == '\n' || c.toNat == 0x2028 || c.toNat == 0x2029

def endsComment (c : Char) : Bool := endsLine c || c == '\x0d'

def closesComment : List Char → Bool
  | '*' :: '/' :: _ => true
  | _ :: cs => closesComment cs
  | [] => false

inductive BlankState
  | between
  | line
  | block

def blanks : BlankState → List Char → Split
  | _, [] => ([], [])
  | .between, '/' :: '/' :: cs => (blanks .line cs).after ['/', '/']
  | .between, '/' :: '*' :: cs =>
    if closesComment cs then (blanks .block cs).after ['/', '*'] else ([], '/' :: '*' :: cs)
  | .between, c :: cs => if isBlank c then (blanks .between cs).after [c] else ([], c :: cs)
  | .line, c :: cs => (blanks (if endsComment c then .between else .line) cs).after [c]
  | .block, '*' :: '/' :: cs => (blanks .between cs).after ['*', '/']
  | .block, c :: cs => (blanks .block cs).after [c]

def line (cs : List Char) : Split := cs.span (! endsLine ·)

def hashbang : List Char → Split
  | '#' :: '!' :: cs => (line cs).after ['#', '!']
  | cs => ([], cs)

def separators : List Char := ":;`\"'@#.,|^&<=>+-*/\\%?!~()[]\x7b\x7d".toList

def isNamePart (c : Char) : Bool :=
  !(isBlank c || c.toNat < 0x20 || separators.contains c)

def isNameStart (c : Char) : Bool := isNamePart c && !c.isDigit

def nameTail : (inBraces : Bool) → List Char → Split
  | true, '}' :: cs => (nameTail false cs).after ['}']
  | true, c :: cs => if c.isAlphanum then (nameTail true cs).after [c] else ([], c :: cs)
  | false, '\\' :: 'u' :: '{' :: cs => (nameTail true cs).after ['\\', 'u', '{']
  | false, '\\' :: 'u' :: cs => (nameTail false cs).after ['\\', 'u']
  | false, c :: cs => if isNamePart c then (nameTail false cs).after [c] else ([], c :: cs)
  | _, [] => ([], [])

def startsName : List Char → Bool
  | '\\' :: 'u' :: _ => true
  | c :: _ => isNameStart c
  | [] => false

def isDigitPart (c : Char) : Bool := c.isDigit || c == '_'

def digits (cs : List Char) : Split := cs.span isDigitPart

def exponent : List Char → Split
  | e :: sign :: d :: cs =>
    if (e == 'e' || e == 'E') && (sign == '+' || sign == '-') && d.isDigit then
      (digits (d :: cs)).after [e, sign]
    else if (e == 'e' || e == 'E') && sign.isDigit then (digits (sign :: d :: cs)).after [e]
    else ([], e :: sign :: d :: cs)
  | [e, d] => if (e == 'e' || e == 'E') && d.isDigit then ([e, d], []) else ([], [e, d])
  | cs => ([], cs)

def fraction (cs : List Char) : Split :=
  let (point, rest) := match cs with
    | '.' :: rest => (digits rest).after ['.']
    | _ => ([], cs)
  (exponent rest).after point

def isRadixMark (c : Char) : Bool := "xXoObB".toList.contains c

def numeral : List Char → Split
  | '0' :: c :: cs =>
    if isRadixMark c then Split.after ['0', c] (cs.span fun c => c.isAlphanum || c == '_')
    else decimal ('0' :: c :: cs)
  | cs => decimal cs
where
  decimal (cs : List Char) : Split :=
    match digits cs with
    | (whole, 'n' :: rest) => (whole ++ ['n'], rest)
    | (whole, rest) => (fraction rest).after whole

def startsNumber : List Char → Bool
  | '.' :: c :: _ => c.isDigit
  | c :: _ => c.isDigit
  | [] => false

def stringTail (quote : Char) : List Char → Option Split
  | [] => none
  | '\\' :: '\x0d' :: '\n' :: cs => (stringTail quote cs).map (·.after ['\\', '\x0d', '\n'])
  | '\\' :: c :: cs => (stringTail quote cs).map (·.after ['\\', c])
  | c :: cs =>
    if c == quote then some ([c], cs)
    else if c == '\n' || c == '\x0d' then none
    else (stringTail quote cs).map (·.after [c])

def brokenTail : List Char → Split
  | [] => ([], [])
  | '\\' :: c :: cs => (brokenTail cs).after ['\\', c]
  | c :: cs => if c == '\n' || c == '\x0d' then ([], c :: cs) else (brokenTail cs).after [c]

def templateText : List Char → Split
  | [] => ([], [])
  | '\\' :: c :: cs => (templateText cs).after ['\\', c]
  | '`' :: cs => ([], '`' :: cs)
  | '$' :: '{' :: cs => ([], '$' :: '{' :: cs)
  | c :: cs => (templateText cs).after [c]

def patternTail : (inBrackets : Bool) → List Char → Option Split
  | _, [] => none
  | _, '\n' :: _ => none
  | b, '\\' :: c :: cs => (patternTail b cs).map (·.after ['\\', c])
  | b, c :: cs =>
    if c == '/' && !b then some ([c], cs)
    else (patternTail (c == '[' || b && c != ']') cs).map (·.after [c])

def regularExpression : List Char → Option Split
  | '/' :: cs => (patternTail false cs).map fun (pattern, rest) =>
    let (flags, rest) := rest.span Char.isAlpha
    ('/' :: pattern ++ flags, rest)
  | _ => none

/-- Longer marks stand before those they start with. What starts with `>` is put together by the
grammar, since brackets of types may stand side by side. -/
def marks : List String :=
  ["...", "===", "!==", "**=", "<<=", "&&=", "||=", "??=",
    "=>", "==", "!=", "<=", "<<", "++", "--", "+=", "-=", "**", "*=", "/=", "%=", "&&", "&=", "||",
    "|=", "^=", "??", "?.",
    "\x7b", "\x7d", "(", ")", "[", "]", ";", ",", "<", ">", "=", "!", "+", "-", "*", "/", "%", "&",
    "|", "^", "~", "?", ":", ".", "@"]

def isSplitMark (text : String) (rest : List Char) : Bool :=
  text == "?." && (rest.head?.map Char.isDigit).getD false

def leadingMark? (cs : List Char) : Option (String × List Char) :=
  marks.findSome? fun text =>
    let rest := cs.drop text.length
    if text.toList.isPrefixOf cs && !isSplitMark text rest then some (text, rest) else none

def first : List Char → Token × Split
  | [] => (.endOfText, [], [])
  | '#' :: cs =>
    if startsName cs then
      let (name, rest) := nameTail false cs
      (.privateName (String.ofList ('#' :: name)), '#' :: name, rest)
    else (.stray '#', ['#'], cs)
  | '`' :: cs => (.backtick, ['`'], cs)
  | '/' :: '*' :: cs => (.stray '/', (brokenTail cs).after ['/', '*'])
  | c :: cs =>
    if c == '"' || c == '\'' then
      match stringTail c cs with
      | some (text, rest) => (.string (String.ofList (c :: text)), c :: text, rest)
      | none => (.stray c, (brokenTail cs).after [c])
    else if startsName (c :: cs) then
      let (name, rest) := nameTail false (c :: cs)
      (.word (String.ofList name), name, rest)
    else if startsNumber (c :: cs) then (.number, numeral (c :: cs))
    else match leadingMark? (c :: cs) with
      | some (text, rest) => (.mark text, text.toList, rest)
      | none => (.stray c, [c], cs)

end Token

end CallDiagram
