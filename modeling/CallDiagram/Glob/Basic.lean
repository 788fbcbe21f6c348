/-!
Globs and what they match. A glob is matched against the bytes of a whole text, and all wildcards match
slashes too. The wildcard for directories stands for any number of whole directories.
-/

namespace CallDiagram

namespace Glob

inductive Token
  | literal (c : Char)
  | anyByte
  | anything
  | directoriesFirst
  | directoriesLast
  | directoriesBetween
  | oneOf (negated : Bool) (ranges : List (Char × Char))
  | alternatives (branches : List (List Token))

def bytesOf (c : Char) : List UInt8 := c.toString.toUTF8.toList

def slash : UInt8 := 47

/-- Characters of more than one byte take part in a class byte by byte: in a range only the last byte
of the lower end and the first byte of the upper end are its ends. -/
def byteRanges : Char × Char → List (UInt8 × UInt8)
  | (low, high) =>
    if low = high then (bytesOf low).map fun b => (b, b)
    else
      let lows := bytesOf low
      let highs := bytesOf high
      (lows.dropLast.map fun b => (b, b))
        ++ (lows.getLast?.bind fun l => highs.head?.map fun h => (l, h)).toList
        ++ highs.tail.map fun b => (b, b)

def inClass (ranges : List (Char × Char)) (b : UInt8) : Bool :=
  (ranges.flatMap byteRanges).any fun range => range.1 ≤ b && b ≤ range.2

def ends : List UInt8 → List (List UInt8)
  | [] => [[]]
  | b :: bs => (b :: bs) :: ends bs

def behindSlashes : List UInt8 → List (List UInt8)
  | [] => []
  | b :: bs => if b = slash then bs :: behindSlashes bs else behindSlashes bs

mutual
def isVoid : List Token → Bool
  | [] => true
  | .alternatives branches :: tokens => allVoid branches && isVoid tokens
  | _ :: _ => false

def allVoid : List (List Token) → Bool
  | [] => true
  | branch :: branches => isVoid branch && allVoid branches
end

mutual
/-- What can be left of a text when the token has matched its start. Alternatives that are void do
not count. -/
def Token.rests (text : List UInt8) : Token → List (List UInt8)
  | .literal c =>
    let bytes := bytesOf c
    if bytes.isPrefixOf text then [text.drop bytes.length] else []
  | .anyByte => match text with
    | [] => []
    | _ :: bs => [bs]
  | .anything => ends text
  | .directoriesFirst => text :: behindSlashes text
  | .directoriesLast => match text with
    | [] => []
    | b :: bs => if b = slash then ends bs else []
  | .directoriesBetween => match text with
    | [] => []
    | b :: bs => if b = slash then bs :: behindSlashes bs else []
  | .oneOf negated ranges => match text with
    | [] => []
    | b :: bs => if inClass ranges b != negated then [bs] else []
  | .alternatives branches => if allVoid branches then [text] else branchRests text branches

def branchRests (text : List UInt8) : List (List Token) → List (List UInt8)
  | [] => []
  | branch :: branches =>
    (if isVoid branch then [] else sequenceRests [text] branch) ++ branchRests text branches

def sequenceRests (texts : List (List UInt8)) : List Token → List (List UInt8)
  | [] => texts
  | token :: tokens => sequenceRests (texts.flatMap fun text => token.rests text).eraseDups tokens
end

end Glob

structure Glob where
  tokens : List Glob.Token

namespace Glob

def isUniversal : List Token → Bool
  | [.directoriesFirst] => true
  | _ => false

def isMatch (g : Glob) (text : String) : Bool :=
  isUniversal g.tokens || (sequenceRests [text.toUTF8.toList] g.tokens).contains []

end Glob

end CallDiagram
