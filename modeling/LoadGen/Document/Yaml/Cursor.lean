/-
Places in the text of a YAML document: what is left to read, and how far along it stands, by characters, lines and
columns. A line ends in a line feed, a carriage return, both, or one of the three line separators of Unicode.
-/
namespace LoadGen.Document.Yaml

/-- a place in a text -/
structure Cursor where
  rest : List Char
  /-- characters before it -/
  index : Nat := 0
  line : Nat := 0
  column : Nat := 0
  deriving Repr

def isSpaceOrTab (c : Char) : Bool :=
  c = ' ' || c = '\t'

/-- next line, line separator and paragraph separator -/
def isSeparator (c : Char) : Bool :=
  c = '\u0085' || c = '\u2028' || c = '\u2029'

def isBreak (c : Char) : Bool :=
  c = '\n' || c = '\r' || isSeparator c

/-- a digit, an ASCII letter, a dash or an underscore -/
def isWordChar (c : Char) : Bool :=
  c.isAlphanum || c = '-' || c = '_'

/-- a blank, a line end or the end of the text comes first -/
def startsBlank : List Char → Bool
  | [] => true
  | c :: _ => isSpaceOrTab c || isBreak c

/-- a line end comes first -/
def startsBreak : List Char → Bool
  | [] => false
  | c :: _ => isBreak c

/-- a line end or the end of the text comes first -/
def startsLineEnd (s : List Char) : Bool :=
  s.isEmpty || startsBreak s

/-- a space or a tab comes first -/
def startsSpace : List Char → Bool
  | [] => false
  | c :: _ => isSpaceOrTab c

/-- a certain character comes first -/
def starts (c : Char) (s : List Char) : Bool :=
  s.head? = some c

/-- three dashes or three points that stand alone -/
def startsMarker (c : Char) : List Char → Bool
  | a :: b :: d :: s => a = c && b = c && d = c && startsBlank s
  | _ => false

namespace Cursor

/-- `n` characters on, none of them a line end -/
def advance (n : Nat) (c : Cursor) : Cursor :=
  ⟨c.rest.drop n, c.index + n, c.line, c.column + n⟩

/-- past the characters of a kind -/
def skipWhile (p : Char → Bool) (c : Cursor) : Cursor :=
  c.advance (c.rest.takeWhile p).length

/-- past a line end, with the text that it counts as: a line feed, or itself for the two newest separators -/
def takeBreak (c : Cursor) : List Char × Cursor :=
  match c.rest with
  | '\r' :: '\n' :: s => (['\n'], ⟨s, c.index + 2, c.line + 1, 0⟩)
  | b :: s =>
    if isBreak b then
      (if b = '\u2028' || b = '\u2029' then [b] else ['\n'], ⟨s, c.index + 1, c.line + 1, 0⟩)
    else ([], c)
  | [] => ([], c)

/-- past a comment, up to the end of its line -/
def skipComment (c : Cursor) : Cursor :=
  if starts '#' c.rest then c.skipWhile fun ch => !isBreak ch else c

/-- a marker of three dashes or three points stands here, at the start of a line -/
def atMarker (c : Cursor) : Bool :=
  c.column = 0 && (startsMarker '-' c.rest || startsMarker '.' c.rest)

/-- past blanks, a comment and the end of the line; nothing else may stand there -/
def skipLineRest? (c : Cursor) : Option Cursor :=
  let c := (c.skipWhile isSpaceOrTab).skipComment
  if startsLineEnd c.rest then some c.takeBreak.2 else none

end Cursor

end LoadGen.Document.Yaml
