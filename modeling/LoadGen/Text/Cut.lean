/-
Cutting a text: at its first separator or at all of them, at the first place where a token stands, and by taking a
known start or end off. Every cut names the pieces and loses nothing but the separator or token itself. Blanks are the
25 code points with the Unicode property White_Space, as ranges; a text is trimmed of them at both ends, or rid of all.
-/
namespace LoadGen.Text

/-- the text before and after the first `sep` -/
def splitOnce (sep : Char) : List Char → Option (List Char × List Char)
  | [] => none
  | c :: s =>
    if c = sep then some ([], s)
    else (splitOnce sep s).map fun p => (c :: p.1, p.2)

/-- the items between separators -/
def splitAll (sep : Char) : List Char → List (List Char)
  | [] => [[]]
  | c :: s =>
    if c = sep then [] :: splitAll sep s
    else match splitAll sep s with
      | [] => [[c]]
      | item :: items => (c :: item) :: items

/-- what follows `start`, if the text begins with it -/
def afterStart? : List Char → List Char → Option (List Char)
  | [], s => some s
  | _ :: _, [] => none
  | p :: ps, c :: s => if p = c then afterStart? ps s else none

/-- what precedes `ending`, if the text ends with it -/
def beforeEnd? (ending s : List Char) : Option (List Char) :=
  (afterStart? ending.reverse s.reverse).map List.reverse

/-- the text before and after the first occurrence of `token` -/
def splitAt? (token : List Char) : List Char → Option (List Char × List Char)
  | [] => if token.isEmpty then some ([], []) else none
  | c :: s =>
    match afterStart? token (c :: s) with
    | some rest => some ([], rest)
    | none => (splitAt? token s).map fun p => (c :: p.1, p.2)

/-- ASCII letters in lower case, all else as it is -/
def lowerAscii (s : List Char) : List Char :=
  s.map Char.toLower

/-- ASCII letters in upper case, all else as it is -/
def upperAscii (s : List Char) : List Char :=
  s.map Char.toUpper

/-- equal up to the case of ASCII letters -/
def sameIgnoringCase (s t : List Char) : Bool :=
  lowerAscii s = lowerAscii t

/-! ## Blanks -/

/-- closed ranges of blank code points, ascending and apart -/
def blankRanges : List (Nat × Nat) :=
  [(0x09, 0x0D), (0x20, 0x20), (0x85, 0x85), (0xA0, 0xA0), (0x1680, 0x1680), (0x2000, 0x200A), (0x2028, 0x2029),
    (0x202F, 0x202F), (0x205F, 0x205F), (0x3000, 0x3000)]

/-- a character with the property White_Space -/
def isBlank (c : Char) : Bool :=
  blankRanges.any fun r => r.1 ≤ c.toNat && c.toNat ≤ r.2

/-- without the blanks at the start -/
def trimLeft (s : List Char) : List Char :=
  s.dropWhile isBlank

/-- without the blanks at the end -/
def trimRight (s : List Char) : List Char :=
  (s.reverse.dropWhile isBlank).reverse

/-- without the blanks at either end -/
def trim (s : List Char) : List Char :=
  trimRight (trimLeft s)

/-- without any blank -/
def compact (s : List Char) : List Char :=
  s.filter fun c => !isBlank c

end LoadGen.Text
