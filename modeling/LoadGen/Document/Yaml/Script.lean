/-
Scalars as they are written: plain where that reads back, in quotes where it would not, as a literal block where there
are several lines, and in double quotes with escapes where no other spelling can hold the text.
-/
import LoadGen.Document.Datum
import LoadGen.Document.Yaml.Cursor

namespace LoadGen.Document.Yaml

/-- a character that may be written as it is -/
def isPrintable (c : Char) : Bool :=
  let n := c.toNat
  n = 0x0A || (0x20 ≤ n && n ≤ 0x7E) || (0xA0 ≤ n && n ≤ 0xD7FF) || (0xE000 ≤ n && n ≤ 0xFFFD && n ≠ 0xFEFF) ||
    0x10000 ≤ n

/-- two characters next to each other -/
def hasPair (p q : Char → Bool) : List Char → Bool
  | a :: b :: s => (p a && q b) || hasPair p q (b :: s)
  | _ => false

/-- somewhere in a text a line ends after a space, or a character cannot be written as it is -/
def needsEscapes (s : List Char) : Bool :=
  hasPair (· = ' ') isBreak s || s.any fun c => !isPrintable c

/-- a text that single quotes can hold -/
def fitsQuotes (s : List Char) : Bool :=
  !needsEscapes s && !hasPair isBreak (· = ' ') s

/-- a text that a literal block can hold -/
def fitsBlock (s : List Char) : Bool :=
  !needsEscapes s && s.getLast? ≠ some ' '

/-- a colon before a blank or the end, or a hash sign after a blank -/
def hasMark : List Char → Bool
  | [] => false
  | ':' :: s => startsBlank s || hasMark s
  | c :: '#' :: s => isSpaceOrTab c || isBreak c || hasMark s
  | _ :: s => hasMark s

/-- an indicator at the start of a text -/
def startsIndicator (s : List Char) : Bool :=
  match s with
  | '-' :: '-' :: '-' :: _ | '.' :: '.' :: '.' :: _ => true
  | '?' :: r | '-' :: r => startsBlank r
  | c :: _ =>
    c ∈ ['#', ',', '[', ']', '\x7b', '\x7d', '&', '*', '!', '|', '>', '\'', '"', '%', '@', '\x60']
  | [] => false

/-- a text that reads back without quotes, as far as its characters go -/
def fitsPlain (s : List Char) : Bool :=
  fitsQuotes s && !s.any isBreak && s.head? ≠ some ' ' && s.getLast? ≠ some ' ' && !startsIndicator s && !hasMark s

/-- without quotes the text would mean something else -/
def isMistakable (s : String) : Bool :=
  match Plain.meaning? s with
  | some (.text _) => Plain.isZeroPadded s.toList
  | _ => true

/-- the spellings of a scalar -/
inductive Spelling where
  | plain
  | single
  | double
  | literal
  deriving DecidableEq, Repr

/-- the spelling of a text -/
def spelling (s : String) : Spelling :=
  let cs := s.toList
  let quoted := if fitsQuotes cs then Spelling.single else .double
  if cs.contains '\n' then if fitsBlock cs then .literal else .double
  else if isMistakable s || !fitsPlain cs then quoted
  else .plain

/-- `n` spaces -/
def spaces (n : Nat) : List Char :=
  List.replicate n ' '

/-- the text in single quotes; what follows a line end, the closing quote too, stands at column `indent` -/
def singleBody (indent : Nat) : Bool → List Char → List Char
  | broken, [] => if broken then spaces indent else []
  | broken, c :: s =>
    if isBreak c then c :: singleBody indent true s
    else
      (if broken then spaces indent else []) ++ (if c = '\'' then ['\'', '\''] else [c]) ++ singleBody indent false s

/-- hexadecimal digits in capitals -/
def hexDigits (width n : Nat) : List Char :=
  let ds := (Nat.toDigits 16 n).map Char.toUpper
  List.replicate (width - ds.length) '0' ++ ds

/-- a character in double quotes -/
def escaped (c : Char) : List Char :=
  let n := c.toNat
  if isPrintable c && !isBreak c && c ≠ '"' && c ≠ '\\' then [c]
  else '\\' :: match n with
    | 0x00 => ['0']
    | 0x07 => ['a']
    | 0x08 => ['b']
    | 0x09 => ['t']
    | 0x0A => ['n']
    | 0x0B => ['v']
    | 0x0C => ['f']
    | 0x0D => ['r']
    | 0x1B => ['e']
    | 0x22 => ['"']
    | 0x5C => ['\\']
    | 0x85 => ['N']
    | 0xA0 => ['_']
    | 0x2028 => ['L']
    | 0x2029 => ['P']
    | n => if n ≤ 0xFF then 'x' :: hexDigits 2 n else if n ≤ 0xFFFF then 'u' :: hexDigits 4 n else 'U' :: hexDigits 8 n

/-- the header of a literal block: the width of its indentation if its first line starts with a space or is empty, and a
sign for line ends at its end other than one -/
def blockHeader (s : List Char) : List Char :=
  let width := if s.head?.any fun c => c = ' ' || isBreak c then ['2'] else []
  let sign := match s.reverse with
    | [] => ['-']
    | [c] => if isBreak c then ['+'] else ['-']
    | c :: d :: _ => if !isBreak c then ['-'] else if isBreak d then ['+'] else []
  '|' :: width ++ sign

/-- the lines of a literal block, each at column `indent`, empty lines without indentation -/
def blockBody (indent : Nat) : Bool → List Char → List Char
  | _, [] => []
  | fresh, c :: s =>
    if isBreak c then c :: blockBody indent true s
    else (if fresh then spaces indent else []) ++ c :: blockBody indent false s

/-- a text as it is written; its later lines stand at column `indent` -/
def scalarText (indent : Nat) (s : String) : List Char :=
  match spelling s with
  | .plain => s.toList
  | .single => '\'' :: singleBody indent false s.toList ++ ['\'']
  | .double => '"' :: s.toList.flatMap escaped ++ ['"']
  | .literal => blockHeader s.toList ++ '\n' :: blockBody indent true s.toList

end LoadGen.Document.Yaml
