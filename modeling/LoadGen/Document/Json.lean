/-
JSON text as a document tree. Containers nest at most 127 deep; a control character or half of a surrogate pair in a
string, a leading zero, a missing digit or anything after the value is a fault, and the tree is cut where it stands.
-/
import LoadGen.Document.Node

namespace LoadGen.Document.Json

/-- JSON blanks -/
def isSpace (c : Char) : Bool :=
  c = ' ' ∨ c = '\n' ∨ c = '\t' ∨ c = '\r'

def skipSpace (s : List Char) : List Char :=
  s.dropWhile isSpace

/-- the value of a hexadecimal digit -/
def hex? (c : Char) : Option Nat :=
  if '0' ≤ c ∧ c ≤ '9' then some (c.toNat - 48)
  else if 'a' ≤ c ∧ c ≤ 'f' then some (c.toNat - 87)
  else if 'A' ≤ c ∧ c ≤ 'F' then some (c.toNat - 55)
  else none

/-- the 16-bit unit that four hexadecimal digits spell, and the rest -/
def unit? : List Char → Option (Nat × List Char)
  | a :: b :: c :: d :: r => do
    let a ← hex? a
    let b ← hex? b
    let c ← hex? c
    let d ← hex? d
    pure (((a * 16 + b) * 16 + c) * 16 + d, r)
  | _ => none

/-- the character of an escape, after its backslash -/
def escape? : List Char → Option (Char × List Char)
  | '"' :: r => some ('"', r)
  | '\\' :: r => some ('\\', r)
  | '/' :: r => some ('/', r)
  | 'b' :: r => some (Char.ofNat 8, r)
  | 'f' :: r => some (Char.ofNat 12, r)
  | 'n' :: r => some ('\n', r)
  | 'r' :: r => some ('\r', r)
  | 't' :: r => some ('\t', r)
  | 'u' :: r => do
    let (high, r) ← unit? r
    if 0xD800 ≤ high ∧ high < 0xDC00 then
      match r with
      | '\\' :: 'u' :: r =>
        let (low, r) ← unit? r
        if 0xDC00 ≤ low ∧ low < 0xE000 then
          pure (Char.ofNat (0x10000 + (high - 0xD800) * 0x400 + (low - 0xDC00)), r)
        else none
      | _ => none
    else if 0xDC00 ≤ high ∧ high < 0xE000 then none
    else pure (Char.ofNat high, r)
  | _ => none

/-- the rest of a string after its opening quote; `acc` holds its characters so far, latest first -/
def stringFrom? : Nat → List Char → List Char → Option (String × List Char)
  | 0, _, _ => none
  | fuel + 1, acc, s =>
    match s with
    | [] => none
    | '"' :: r => some (String.ofList acc.reverse, r)
    | '\\' :: r =>
      match escape? r with
      | some (c, r) => stringFrom? fuel (c :: acc) r
      | none => none
    | c :: r => if c.toNat < 0x20 then none else stringFrom? fuel (c :: acc) r

/-- the exponent of a number, if one stands here; `none` if it has no digit -/
def exponent? : List Char → Option (Option (Bool × List Char) × List Char)
  | c :: s =>
    if c = 'e' ∨ c = 'E' then
      let (negative, s) := match s with
        | '-' :: r => (true, r)
        | '+' :: r => (false, r)
        | r => (false, r)
      let digits := s.takeWhile Char.isDigit
      if digits.isEmpty then none else some (some (negative, digits), s.dropWhile Char.isDigit)
    else some (none, c :: s)
  | [] => some (none, [])

/-- a number and the rest -/
def number? (s : List Char) : Option (Numeral × List Char) := do
  let (negative, s) := match s with
    | '-' :: r => (true, r)
    | r => (false, r)
  let whole := s.takeWhile Char.isDigit
  if whole.isEmpty ∨ (whole.head? = some '0' ∧ 1 < whole.length) then none
  else
    match s.dropWhile Char.isDigit with
    | '.' :: r =>
      let fraction := r.takeWhile Char.isDigit
      if fraction.isEmpty then none
      else
        let (e, r) ← exponent? (r.dropWhile Char.isDigit)
        pure (⟨negative, whole, some fraction, e⟩, r)
    | r =>
      let (e, r) ← exponent? r
      pure (⟨negative, whole, none, e⟩, r)

/-- a literal name, a number or a string -/
def leaf? (s : List Char) : Option (Node × List Char) :=
  match s with
  | 'n' :: 'u' :: 'l' :: 'l' :: r => some (.null, r)
  | 't' :: 'r' :: 'u' :: 'e' :: r => some (.bool true, r)
  | 'f' :: 'a' :: 'l' :: 's' :: 'e' :: r => some (.bool false, r)
  | '"' :: r => (stringFrom? s.length [] r).map fun p => (.text p.1, p.2)
  | _ => (number? s).map fun p => (.number p.1, p.2)

mutual

/-- a value and the rest, no rest where the value is cut; `depth` more containers may open -/
def value (fuel depth : Nat) (s : List Char) : Node × Option (List Char) :=
  match fuel with
  | 0 => (.cut, none)
  | fuel + 1 =>
    match skipSpace s with
    | '[' :: r =>
      if depth ≤ 1 then (.cut, none)
      else match skipSpace r with
      | ']' :: r => (.seq none [], some r)
      | r =>
        let (xs, rest) := items fuel (depth - 1) r
        (.seq none xs, rest)
    | '{' :: r =>
      if depth ≤ 1 then (.cut, none)
      else match skipSpace r with
      | '}' :: r => (.map none [], some r)
      | r =>
        let (xs, rest) := members fuel (depth - 1) r
        (.map none xs, rest)
    | r =>
      match leaf? r with
      | some (v, r) => (v, some r)
      | none => (.cut, none)

/-- the items of an array from here to its bracket -/
def items (fuel depth : Nat) (s : List Char) : List Node × Option (List Char) :=
  match fuel with
  | 0 => ([.cut], none)
  | fuel + 1 =>
    match value fuel depth s with
    | (v, none) => ([v], none)
    | (v, some r) =>
      match skipSpace r with
      | ']' :: r => ([v], some r)
      | ',' :: r =>
        let (vs, rest) := items fuel depth r
        (v :: vs, rest)
      | _ => ([v, .cut], none)

/-- the members of an object from here to its brace -/
def members (fuel depth : Nat) (s : List Char) : List (Node × Node) × Option (List Char) :=
  match fuel with
  | 0 => ([(.cut, .cut)], none)
  | fuel + 1 =>
    match skipSpace s with
    | '"' :: r =>
      match stringFrom? s.length [] r with
      | none => ([(.cut, .cut)], none)
      | some (k, r) =>
        match skipSpace r with
        | ':' :: r =>
          match value fuel depth r with
          | (v, none) => ([(.text k, v)], none)
          | (v, some r) =>
            match skipSpace r with
            | '}' :: r => ([(.text k, v)], some r)
            | ',' :: r =>
              let (rest, r) := members fuel depth r
              ((.text k, v) :: rest, r)
            | _ => ([(.text k, v), (.cut, .cut)], none)
        | _ => ([(.text k, .cut)], none)
    | _ => ([(.cut, .cut)], none)

end

/-- the document that a text spells, and whether nothing but blanks follows it -/
def read (s : List Char) : Node × Bool :=
  match value (2 * s.length + 2) 128 s with
  | (v, none) => (v, false)
  | (v, some r) => (v, (skipSpace r).isEmpty)

end LoadGen.Document.Json
