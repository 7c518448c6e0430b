/-
Floats read from text. The grammar: an optional sign, then `inf`, `infinity` or `nan` in any case, or digits with an
optional point (at least one digit on either side of it) and an optional exponent. The value is the float nearest to the
decimal that the text spells.
-/
import LoadGen.Decimal.Numeral
import LoadGen.Text.Cut

namespace LoadGen.Decimal

/-- a decimal as spelled: sign, digits without the point, and the power of ten they are scaled by -/
structure Literal where
  negative : Bool
  digits : Nat
  exponent : Int
  deriving DecidableEq, Repr

/-- the nearest float; beyond the range of floats the scale is cut short, which changes no result -/
def Literal.toFloat (l : Literal) : Float :=
  let size :=
    if l.digits = 0 then 0.0
    else
      let lead := (ofNat l.digits).length + l.exponent
      if 400 < lead then 1.0 / 0.0
      else if lead < -400 then 0.0
      else Float.ofScientific l.digits (l.exponent < 0) l.exponent.natAbs
  if l.negative then -size else size

/-- the exponent part: `e` or `E`, an optional sign and at least one digit; nothing at all is exponent zero -/
def readExponent? : List Char → Option Int
  | [] => some 0
  | c :: s =>
    if c = 'e' ∨ c = 'E' then
      match s with
      | '-' :: r => (value? 10 r).map fun n => -(n : Int)
      | '+' :: r => (value? 10 r).map fun n => (n : Int)
      | r => (value? 10 r).map fun n => (n : Int)
    else none

/-- digits, point and exponent -/
def readUnsigned? (negative : Bool) (s : List Char) : Option Literal :=
  let whole := s.takeWhile Char.isDigit
  let afterWhole := s.dropWhile Char.isDigit
  let (fraction, rest) := match afterWhole with
    | '.' :: r => (r.takeWhile Char.isDigit, r.dropWhile Char.isDigit)
    | r => ([], r)
  if whole.isEmpty ∧ fraction.isEmpty then none
  else (readExponent? rest).map fun e =>
    ⟨negative, digitsValue (whole ++ fraction), e - fraction.length⟩

/-- a finite decimal with an optional sign -/
def Literal.read? : List Char → Option Literal
  | '-' :: s => readUnsigned? true s
  | '+' :: s => readUnsigned? false s
  | s => readUnsigned? false s

/-- the names of the values that no digits spell -/
def readNamed? (s : List Char) : Option Float :=
  let name := String.ofList (Text.lowerAscii s)
  if name = "inf" ∨ name = "infinity" then some (1.0 / 0.0)
  else if name = "nan" then some (0.0 / 0.0)
  else none

/-- a float from text -/
def readFloat? (s : List Char) : Option Float :=
  match Literal.read? s with
  | some l => some l.toFloat
  | none =>
    match s with
    | '-' :: r => (readNamed? r).map fun x => -x
    | '+' :: r => readNamed? r
    | r => readNamed? r

end LoadGen.Decimal
