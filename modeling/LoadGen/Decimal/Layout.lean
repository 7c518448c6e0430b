/-
Floats as text. A layout says where positional writing ends and whether a whole number keeps `.0`; the digits are then
the shortest that read back. With a fixed number of places the exact value is rounded, an exact half to the even
neighbour, and the sign stays even where every digit is zero.
-/
import LoadGen.Decimal.Numeral
import LoadGen.Decimal.Shortest

namespace LoadGen.Decimal

/-- how the digits of a float are laid out -/
structure Layout where
  /-- decimal exponents of the leading digit from which and below which the number is written positionally; elsewhere it
  is written with an exponent; `none` for always positional -/
  positional : Option (Int × Int)
  /-- a whole number is written with `.0` -/
  pointZero : Bool
  nan : String
  infinity : String

/-- the bare layout: positional throughout, whole numbers without a point -/
def Layout.bare : Layout := ⟨none, false, "NaN", "inf"⟩

/-- the layout of numbers in documents: an exponent from `1e16` up and below `1e-5` -/
def Layout.document : Layout := ⟨some (-5, 16), true, ".nan", ".inf"⟩

/-- positional text of `digits * 10 ^ exponent` -/
def positionalText (pointZero : Bool) (d : Scaled) : List Char :=
  let ds := ofNat d.digits
  let whole := if pointZero then ['.', '0'] else []
  if 0 ≤ d.exponent then
    (if d.digits = 0 then ds else ds ++ List.replicate d.exponent.toNat '0') ++ whole
  else
    let places := (-d.exponent).toNat
    let padded := List.replicate (places + 1 - ds.length) '0' ++ ds
    let cut := padded.length - places
    padded.take cut ++ '.' :: padded.drop cut

/-- text with an exponent: one digit, a point if more follow, the exponent of the leading digit -/
def exponentText (d : Scaled) (lead : Int) : List Char :=
  let ds := ofNat d.digits
  let mantissa := match ds with
    | [c] => [c]
    | c :: r => c :: '.' :: r
    | [] => []
  mantissa ++ 'e' :: (if lead < 0 then ['-'] else []) ++ ofNat lead.natAbs

/-- a shortest decimal under a layout -/
def Layout.digits (l : Layout) (d : Scaled) : List Char :=
  let lead := (ofNat d.digits).length + d.exponent - 1
  match l.positional with
  | none => positionalText l.pointZero d
  | some (least, below) =>
    if d.digits = 0 ∨ (least ≤ lead ∧ lead < below) then positionalText l.pointZero d else exponentText d lead

/-- a float under a layout -/
def Layout.text (l : Layout) (x : Float) : String :=
  match kindOf x with
  | .nan => l.nan
  | .infinite negative => (if negative then "-" else "") ++ l.infinity
  | .finite negative m => (if negative then "-" else "") ++ String.ofList (l.digits m.shortest)

/-! ## A fixed number of places -/

/-- `n` units of `10 ^ -places` -/
def unitsText (places n : Nat) : List Char :=
  let ds := ofNat n
  let padded := List.replicate (places + 1 - ds.length) '0' ++ ds
  let cut := padded.length - places
  if places = 0 then padded else padded.take cut ++ '.' :: padded.drop cut

/-- a float with `places` decimal places -/
def fixed (places : Nat) (x : Float) : String :=
  match kindOf x with
  | .nan => "NaN"
  | .infinite negative => if negative then "-inf" else "inf"
  | .finite negative m =>
    (if negative then "-" else "") ++
      String.ofList (unitsText places (roundHalfEven (m.num * Nat.pow 10 places) m.den))

end LoadGen.Decimal
