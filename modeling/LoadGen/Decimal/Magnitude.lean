/-
What the bits of a float say: not a number, an infinity, or a sign with the exact magnitude `mantissa * 2 ^ exponent`.
All decimal text of floats is computed from this magnitude in exact integer arithmetic.
-/
namespace LoadGen.Decimal

/-- a finite magnitude, `mantissa * 2 ^ exponent` -/
structure Magnitude where
  mantissa : Nat
  exponent : Int
  /-- the float below is half as far away as the one above -/
  tightBelow : Bool
  deriving DecidableEq, Repr

/-- the three kinds of float -/
inductive FloatKind where
  | nan
  | infinite (negative : Bool)
  | finite (negative : Bool) (size : Magnitude)
  deriving DecidableEq, Repr

/-- the kind that a bit pattern of 64 bits stands for -/
def kindOfBits (b : Nat) : FloatKind :=
  let negative : Bool := b / Nat.pow 2 63 % 2 = 1
  let e : Nat := b / Nat.pow 2 52 % Nat.pow 2 11
  let f : Nat := b % Nat.pow 2 52
  if e = 2047 then
    if f = 0 then .infinite negative else .nan
  else if e = 0 then .finite negative ⟨f, -1074, false⟩
  else .finite negative ⟨Nat.pow 2 52 + f, (e : Int) - 1075, f = 0 ∧ 1 < e⟩

/-- the kind of a float -/
def kindOf (x : Float) : FloatKind :=
  kindOfBits x.toBits.toNat

/-- numerator of the magnitude as a fraction over `Magnitude.den` -/
def Magnitude.num (m : Magnitude) : Nat :=
  m.mantissa * Nat.pow 2 m.exponent.toNat

/-- denominator of the magnitude, a power of two -/
def Magnitude.den (m : Magnitude) : Nat :=
  Nat.pow 2 (-m.exponent).toNat

/-- `num / den` to the nearest integer, an exact half to the even neighbour -/
def roundHalfEven (num den : Nat) : Nat :=
  let q := num / den
  let r := num % den
  if 2 * r < den then q
  else if den < 2 * r then q + 1
  else if q % 2 = 0 then q
  else q + 1

end LoadGen.Decimal
