/-
The values of numbers in JSON documents. A whole number that fits a 64-bit word, with or without a minus, is exact. Any
other number is a float computed in floats: as many leading digits as a word holds, times or over a power of ten, so its
last bits may differ from the nearest float. A number beyond the floats has no value.
-/
import LoadGen.Decimal.Literal
import LoadGen.Decimal.Numeral
import LoadGen.Document.Node

namespace LoadGen.Document

/-- the value of a number -/
inductive Number where
  | nat (n : Nat)
  /-- `-n`, not zero -/
  | negative (n : Nat)
  | real (x : Float)

/-- leading digits as a word, and the power of ten that they are scaled by -/
structure Scaling where
  word : Nat
  power : Int
  deriving DecidableEq, Repr

namespace Numeral

/-- one more digit of the whole part: once a word cannot take a digit, it takes no more -/
def takeWhole (s : Scaling × Bool) (c : Char) : Scaling × Bool :=
  let word := s.1.word * 10 + (c.toNat - 48)
  if s.2 || Decimal.wordMax < word then (⟨s.1.word, s.1.power + 1⟩, true) else (⟨word, s.1.power⟩, false)

/-- one more digit of the fraction -/
def takeFraction (s : Scaling × Bool) (c : Char) : Scaling × Bool :=
  let word := s.1.word * 10 + (c.toNat - 48)
  if s.2 || Decimal.wordMax < word then (s.1, true) else (⟨word, s.1.power - 1⟩, false)

/-- the digits without the exponent -/
def scaling (n : Numeral) : Scaling :=
  let whole := (n.whole.foldl takeWhole (⟨0, 0⟩, false)).1
  ((n.fraction.getD []).foldl takeFraction (whole, false)).1

/-- the largest 32-bit signed word -/
def smallMax : Int := 2147483647

/-- the exponent after `e`; it may be too large to count -/
def exponentValue? (n : Numeral) : Option Int :=
  match n.exponent with
  | none => some 0
  | some (negative, ds) =>
    let e : Int := Decimal.digitsValue ds
    if smallMax < e then none else some (if negative then -e else e)

/-- `1e0` to `1e308` -/
def powerOfTen (n : Nat) : Float :=
  Decimal.Literal.toFloat ⟨false, 1, n⟩

/-- a float over a power of ten, in steps of 308 places -/
def shrink (x : Float) : Nat → Nat → Float
  | 0, _ => x
  | fuel + 1, places =>
    if places ≤ 308 then x / powerOfTen places
    else if x == 0.0 then x
    else shrink (x / 1e308) fuel (places - 308)

/-- a float times a power of ten, unless it grows beyond the floats -/
def scale? (s : Scaling) : Option Float :=
  let x := Float.ofNat s.word
  if 0 ≤ s.power then
    if 308 < s.power then if s.word = 0 then some x else none
    else (some (x * powerOfTen s.power.toNat)).filter fun y => y.isFinite
  else some (shrink x (s.power.natAbs / 308 + 1) s.power.natAbs)

/-- the value as a float -/
def real? (n : Numeral) : Option Float :=
  let s := n.scaling
  let size := match n.exponentValue? with
    | some e => scale? ⟨s.word, s.power + e⟩
    | none =>
      let shrinks : Bool := match n.exponent with
        | some (negative, _) => negative
        | none => false
      if shrinks || s.word = 0 then some 0.0 else none
  size.map fun x => if n.negative then -x else x

/-- a number's value -/
def value? (n : Numeral) : Option Number :=
  match n.fraction, n.exponent with
  | none, none =>
    let size := Decimal.digitsValue n.whole
    if n.negative then
      if 0 < size && size ≤ 9223372036854775808 then some (.negative size) else n.real?.map .real
    else if size ≤ Decimal.wordMax then some (.nat size)
    else n.real?.map .real
  | _, _ => n.real?.map .real

end Numeral

end LoadGen.Document
