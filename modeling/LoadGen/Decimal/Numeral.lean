/-
Machine words, and natural numbers as text: digits in a base, and the reading of an unsigned word, which takes an optional
`+`, at least one digit, and no more than the word holds.
-/
namespace LoadGen

/-- the largest 128-bit word, where products of a count and a time unit stop -/
def doubleWordMax : Nat := 340282366920938463463374607431768211455

namespace Decimal

/-- the largest 64-bit word -/
def wordMax : Nat := 18446744073709551615

/-- the value of a digit in a base of up to sixteen -/
def digitOf? (base : Nat) (c : Char) : Option Nat :=
  let d :=
    if '0' ≤ c ∧ c ≤ '9' then some (c.toNat - 48)
    else if 'a' ≤ c ∧ c ≤ 'f' then some (c.toNat - 87)
    else if 'A' ≤ c ∧ c ≤ 'F' then some (c.toNat - 55)
    else none
  d.filter (· < base)

/-- the value of a run of digits, continuing from `acc`; no value if a character is no digit -/
def valueFrom? (base acc : Nat) : List Char → Option Nat
  | [] => some acc
  | c :: s =>
    match digitOf? base c with
    | some d => valueFrom? base (acc * base + d) s
    | none => none

/-- the value of at least one digit -/
def value? (base : Nat) : List Char → Option Nat
  | [] => none
  | s => valueFrom? base 0 s

/-- an unsigned integer of at most `most`, with an optional plus sign -/
def readWord? (base most : Nat) (s : List Char) : Option Nat :=
  let digits := match s with
    | '+' :: r => r
    | r => r
  (value? base digits).filter (· ≤ most)

/-- the value of decimal digits -/
def digitsValue (s : List Char) : Nat :=
  s.foldl (fun n c => n * 10 + (c.toNat - 48)) 0

/-- a natural number in decimal -/
def ofNat (n : Nat) : List Char :=
  Nat.toDigits 10 n

end Decimal

end LoadGen
