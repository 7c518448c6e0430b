/-
Punycode, the spelling of a label with other than ASCII characters in ASCII alone: the ASCII characters, a hyphen, and
numbers that say which character to insert where. Only reading is needed, to tell a well-formed label from another.
-/
namespace LoadGen.Web.Punycode

/-- the value of a digit in base 36 -/
def digit? (c : Char) : Option Nat :=
  if 'a' ≤ c ∧ c ≤ 'z' then some (c.toNat - 97)
  else if 'A' ≤ c ∧ c ≤ 'Z' then some (c.toNat - 65)
  else if '0' ≤ c ∧ c ≤ '9' then some (c.toNat - 22)
  else none

/-- the least value of a digit at weight `k` that does not end its number -/
def threshold (k bias : Nat) : Nat :=
  if k ≤ bias then 1 else min 26 (k - bias)

/-- halves of a distance until it is small, with the weight they come to -/
def shrink : Nat → Nat → Nat → Nat × Nat
  | 0, delta, k => (delta, k)
  | fuel + 1, delta, k => if 455 < delta then shrink fuel (delta / 35) (k + 36) else (delta, k)

/-- the bias after a number -/
def adapt (delta points : Nat) (first : Bool) : Nat :=
  let d := if first then delta / 700 else delta / 2
  let (d, k) := shrink 64 (d + d / points) 0
  k + 36 * d / (d + 38)

/-- one number: `i` plus its digits, each with its weight, and the rest -/
def number? (bias : Nat) : List Char → Nat → Nat → Nat → Option (Nat × List Char)
  | [], _, _, _ => none
  | c :: rest, k, weight, i => do
    let d ← digit? c
    let i := i + d * weight
    if 4294967295 < i then none
    else
      let t := threshold k bias
      if d < t then some (i, rest) else number? bias rest (k + 36) (weight * (36 - t)) i

/-- the characters that the numbers insert into `out`; each number takes at least one character -/
def insertions? : Nat → Nat → Nat → Nat → List Char → List Char → Option (List Char)
  | 0, _, _, _, _, _ => none
  | _ + 1, _, _, _, out, [] => some out
  | fuel + 1, bias, code, i, out, s => do
    let (j, rest) ← number? bias s 36 1 i
    let points := out.length + 1
    let code := code + j / points
    let place := j % points
    if code < 0x110000 ∧ ¬(0xD800 ≤ code ∧ code < 0xE000) then
      insertions? fuel (adapt (j - i) points (i = 0)) code (place + 1)
        (out.take place ++ Char.ofNat code :: out.drop place) rest
    else none

/-- the text before the last hyphen and the text after it -/
def divide (s : List Char) : List Char × List Char :=
  let tail := (s.reverse.takeWhile (· ≠ '-')).reverse
  (s.take (s.length - tail.length - 1), tail)

/-- the label that a text spells -/
def read? (s : List Char) : Option (List Char) :=
  let (basic, numbers) := divide s
  if basic.any fun c => 128 ≤ c.toNat then none
  else insertions? (numbers.length + 1) 72 128 0 basic numbers

end LoadGen.Web.Punycode
