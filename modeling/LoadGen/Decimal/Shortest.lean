/-
The shortest decimal of a float: the fewest digits that read back to the same float, and among those the digits nearest
to it. `Magnitude.holds` is the specification, the interval of reals that round to the float; `Magnitude.shortest`
searches the grids of one, two, three .. seventeen digits for a point of that interval, from coarse to fine.
-/
import LoadGen.Decimal.Magnitude

namespace LoadGen.Decimal

/-- the decimal `digits * 10 ^ exponent` -/
structure Scaled where
  digits : Nat
  exponent : Int
  deriving DecidableEq, Repr

/-- comparison of `a * 10 ^ i` with `b * 2 ^ j` -/
def compareScaled (a : Nat) (i : Int) (b : Nat) (j : Int) : Ordering :=
  compare (a * Nat.pow 10 i.toNat * Nat.pow 2 (-j).toNat) (b * Nat.pow 2 j.toNat * Nat.pow 10 (-i).toNat)

namespace Magnitude

/-- the decimal lies among the reals that round to this magnitude: between the midpoints to its neighbours, which
themselves belong to it when its mantissa is even -/
def holds (m : Magnitude) (d : Scaled) : Bool :=
  let low := if m.tightBelow then 4 * m.mantissa - 1 else 4 * m.mantissa - 2
  let ends := m.mantissa % 2 = 0
  let fromLow := compareScaled d.digits d.exponent low (m.exponent - 2)
  let fromHigh := compareScaled d.digits d.exponent (4 * m.mantissa + 2) (m.exponent - 2)
  (fromLow = .gt ∨ (fromLow = .eq ∧ ends)) ∧ (fromHigh = .lt ∨ (fromHigh = .eq ∧ ends))

/-- the least `k` with the magnitude below `10 ^ k`, found from its binary length -/
def scale (m : Magnitude) : Int :=
  let guess := (((Nat.log2 m.mantissa : Int) + m.exponent) * 30103).fdiv 100000
  let reaches := fun k : Int => compareScaled 1 k m.mantissa m.exponent = .gt
  if reaches (guess - 1) then guess - 1
  else if reaches guess then guess
  else if reaches (guess + 1) then guess + 1
  else guess + 2

/-- the best decimal on the grid `10 ^ g`: of the two neighbours of the magnitude the one that it holds, of two the
nearer, the upper one on a tie -/
def onGrid? (m : Magnitude) (g : Int) : Option Scaled :=
  let below := m.num * Nat.pow 10 (-g).toNat / (m.den * Nat.pow 10 g.toNat)
  let lower : Scaled := ⟨below, g⟩
  let upper : Scaled := ⟨below + 1, g⟩
  match m.holds lower, m.holds upper with
  | true, true =>
    if compareScaled (2 * below + 1) g m.mantissa (m.exponent + 1) = .gt then some lower else some upper
  | true, false => some lower
  | false, true => some upper
  | false, false => none

/-- the exact decimal value -/
def exact (m : Magnitude) : Scaled :=
  ⟨m.num * Nat.pow 5 (-m.exponent).toNat, -(-m.exponent).toNat⟩

end Magnitude

/-- trailing zeros moved into the exponent, at most `fuel` of them -/
def Scaled.strip : Nat → Scaled → Scaled
  | 0, d => d
  | fuel + 1, d =>
    if d.digits ≠ 0 ∧ d.digits % 10 = 0 then Scaled.strip fuel ⟨d.digits / 10, d.exponent + 1⟩ else d

/-- the shortest decimal that reads back as this magnitude -/
def Magnitude.shortest (m : Magnitude) : Scaled :=
  if m.mantissa = 0 then ⟨0, 0⟩
  else
    let k := m.scale
    let found := (List.range 17).findSome? fun n : Nat => m.onGrid? (k - (n + 1))
    (found.getD m.exact).strip 1100

end LoadGen.Decimal
