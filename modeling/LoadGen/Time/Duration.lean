/-
Spans of time: whole nanoseconds up to just below 2^64 seconds. Addition stops at the longest span and subtraction at
zero, so no operation leaves the type. As floating seconds a span is rounded at each step; going back rounds to the nearest
nanosecond, an exact half to the even one, and has no result for a negative number, a number that is none, or one beyond
the longest span.
-/
import LoadGen.Decimal.Magnitude

namespace LoadGen

/-- nanoseconds in a second -/
def nanosPerSec : Nat := 1000000000

/-- the longest span, 2^64 - 1 s and 999 999 999 ns -/
def maxNanos : Nat := 18446744073709551615999999999

/-- a span of time -/
structure Duration where
  nanos : Nat
  le_max : nanos ≤ maxNanos := by decide
  deriving DecidableEq

namespace Duration

/-- `n` nanoseconds, the longest span if that is too many -/
def ofNanos (n : Nat) : Duration :=
  ⟨min n maxNanos, Nat.min_le_right _ _⟩

/-- `n` nanoseconds, if there is such a span -/
def ofNanos? (n : Nat) : Option Duration :=
  if h : n ≤ maxNanos then some ⟨n, h⟩ else none

/-- `n` seconds -/
def ofSecs (n : Nat) : Duration :=
  ofNanos (n * nanosPerSec)

/-- `n` milliseconds -/
def ofMillis (n : Nat) : Duration :=
  ofNanos (n * 1000000)

def zero : Duration := ⟨0, by decide⟩

instance : Inhabited Duration := ⟨zero⟩

/-- whole seconds -/
def secs (d : Duration) : Nat :=
  d.nanos / nanosPerSec

/-- nanoseconds beyond the whole seconds -/
def subsecNanos (d : Duration) : Nat :=
  d.nanos % nanosPerSec

def isZero (d : Duration) : Bool :=
  d.nanos = 0

/-- sum, at most the longest span -/
def add (a b : Duration) : Duration :=
  ofNanos (a.nanos + b.nanos)

/-- difference, at least zero -/
def sub (a b : Duration) : Duration :=
  ⟨a.nanos - b.nanos, Nat.le_trans (Nat.sub_le _ _) a.le_max⟩

instance : Add Duration := ⟨add⟩
instance : Sub Duration := ⟨sub⟩
instance : LE Duration := ⟨fun a b => a.nanos ≤ b.nanos⟩
instance : LT Duration := ⟨fun a b => a.nanos < b.nanos⟩
instance (a b : Duration) : Decidable (a ≤ b) := inferInstanceAs (Decidable (a.nanos ≤ b.nanos))
instance (a b : Duration) : Decidable (a < b) := inferInstanceAs (Decidable (a.nanos < b.nanos))

/-- the shorter of two spans -/
def least (a b : Duration) : Duration :=
  if a ≤ b then a else b

/-- the longer of two spans -/
def greatest (a b : Duration) : Duration :=
  if a ≤ b then b else a

/-- sum of many spans -/
def sum (ds : List Duration) : Duration :=
  ds.foldl (· + ·) zero

/-! ## Spans as numbers of nanoseconds -/

theorem eq_of_nanos {a b : Duration} (h : a.nanos = b.nanos) : a = b := by
  cases a; cases b; cases h; rfl

theorem le_iff {a b : Duration} : a ≤ b ↔ a.nanos ≤ b.nanos := Iff.rfl

theorem lt_iff {a b : Duration} : a < b ↔ a.nanos < b.nanos := Iff.rfl

@[simp] theorem nanos_add (a b : Duration) : (a + b).nanos = min (a.nanos + b.nanos) maxNanos := rfl

theorem nanos_sub (a b : Duration) : (a - b).nanos = a.nanos - b.nanos := rfl

@[simp] theorem nanos_least (a b : Duration) : (a.least b).nanos = min a.nanos b.nanos := by
  simp only [least, le_iff]; split <;> omega

@[simp] theorem nanos_greatest (a b : Duration) : (a.greatest b).nanos = max a.nanos b.nanos := by
  simp only [greatest, le_iff]; split <;> omega

theorem add_zero (a : Duration) : a + zero = a :=
  eq_of_nanos (Nat.min_eq_left a.le_max)

theorem le_add_right (a b : Duration) : a ≤ a + b := by
  have := a.le_max
  rw [le_iff, nanos_add]
  omega

theorem add_sub_of_le {a b : Duration} (h : a ≤ b) : a + (b - a) = b := by
  apply eq_of_nanos
  have := b.le_max
  rw [le_iff] at h
  rw [nanos_add, nanos_sub]
  omega

theorem add_le_add {a b c d : Duration} (hab : a ≤ b) (hcd : c ≤ d) : a + c ≤ b + d := by
  rw [le_iff] at hab hcd
  rw [le_iff, nanos_add, nanos_add]
  omega

/-! ## The shortest of some spans -/

theorem foldl_least_le (d : Duration) (ds : List Duration) : ds.foldl least d ≤ d := by
  induction ds generalizing d with
  | nil => exact Nat.le_refl _
  | cons e ds ih =>
    have := ih (d.least e)
    simp only [le_iff, nanos_least, List.foldl_cons] at this ⊢
    omega

theorem foldl_least_le_of_mem {e : Duration} {ds : List Duration} (h : e ∈ ds) (d : Duration) :
    ds.foldl least d ≤ e := by
  induction ds generalizing d with
  | nil => cases h
  | cons f ds ih =>
    rcases List.mem_cons.1 h with rfl | h
    · have := foldl_least_le (d.least e) ds
      simp only [le_iff, nanos_least, List.foldl_cons] at this ⊢
      omega
    · exact ih h (d.least f)

theorem foldl_least_least (c d : Duration) (ds : List Duration) :
    ds.foldl least (c.least d) = c.least (ds.foldl least d) := by
  induction ds generalizing d with
  | nil => rfl
  | cons e ds ih =>
    have hassoc : (c.least d).least e = c.least (d.least e) := by
      apply eq_of_nanos
      simp only [nanos_least]
      omega
    rw [List.foldl_cons, hassoc, ih]
    rfl

theorem foldl_least_eq_or_mem (d : Duration) (ds : List Duration) : ds.foldl least d = d ∨ ds.foldl least d ∈ ds := by
  induction ds generalizing d with
  | nil => exact .inl rfl
  | cons e ds ih =>
    rcases ih (d.least e) with h | h
    · rw [List.foldl_cons, h, least]
      split
      · exact .inl rfl
      · exact .inr List.mem_cons_self
    · exact .inr (List.mem_cons_of_mem e h)

/-! ## Floating seconds -/

/-- the span in seconds: whole seconds plus nanoseconds over 10^9, each step rounded -/
def toSeconds (d : Duration) : Float :=
  Float.ofNat d.secs + Float.ofNat d.subsecNanos / 1e9

/-- the span nearest to a number of seconds -/
def ofSeconds? (x : Float) : Option Duration :=
  match Decimal.kindOf x with
  | .finite negative m =>
    if negative ∧ m.mantissa ≠ 0 then none
    else ofNanos? (Decimal.roundHalfEven (m.num * nanosPerSec) m.den)
  | _ => none

end Duration

end LoadGen
