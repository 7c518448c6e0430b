/-
Spans of time in words. A phrase is a run of items, each a number and a unit (`1h 30m`, `1.5s`, `3 days 4 hours`), and
means their sum. Digits may be spaced out; a fraction must come to a whole number of nanoseconds, or of seconds from
hours up. Writing uses years of 365.25 days, months of 30.44 days, days, `h`, `m`, `s`, `ms`, `us` and `ns`, largest
first, and leaves out what is zero.
-/
import LoadGen.Time.Duration
import LoadGen.Decimal.Numeral
import LoadGen.Text.Cut

namespace LoadGen.Phrase

/-- a unit of time: a whole item of it is `perItem` of the ticks that it counts in -/
inductive TimeUnit where
  | nanosecond | microsecond | millisecond | second | minute | hour | day | week | month | year
  deriving DecidableEq, Repr

/-- the spellings of each unit -/
def unit? (name : String) : Option TimeUnit :=
  if name ∈ ["nanos", "nsec", "ns"] then some .nanosecond
  else if name ∈ ["usec", "us", "µs"] then some .microsecond
  else if name ∈ ["millis", "msec", "ms"] then some .millisecond
  else if name ∈ ["seconds", "second", "secs", "sec", "s"] then some .second
  else if name ∈ ["minutes", "minute", "mins", "min", "m"] then some .minute
  else if name ∈ ["hours", "hour", "hrs", "hr", "h"] then some .hour
  else if name ∈ ["days", "day", "d"] then some .day
  else if name ∈ ["weeks", "week", "wks", "wk", "w"] then some .week
  else if name ∈ ["months", "month", "M"] then some .month
  else if name ∈ ["years", "year", "yrs", "yr", "y"] then some .year
  else none

/-- nanoseconds in one tick of the unit: units below the minute are counted in nanoseconds, the others in seconds -/
def TimeUnit.tick : TimeUnit → Nat
  | .nanosecond | .microsecond | .millisecond => 1
  | _ => nanosPerSec

/-- ticks in one item of the unit -/
def TimeUnit.perItem : TimeUnit → Nat
  | .nanosecond => 1
  | .microsecond => 1000
  | .millisecond => 1000000
  | .second => 1
  | .minute => 60
  | .hour => 3600
  | .day => 86400
  | .week => 604800
  | .month => 2630016
  | .year => 31557600

/-- nanoseconds of `n` whole items; the count of ticks must fit a word -/
def TimeUnit.whole? (u : TimeUnit) (n : Nat) : Option Nat :=
  if n * u.perItem ≤ Decimal.wordMax then some (n * u.perItem * u.tick) else none

/-- ticks that a fraction of one item is counted in: seconds from hours up, nanoseconds below; there is no fraction of a
nanosecond -/
def TimeUnit.fractionTicks? : TimeUnit → Option (Nat × Nat)
  | .nanosecond => none
  | .microsecond => some (1000, 1)
  | .millisecond => some (1000000, 1)
  | .second => some (1000000000, 1)
  | .minute => some (60000000000, 1)
  | u => some (u.perItem, nanosPerSec)

/-- nanoseconds of `numerator / 10^places` of an item; it must come to a whole number of ticks -/
def TimeUnit.fraction? (u : TimeUnit) (numerator places : Nat) : Option Nat := do
  let (perItem, tick) ← u.fractionTicks?
  let ticks := numerator * perItem
  if Decimal.wordMax < ticks ∨ ticks % Nat.pow 10 places ≠ 0 then none
  else some (ticks / Nat.pow 10 places * tick)

/-- ASCII letters and the micro sign -/
def isUnitChar (c : Char) : Bool :=
  ('a' ≤ c ∧ c ≤ 'z') ∨ ('A' ≤ c ∧ c ≤ 'Z') ∨ c = 'µ'

/-- digits and the blanks between them -/
def isNumberChar (c : Char) : Bool :=
  c.isDigit ∨ Text.isBlank c

/-- the number at the start of a text: whole part, and numerator and places of a fraction -/
structure Number where
  whole : Nat
  fraction : Option (Nat × Nat)
  deriving DecidableEq, Repr

/-- the whole part, its digits spaced out as they may be; it must fit a word -/
def wholePart? (s : List Char) : Option Nat :=
  (Decimal.value? 10 (s.filter Char.isDigit)).filter (· ≤ Decimal.wordMax)

/-- the fraction after a point: one to nineteen digits -/
def fractionPart? (s : List Char) : Option (Nat × Nat) :=
  let ds := s.filter Char.isDigit
  if ds.isEmpty ∨ 19 < ds.length then none else some (Decimal.digitsValue ds, ds.length)

/-- the number that a text starts with, and the rest -/
def readNumber? (s : List Char) : Option (Number × List Char) := do
  let whole ← wholePart? (s.takeWhile isNumberChar)
  match s.dropWhile isNumberChar with
  | '.' :: r =>
    let fraction ← fractionPart? (r.takeWhile isNumberChar)
    some (⟨whole, some fraction⟩, r.dropWhile isNumberChar)
  | r => some (⟨whole, none⟩, r)

/-- nanoseconds of a number of items of a unit -/
def itemNanos? (n : Number) (u : TimeUnit) : Option Nat := do
  let whole ← u.whole? n.whole
  match n.fraction with
  | none => some whole
  | some (numerator, places) => (u.fraction? numerator places).map (whole + ·)

/-- one item, which starts with a digit and ends before a blank, a digit or the end -/
def readItem? (s : List Char) : Option (Nat × List Char) := do
  let first ← s.head?
  if !first.isDigit then none
  else
    let (n, r) ← readNumber? s
    let u ← unit? (String.ofList (r.takeWhile isUnitChar))
    let nanos ← itemNanos? n u
    match r.dropWhile isUnitChar with
    | [] => some (nanos, [])
    | c :: rest => if isNumberChar c then some (nanos, c :: rest) else none

/-- the remaining items, added to `acc`; every item takes at least one character -/
def readItems? : Nat → Nat → List Char → Option Nat
  | 0, _, _ => none
  | fuel + 1, acc, s =>
    match Text.trimLeft s with
    | [] => some acc
    | s' => do
      let (nanos, rest) ← readItem? s'
      if acc + nanos ≤ maxNanos then readItems? fuel (acc + nanos) rest else none

/-- the span that a phrase means -/
def read? (text : String) : Option Duration :=
  let s := text.toList
  if (Text.trimLeft s).isEmpty then none
  else (readItems? (s.length + 1) 0 s).bind Duration.ofNanos?

/-- an item of a written phrase, unless it is zero -/
def item (n : Nat) (unit : String) : List String :=
  if n = 0 then [] else [toString n ++ unit]

/-- an item of a spelled-out unit, with its plural -/
def pluralItem (n : Nat) (unit : String) : List String :=
  item n (if n = 1 then unit else unit ++ "s")

/-- the items of a span, largest first -/
def items (d : Duration) : List String :=
  let yearRest := d.secs % 31557600
  let monthRest := yearRest % 2630016
  let dayRest := monthRest % 86400
  pluralItem (d.secs / 31557600) "year" ++ pluralItem (yearRest / 2630016) "month" ++
    pluralItem (monthRest / 86400) "day" ++ item (dayRest / 3600) "h" ++ item (dayRest % 3600 / 60) "m" ++
    item (dayRest % 60) "s" ++ item (d.subsecNanos / 1000000) "ms" ++ item (d.subsecNanos / 1000 % 1000) "us" ++
    item (d.subsecNanos % 1000) "ns"

/-- a span in words -/
def write (d : Duration) : String :=
  if d.isZero then "0s" else " ".intercalate (items d)

end LoadGen.Phrase
