/-
Internet addresses in URLs. Version 4: up to four numbers, decimal, octal or hexadecimal, the last of which fills what
is left. Version 6: eight groups of hexadecimal digits, one run of zero groups left out, the last two groups also as a
dotted version 4 address.
-/
import LoadGen.Decimal.Numeral
import LoadGen.Text.Cut

namespace LoadGen.Web

/-- one number of a version 4 address: its value, or nothing if it is none -/
def addressNumber? (s : List Char) : Option Nat :=
  match s with
  | [] => none
  | '0' :: 'x' :: r | '0' :: 'X' :: r => if r.isEmpty then some 0 else Decimal.value? 16 r
  | '0' :: c :: r => Decimal.value? 8 (c :: r)
  | r => Decimal.value? 10 r

/-- the labels of a host, without the empty one after a final point -/
def labels (host : List Char) : List (List Char) :=
  let parts := Text.splitAll '.' host
  if parts.getLast? = some [] then parts.dropLast else parts

/-- a host that can only be a version 4 address: its last label is a number -/
def endsInNumber (host : List Char) : Bool :=
  match (labels host).getLast? with
  | none => false
  | some last => (!last.isEmpty ∧ last.all Char.isDigit) ∨ (addressNumber? last).isSome

/-- the address that some numbers spell -/
def joinNumbers? (ns : List Nat) : Option Nat :=
  match ns.reverse with
  | [] => none
  | last :: rest =>
    let leading := rest.reverse
    if Nat.pow 2 (8 * (4 - leading.length)) ≤ last ∨ leading.any (255 < ·) then none
    else some (leading.zipIdx.foldl (fun n p => n + p.1 * Nat.pow 2 (8 * (3 - p.2))) last)

/-- a version 4 address -/
def readV4? (host : List Char) : Option Nat :=
  let parts := labels host
  if 4 < parts.length then none
  else (parts.mapM addressNumber?).bind joinNumbers?

/-- a version 4 address with points -/
def textV4 (n : Nat) : String :=
  ".".intercalate ([n / Nat.pow 2 24 % 256, n / Nat.pow 2 16 % 256, n / Nat.pow 2 8 % 256, n % 256].map toString)

/-- up to four hexadecimal digits, with the rest -/
def hexGroup (s : List Char) : List Char × List Char :=
  let digits := (s.take 4).takeWhile fun c => (Decimal.digitOf? 16 c).isSome
  (digits, s.drop digits.length)

/-- four decimal numbers below 256 with points between, as two groups -/
def dottedGroups? (s : List Char) : Option (List Nat) :=
  let parts := Text.splitAll '.' s
  let number? := fun p : List Char =>
    if p.isEmpty ∨ !p.all Char.isDigit ∨ (p.head? = some '0' ∧ 1 < p.length) ∨ 3 < p.length then none
    else (Decimal.value? 10 p).filter (· < 256)
  match parts.mapM number? with
  | some [a, b, c, d] => some [a * 256 + b, c * 256 + d]
  | _ => none

/-- the groups from here to the end, `room` of them at most, and where among them zeros were left out -/
def groupsFrom? : Nat → Nat → List Char → Option (List Nat × Option Nat)
  | 0, _, _ => none
  | _ + 1, _, [] => some ([], none)
  | fuel + 1, room, s =>
    if room = 0 then none
    else match s with
    | ':' :: ':' :: _ => none
    | _ =>
      let (digits, rest) := hexGroup s
      match rest with
      | '.' :: _ => if 2 ≤ room ∧ !digits.isEmpty then (dottedGroups? s).map (·, none) else none
      | [] => (Decimal.value? 16 digits).map fun n => ([n], none)
      | [':'] => none
      | ':' :: ':' :: r => do
        let n ← Decimal.value? 16 digits
        let (gs, gap) ← groupsFrom? fuel (room - 1) r
        if gap.isSome then none else some (n :: gs, some 1)
      | ':' :: r => do
        let n ← Decimal.value? 16 digits
        let (gs, gap) ← groupsFrom? fuel (room - 1) r
        some (n :: gs, gap.map (· + 1))
      | _ => none

/-- eight groups from those that are written -/
def spread? (gs : List Nat) : Option Nat → Option (List Nat)
  | none => if gs.length = 8 then some gs else none
  | some gap =>
    if gs.length < 8 then some (gs.take gap ++ List.replicate (8 - gs.length) 0 ++ gs.drop gap) else none

/-- a version 6 address, without its brackets -/
def readV6? (s : List Char) : Option (List Nat) :=
  match s with
  | ':' :: ':' :: r => do
    let (gs, gap) ← groupsFrom? (r.length + 1) 8 r
    if gap.isSome then none else spread? gs (some 0)
  | [] => none
  | ':' :: _ => none
  | r => do
    let (gs, gap) ← groupsFrom? (r.length + 1) 8 r
    spread? gs gap

/-- the length of the run of zeros that some groups start with -/
def zeroRun (gs : List Nat) : Nat :=
  (gs.takeWhile (· = 0)).length

/-- the first longest run of at least two zero groups, from place `i` on: its place and length -/
def longestRun : Nat → List Nat → Option (Nat × Nat)
  | _, [] => none
  | i, g :: gs =>
    let here := zeroRun (g :: gs)
    match longestRun (i + 1) gs with
    | some (j, n) => if n ≤ here then some (i, here) else some (j, n)
    | none => if 2 ≤ here then some (i, here) else none

def hexText (n : Nat) : String :=
  String.ofList (Nat.toDigits 16 n)

/-- a version 6 address, its longest run of zeros left out -/
def bareV6 (gs : List Nat) : String :=
  let joined := fun part : List Nat => ":".intercalate (part.map hexText)
  match longestRun 0 gs with
  | none => joined gs
  | some (i, n) => joined (gs.take i) ++ "::" ++ joined (gs.drop (i + n))

/-- a version 6 address in brackets -/
def textV6 (gs : List Nat) : String :=
  "[" ++ bareV6 gs ++ "]"

/-- the two groups of a version 4 address as that address -/
def dottedText (high low : Nat) : String :=
  textV4 (high * 65536 + low)

/-- a version 6 address, one that stands for a version 4 address with points -/
def peerV6 (gs : List Nat) : String :=
  match gs with
  | [0, 0, 0, 0, 0, 0xFFFF, high, low] => "::ffff:" ++ dottedText high low
  | gs => bareV6 gs

/-- the address in an address with a port -/
def peerAddress? (text : String) : Option String :=
  match (Text.afterStart? ['['] text.toList).bind (Text.splitOnce ']') with
  | some (address, _) => (readV6? address).map peerV6
  | none => do
    let (address, _) ← Text.splitOnce ':' text.toList
    match ← dottedGroups? address with
    | [high, low] => some (dottedText high low)
    | _ => none

end LoadGen.Web
