/-
What a part of a document means on its own. In YAML a plain scalar may be a null, a truth value, a number or a text, by
its spelling; a tag may decide instead. An integer that fits no 64-bit word has no meaning up to 128 bits and is a
float beyond.
-/
import LoadGen.Decimal.Numeral
import LoadGen.Document.Number

namespace LoadGen.Document

/-- the meaning of a part of a document -/
inductive Datum where
  | null
  | bool (b : Bool)
  | number (n : Number)
  | text (s : String)
  | seq (items : List Datum)
  | map (entries : List (Datum × Datum))

namespace Plain

def isNull (s : String) : Bool :=
  s = "null" || s = "Null" || s = "NULL" || s = "~"

def bool? (s : String) : Option Bool :=
  if s = "true" || s = "True" || s = "TRUE" then some true
  else if s = "false" || s = "False" || s = "FALSE" then some false
  else none

/-- more digits after a leading zero: a text, although it looks like a number -/
def isZeroPadded (s : List Char) : Bool :=
  let digits := match s with
    | '+' :: r | '-' :: r => r
    | r => r
  1 < digits.length && starts0 digits && digits.all Char.isDigit
where
  starts0 (s : List Char) : Bool := s.head? = some '0'

/-- an unsigned integer: hexadecimal, octal, binary or decimal -/
def magnitude? (s : List Char) : Option Nat :=
  match s with
  | '0' :: 'x' :: r => Decimal.value? 16 r
  | '0' :: 'o' :: r => Decimal.value? 8 r
  | '0' :: 'b' :: r => Decimal.value? 2 r
  | r => if isZeroPadded r then none else Decimal.value? 10 r

/-- an integer with its sign, true for minus -/
def integer? (s : List Char) : Option (Bool × Nat) :=
  match s with
  | '-' :: r => (magnitude? r).map (true, ·)
  | '+' :: r => (magnitude? r).map (false, ·)
  | r => (magnitude? r).map (false, ·)

/-- a word as a field expects one -/
def word? (s : List Char) : Option Nat :=
  match integer? s with
  | some (false, n) => if n ≤ Decimal.wordMax then some n else none
  | _ => none

/-- a float: spelled in digits and not too large, or by name -/
def float? (s : List Char) : Option Float :=
  let text := String.ofList s
  let bare := match s with
    | '+' :: r => r
    | r => r
  let named := String.ofList bare
  if named = ".inf" || named = ".Inf" || named = ".INF" then some (1.0 / 0.0)
  else if text = "-.inf" || text = "-.Inf" || text = "-.INF" then some (-1.0 / 0.0)
  else if text = ".nan" || text = ".NaN" || text = ".NAN" then some (0.0 / 0.0)
  else (Decimal.Literal.read? s).map Decimal.Literal.toFloat |>.filter Float.isFinite

/-- an integer, unless it needs more than 64 bits -/
def number? (sign : Bool × Nat) : Option Number :=
  match sign with
  | (false, n) => if n ≤ Decimal.wordMax then some (.nat n) else none
  | (true, n) => if n = 0 then some (.nat 0) else if n ≤ 9223372036854775808 then some (.negative n) else none

/-- an integer of more than 128 bits -/
def isHuge (sign : Bool × Nat) : Bool :=
  match sign with
  | (false, n) => doubleWordMax < n
  | (true, n) => 170141183460469231731687303715884105728 < n

/-- a plain scalar that is no null, no truth value and no integer -/
def floatOrText (s : String) : Datum :=
  match if isZeroPadded s.toList then none else float? s.toList with
  | some x => .number (.real x)
  | none => .text s

/-- the meaning of a plain scalar -/
def meaning? (s : String) : Option Datum :=
  if s.isEmpty || isNull s then some .null
  else match bool? s with
    | some b => some (.bool b)
    | none => match integer? s.toList with
      | some i => if isHuge i then some (floatOrText s) else (number? i).map .number
      | none => some (floatOrText s)

end Plain

/-- the tags of the core types -/
def coreTag (name : String) : String :=
  "tag:yaml.org,2002:" ++ name

/-- a tag of the document's own -/
def isLocalTag (tag : Option String) : Bool :=
  tag.any fun t => t.startsWith "!" && t ≠ "!"

/-- the meaning of a scalar -/
def scalarMeaning? (tag : Option String) (style : Style) (s : String) : Option Datum :=
  match tag with
  | none => if style = .plain then Plain.meaning? s else some (.text s)
  | some t =>
    if isLocalTag tag then none
    else if t = coreTag "bool" then (Plain.bool? s).map .bool
    else if t = coreTag "int" then ((Plain.integer? s.toList).bind Plain.number?).map .number
    else if t = coreTag "float" then (Plain.float? s.toList).map fun x => .number (.real x)
    else if t = coreTag "null" then if Plain.isNull s then some .null else none
    else if t = "!" && style = .plain then Plain.meaning? s
    else some (.text s)

mutual

/-- the meaning of a part of a document, if every part of it has one -/
def Node.meaning? : Node → Option Datum
  | .cut | .absent => none
  | .null => some .null
  | .bool b => some (.bool b)
  | .number n => n.value?.map .number
  | .text s => some (.text s)
  | .scalar tag style s => scalarMeaning? tag style s
  | .seq tag items => if isLocalTag tag then none else (itemMeanings? items).map .seq
  | .map tag entries => if isLocalTag tag then none else (entryMeanings? entries).map .map

def itemMeanings? : List Node → Option (List Datum)
  | [] => some []
  | n :: ns => do
    let d ← n.meaning?
    let ds ← itemMeanings? ns
    pure (d :: ds)

def entryMeanings? : List (Node × Node) → Option (List (Datum × Datum))
  | [] => some []
  | (k, v) :: es => do
    let k ← k.meaning?
    let v ← v.meaning?
    let ds ← entryMeanings? es
    pure ((k, v) :: ds)

end

end LoadGen.Document
