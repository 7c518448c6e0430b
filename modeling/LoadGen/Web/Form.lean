/-
Query strings as forms: names and values between ampersands, a plus sign for a blank, any byte as a percent sign with
two hexadecimal digits. A name without an equals sign has the empty value; bytes that are no text end in a replacement
character.
-/
import LoadGen.Decimal.Numeral
import LoadGen.Text.Cut
import LoadGen.Text.Utf8

namespace LoadGen.Web.Form

/-- the bytes that a piece of a query stands for -/
def bytes : List Char → List Nat
  | '%' :: a :: b :: s =>
    match Decimal.digitOf? 16 a, Decimal.digitOf? 16 b with
    | some x, some y => (x * 16 + y) :: bytes s
    | _, _ => 0x25 :: bytes (a :: b :: s)
  | '+' :: s => 0x20 :: bytes s
  | c :: s => Text.encodeUtf8 [c] ++ bytes s
  | [] => []

/-- the text that a piece of a query stands for -/
def decode (s : List Char) : String :=
  match Text.decodeUtf8 (bytes s) with
  | (text, true) => String.ofList text
  | (text, false) => String.ofList (text ++ ['\uFFFD'])

/-- a name with its value -/
def pair (s : List Char) : String × String :=
  match Text.splitOnce '=' s with
  | some (name, value) => (decode name, decode value)
  | none => (decode s, "")

/-- the names of a query with their values, in order -/
def pairs (query : String) : List (String × String) :=
  ((Text.splitAll '&' query.toList).filter fun s => !s.isEmpty).map pair

/-- the word for a name, if there is one: the name may come once, and its value must be a 64-bit word -/
def word? (name query : String) : Option (Option Nat) :=
  match (pairs query).filter fun p => p.1 = name with
  | [] => some none
  | [p] => (Decimal.readWord? 10 Decimal.wordMax p.2.toList).map some
  | _ => none

end LoadGen.Web.Form
