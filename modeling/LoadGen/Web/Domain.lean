/-
Domain names in URLs. Percent escapes are read first; ASCII letters go to lower case, wide forms to their ASCII
characters, and characters without a shape of their own are left out. A name with a character that no domain may hold is
refused, and so is a label in Punycode that spells nothing.

For names in ASCII that is the whole rule. Of the Unicode tables behind it only the ranges below are covered. Left out
are capitals beyond ASCII, which go to lower case there and stay as they are here; compatibility forms other than the
wide ones; most marks, namely those outside `markRanges`; most unassigned code points, namely those outside
`refusedRanges`; and composing a letter with the marks after it.
-/
import LoadGen.Decimal.Numeral
import LoadGen.Text.Cut
import LoadGen.Text.Utf8
import LoadGen.Web.Punycode

namespace LoadGen.Web

/-- bytes with their percent escapes read; an escape without two digits stays as it is -/
def readEscapes : List Nat → List Nat
  | [] => []
  | 37 :: a :: b :: r =>
    match Decimal.digitOf? 16 (Char.ofNat a), Decimal.digitOf? 16 (Char.ofNat b) with
    | some x, some y => (16 * x + y) :: readEscapes r
    | _, _ => 37 :: readEscapes (a :: b :: r)
  | c :: r => c :: readEscapes r

/-- ranges of code points that no domain holds: controls, blanks, marks of direction, private and unassigned ones -/
def refusedRanges : List (Nat × Nat) :=
  [(0x00, 0x20), (0x7F, 0xA0), (0xA8, 0xA8), (0xAF, 0xAF), (0xB4, 0xB4), (0xB8, 0xB8), (0x378, 0x37A), (0x1680, 0x1680),
    (0x2000, 0x200A), (0x200C, 0x200F), (0x2028, 0x202F), (0x203E, 0x203E), (0x205F, 0x205F), (0x2061, 0x2063),
    (0x2066, 0x206F), (0x2100, 0x2101), (0x2105, 0x2106), (0x2FF0, 0x3000), (0xE000, 0xF8FF), (0xFDD0, 0xFDEF),
    (0xFFA0, 0xFFA0), (0xFFF0, 0xFFFF), (0xE0000, 0xE00FF), (0xE01F0, 0x10FFFF)]

/-- ranges of code points that a domain is read without -/
def shapelessRanges : List (Nat × Nat) :=
  [(0xAD, 0xAD), (0x34F, 0x34F), (0x180B, 0x180D), (0x200B, 0x200B), (0x2060, 0x2060), (0x2064, 0x2064),
    (0xFE00, 0xFE0F), (0xFEFF, 0xFEFF), (0xE0100, 0xE01EF)]

/-- ranges of marks, which no label starts with -/
def markRanges : List (Nat × Nat) :=
  [(0x300, 0x36F), (0x483, 0x489), (0x591, 0x5BD), (0x610, 0x61A), (0x64B, 0x65F), (0x900, 0x903), (0x93A, 0x93C),
    (0x93E, 0x94F), (0x1AB0, 0x1AFF), (0x1DC0, 0x1DFF), (0x20D0, 0x20F0), (0x302A, 0x302F), (0x3099, 0x309A),
    (0xFE20, 0xFE2F)]

def inRanges (ranges : List (Nat × Nat)) (c : Char) : Bool :=
  ranges.any fun r => r.1 ≤ c.toNat && c.toNat ≤ r.2

/-- a character as a domain keeps it, if it does -/
def domainChar (c : Char) : Option Char :=
  if inRanges shapelessRanges c then none
  else if c.toNat = 0x3002 ∨ c.toNat = 0xFF0E ∨ c.toNat = 0xFF61 then some '.'
  else if 0xFF01 ≤ c.toNat ∧ c.toNat ≤ 0xFF5E then some (Char.ofNat (c.toNat - 0xFEE0)).toLower
  else some c.toLower

/-- a character that no domain may hold -/
def isForbidden (c : Char) : Bool :=
  inRanges refusedRanges c ∨ c ∈ ['%', '#', '/', ':', '<', '>', '?', '@', '[', '\\', ']', '^', '|']

/-- a label that can stand in a domain: no mark in front, and if it is in Punycode, one that spells more than ASCII -/
def isLabel (s : List Char) : Bool :=
  !(s.head?.any (inRanges markRanges)) &&
    match Text.afterStart? "xn--".toList s with
    | none => true
    | some code => match Punycode.read? code with
      | none => false
      | some label => label.any (fun c => 128 ≤ c.toNat) && !label.any isForbidden &&
          !(label.head?.any (inRanges markRanges)) && label.all fun c => domainChar c = some c

/-- the domain that a text spells -/
def readDomain? (s : List Char) : Option (List Char) :=
  let (decoded, clean) := Text.decodeUtf8 (readEscapes (Text.encodeUtf8 s))
  let name := decoded.filterMap domainChar
  if clean ∧ !name.any isForbidden ∧ (Text.splitAll '.' name).all isLabel then some name else none

end LoadGen.Web
