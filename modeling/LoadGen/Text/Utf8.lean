/-
Bytes as text: UTF-8 read up to the first byte that does not continue a well-formed character, and UTF-16 in either byte
order.
-/
namespace LoadGen.Text

/-- a byte that continues a character -/
def isTail (b : Nat) : Bool :=
  128 ≤ b ∧ b < 192

/-- a code point that is a character, at least `least` -/
def scalar? (least n : Nat) : Option Char :=
  if least ≤ n ∧ (n < 0xD800 ∨ (0xDFFF < n ∧ n < 0x110000)) then some (Char.ofNat n) else none

/-- the first character of some bytes and the bytes after it; the shortest form alone is well formed -/
def nextChar? : List Nat → Option (Char × List Nat)
  | [] => none
  | a :: r =>
    if a < 0x80 then some (Char.ofNat a, r)
    else match r with
    | [] => none
    | b :: r₁ =>
      if !isTail b then none
      else if 0xC0 ≤ a ∧ a < 0xE0 then
        (scalar? 0x80 ((a - 0xC0) * 64 + (b - 128))).map (·, r₁)
      else match r₁ with
      | [] => none
      | c :: r₂ =>
        if !isTail c then none
        else if 0xE0 ≤ a ∧ a < 0xF0 then
          (scalar? 0x800 (((a - 0xE0) * 64 + (b - 128)) * 64 + (c - 128))).map (·, r₂)
        else match r₂ with
        | [] => none
        | d :: r₃ =>
          if isTail d ∧ 0xF0 ≤ a ∧ a < 0xF8 then
            (scalar? 0x10000 ((((a - 0xF0) * 64 + (b - 128)) * 64 + (c - 128)) * 64 + (d - 128))).map (·, r₃)
          else none

/-- the characters up to the first fault, latest first, and whether all bytes were read -/
def decodeFrom : Nat → List Char → List Nat → List Char × Bool
  | 0, acc, bytes => (acc, bytes.isEmpty)
  | fuel + 1, acc, bytes =>
    match bytes with
    | [] => (acc, true)
    | _ :: _ =>
      match nextChar? bytes with
      | some (c, rest) => decodeFrom fuel (c :: acc) rest
      | none => (acc, false)

/-- the characters of some bytes up to the first fault, and whether there is none -/
def decodeUtf8 (bytes : List Nat) : List Char × Bool :=
  let (acc, clean) := decodeFrom bytes.length [] bytes
  (acc.reverse, clean)

/-- the characters of some bytes, if they are well formed -/
def decodeUtf8? (bytes : List Nat) : Option (List Char) :=
  match decodeUtf8 bytes with
  | (s, true) => some s
  | (_, false) => none

/-- 16-bit units of some bytes, low byte first or high byte first; nothing if a byte is left over -/
def units16? (lowFirst : Bool) : List Nat → Option (List Nat)
  | [] => some []
  | [_] => none
  | a :: b :: r => (units16? lowFirst r).map ((if lowFirst then a + 256 * b else 256 * a + b) :: ·)

/-- the characters of 16-bit units; a surrogate must be one of a pair -/
def decodeUnits? : List Nat → Option (List Char)
  | [] => some []
  | [u] => (scalar? 0 u).map ([·])
  | u :: v :: r =>
    if 0xD800 ≤ u ∧ u < 0xDC00 then
      if 0xDC00 ≤ v ∧ v < 0xE000 then
        (decodeUnits? r).map (Char.ofNat (0x10000 + (u - 0xD800) * 0x400 + (v - 0xDC00)) :: ·)
      else none
    else do
      let c ← scalar? 0 u
      let cs ← decodeUnits? (v :: r)
      pure (c :: cs)

/-- the bytes of a text -/
def encodeUtf8 (s : List Char) : List Nat :=
  (String.ofList s).toUTF8.toList.map UInt8.toNat

end LoadGen.Text
