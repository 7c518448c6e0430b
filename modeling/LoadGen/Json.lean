/-
JSON as the program writes it: one line, members in the order given, floats in their shortest form. A float that is no
finite number is written as `null`.
-/
import LoadGen.Decimal.Layout

namespace LoadGen

/-- a JSON value -/
inductive Json where
  | null
  | bool (b : Bool)
  | int (n : Int)
  | real (x : Float)
  | str (s : String)
  | arr (items : List Json)
  | obj (members : List (String × Json))

namespace Json

/-- a natural number -/
def nat (n : Nat) : Json := .int n

/-- `null` for a missing value -/
def option {α : Type} (f : α → Json) : Option α → Json
  | none => .null
  | some a => f a

/-- a character inside a string -/
def escaped (c : Char) : List Char :=
  if c = '"' then ['\\', '"']
  else if c = '\\' then ['\\', '\\']
  else if c = '\n' then ['\\', 'n']
  else if c = '\r' then ['\\', 'r']
  else if c = '\t' then ['\\', 't']
  else if c.toNat = 8 then ['\\', 'b']
  else if c.toNat = 12 then ['\\', 'f']
  else if c.toNat < 0x20 then
    ['\\', 'u', '0', '0', Nat.digitChar (c.toNat / 16), Nat.digitChar (c.toNat % 16)]
  else [c]

/-- a quoted string -/
def quoted (s : String) : String :=
  "\"" ++ String.ofList (s.toList.flatMap escaped) ++ "\""

/-- the layout of floats: always with a point or an exponent -/
def floatLayout : Decimal.Layout := ⟨some (-5, 16), true, "null", "null"⟩

/-- a float, `null` if it is not finite -/
def floatText (x : Float) : String :=
  if x.isFinite then floatLayout.text x else "null"

mutual

/-- a value on one line -/
def render : Json → String
  | .null => "null"
  | .bool b => if b then "true" else "false"
  | .int n => toString n
  | .real x => floatText x
  | .str s => quoted s
  | .arr items => "[" ++ ",".intercalate (renderItems items) ++ "]"
  | .obj members => "\x7b" ++ ",".intercalate (renderMembers members) ++ "\x7d"

def renderItems : List Json → List String
  | [] => []
  | v :: vs => render v :: renderItems vs

def renderMembers : List (String × Json) → List String
  | [] => []
  | (k, v) :: vs => (quoted k ++ ":" ++ render v) :: renderMembers vs

end

end Json

end LoadGen
