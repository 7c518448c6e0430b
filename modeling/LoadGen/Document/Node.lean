/-
Documents as trees. A node keeps what the text says and leaves open what it means: a YAML scalar is its text with style
and tag, a JSON scalar has its kind already. `cut` stands where the text stops making sense, so that a reader of the
tree meets faults in the order in which the text holds them.
-/
namespace LoadGen.Document

/-- a number as JSON spells it -/
structure Numeral where
  negative : Bool
  whole : List Char
  /-- the digits after a point, if there is one -/
  fraction : Option (List Char)
  /-- sign (true for minus) and digits of an exponent, if there is one -/
  exponent : Option (Bool × List Char)
  deriving DecidableEq, Repr

/-- how a YAML scalar is written -/
inductive Style where
  | plain
  | quoted
  | literal
  | folded
  deriving DecidableEq, Repr

/-- a document or a part of one -/
inductive Node where
  /-- the text is faulty from here on -/
  | cut
  /-- there is no document -/
  | absent
  | null
  | bool (b : Bool)
  | number (n : Numeral)
  | text (s : String)
  | scalar (tag : Option String) (style : Style) (s : String)
  | seq (tag : Option String) (items : List Node)
  | map (tag : Option String) (entries : List (Node × Node))
  deriving Repr, Inhabited

/-- the text form a document is written in -/
inductive Format where
  | json
  | yaml
  deriving DecidableEq, Repr

end LoadGen.Document
