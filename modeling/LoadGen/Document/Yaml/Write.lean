/-
Trees written as YAML in block style: an entry of a mapping and an item of a sequence on lines of their own, each level
of mappings two columns further right, a sequence at the column of the mapping that it stands in.
-/
import LoadGen.Decimal.Numeral
import LoadGen.Document.Yaml.Script

namespace LoadGen.Document.Yaml

/-- the longest key on a line with its value, in bytes -/
def shortKey : Nat := 128

/-- the line ends, unless it has -/
def endLine (s : List Char) : List Char :=
  if s.getLast?.any isBreak then s else s ++ ['\n']

/-- a number as it was spelled -/
def numeralText (n : Numeral) : List Char :=
  (if n.negative then ['-'] else []) ++ n.whole ++
    (match n.fraction with
      | some ds => '.' :: ds
      | none => []) ++
    match n.exponent with
      | some (negative, ds) => 'e' :: (if negative then ['-'] else []) ++ ds
      | none => []

/-- a scalar on its line; its later lines stand at column `indent` -/
def leafText (indent : Nat) : Node → List Char
  | .bool b => (if b then "true" else "false").toList
  | .number n => numeralText n
  | .text s | .scalar _ _ s => scalarText indent s
  | _ => "null".toList

/-- a key at column `indent`, up to where its value starts; a key that is long or has
several lines has lines of its own -/
def keyText (indent : Nat) (k : Node) : List Char :=
  let text := leafText (indent + 2) k
  let isLong : Bool := match k with
    | .text s | .scalar _ _ s => shortKey < s.utf8ByteSize || s.toList.any isBreak
    | _ => false
  if isLong then '?' :: ' ' :: endLine text ++ spaces indent ++ [':'] else text ++ [':']

mutual

/-- the value of an entry at column `indent`, after its colon -/
def writeValue (indent : Nat) : Node → List Char
  | .seq _ [] => " []\n".toList
  | .map _ [] => " \x7b\x7d\n".toList
  | .seq _ items => '\n' :: writeItems indent items
  | .map _ entries => '\n' :: writeEntries (indent + 2) false entries
  | n => endLine (' ' :: leafText (indent + 2) n)

/-- an item of a sequence at column `indent`, after its dash -/
def writeItem (indent : Nat) : Node → List Char
  | .seq _ [] => " []\n".toList
  | .map _ [] => " \x7b\x7d\n".toList
  | .seq _ items => ' ' :: writeInner (indent + 2) items
  | .map _ entries => ' ' :: writeEntries (indent + 2) true entries
  | n => endLine (' ' :: leafText (indent + 2) n)

/-- the items of a sequence at column `indent` -/
def writeItems (indent : Nat) : List Node → List Char
  | [] => []
  | n :: ns => spaces indent ++ '-' :: writeItem indent n ++ writeItems indent ns

/-- the items of a sequence that starts within a line, at column `indent` -/
def writeInner (indent : Nat) : List Node → List Char
  | [] => []
  | n :: ns => '-' :: writeItem indent n ++ writeItems indent ns

/-- the entries of a mapping at column `indent`, the first of them perhaps within a line -/
def writeEntries (indent : Nat) (inLine : Bool) : List (Node × Node) → List Char
  | [] => []
  | (k, v) :: es =>
    (if inLine then [] else spaces indent) ++ keyText indent k ++ writeValue indent v ++ writeEntries indent false es

end

/-- a tree as the text of a document -/
def write (n : Node) : String :=
  String.ofList <| match n with
    | .map _ (e :: es) => writeEntries 0 false (e :: es)
    | .seq _ (i :: is) => writeItems 0 (i :: is)
    | .map .. => "\x7b\x7d\n".toList
    | .seq .. => "[]\n".toList
    | n => endLine (leafText 2 n)

end LoadGen.Document.Yaml
