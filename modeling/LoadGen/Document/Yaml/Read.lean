/-
From the bytes of a YAML document to its tree. Aliases are replaced by what they refer to; a document that would grow
too large or too deep that way is cut.
-/
import LoadGen.Document.Yaml.Draft
import LoadGen.Document.Yaml.Lexer
import LoadGen.Text.Utf8

namespace LoadGen.Document.Yaml

mutual

/-- the nodes with anchors, in the order in which they start -/
def Draft.anchored : Draft → List (Nat × Draft)
  | .cut | .alias _ => []
  | .scalar anchor tag style text => anchor.toList.map (·, .scalar anchor tag style text)
  | .seq anchor tag items => anchor.toList.map (·, .seq anchor tag items) ++ anchoredItems items
  | .map anchor tag entries => anchor.toList.map (·, .map anchor tag entries) ++ anchoredEntries entries

def anchoredItems : List Draft → List (Nat × Draft)
  | [] => []
  | d :: ds => d.anchored ++ anchoredItems ds

def anchoredEntries : List (Draft × Draft) → List (Nat × Draft)
  | [] => []
  | (k, v) :: es => k.anchored ++ v.anchored ++ anchoredEntries es

end

mutual

/-- the number of places of a draft -/
def Draft.size : Draft → Nat
  | .cut => 0
  | .alias _ | .scalar .. => 1
  | .seq _ _ items => sizeItems items + 2
  | .map _ _ entries => sizeEntries entries + 2

def sizeItems : List Draft → Nat
  | [] => 0
  | d :: ds => d.size + sizeItems ds

def sizeEntries : List (Draft × Draft) → Nat
  | [] => 0
  | (k, v) :: es => k.size + v.size + sizeEntries es

end

/-- collections nest at most this deep -/
def deepest : Nat := 128

mutual

/-- a draft with its aliases replaced, with `depth` more collections inside each other and `budget` more aliases -/
def resolve (targets : List (Nat × Draft)) (fuel depth budget : Nat) (d : Draft) : Node × Nat :=
  match fuel with
  | 0 => (.cut, 0)
  | fuel + 1 =>
    match d with
    | .cut => (.cut, budget)
    | .alias number =>
      match budget, targets.lookup number with
      | budget + 1, some d => resolve targets fuel depth budget d
      | _, _ => (.cut, 0)
    | .scalar _ tag style text => (.scalar tag style text, budget)
    | .seq _ tag items =>
      if depth = 0 then (.cut, 0)
      else
        let (items, budget) := resolveItems targets fuel (depth - 1) budget items
        (.seq tag items, budget)
    | .map _ tag entries =>
      if depth = 0 then (.cut, 0)
      else
        let (entries, budget) := resolveEntries targets fuel (depth - 1) budget entries
        (.map tag entries, budget)

def resolveItems (targets : List (Nat × Draft)) (fuel depth budget : Nat) (ds : List Draft) : List Node × Nat :=
  match fuel, ds with
  | _, [] => ([], budget)
  | 0, _ => ([.cut], 0)
  | fuel + 1, d :: ds =>
    let (item, budget) := resolve targets fuel depth budget d
    let (items, budget) := resolveItems targets fuel depth budget ds
    (item :: items, budget)

def resolveEntries (targets : List (Nat × Draft)) (fuel depth budget : Nat) (es : List (Draft × Draft)) :
    List (Node × Node) × Nat :=
  match fuel, es with
  | _, [] => ([], budget)
  | 0, _ => ([(.cut, .cut)], 0)
  | fuel + 1, (k, v) :: es =>
    let (k, budget) := resolve targets fuel depth budget k
    let (v, budget) := resolve targets fuel depth budget v
    let (es, budget) := resolveEntries targets fuel depth budget es
    ((k, v) :: es, budget)

end

/-- the tree of a draft -/
def Draft.toNode (d : Draft) : Node :=
  (resolve d.anchored.reverse ((deepest + 2) * (d.size + 2)) deepest (100 * d.size) d).1

/-- a character that may stand in a document -/
def isAllowed (c : Char) : Bool :=
  let n := c.toNat
  n = 0x09 || n = 0x0A || n = 0x0D || (0x20 ≤ n && n ≤ 0x7E) || n = 0x85 || (0xA0 ≤ n && n ≤ 0xFFFD) || 0x10000 ≤ n

/-- the text of a document: UTF-8, or UTF-16 after a byte order mark -/
def text? (bytes : List Nat) : Option (List Char) :=
  let decoded := match bytes with
    | 0xFF :: 0xFE :: r => (Text.units16? true r).bind Text.decodeUnits?
    | 0xFE :: 0xFF :: r => (Text.units16? false r).bind Text.decodeUnits?
    | 0xEF :: 0xBB :: 0xBF :: r => Text.decodeUtf8? r
    | r => Text.decodeUtf8? r
  decoded.filter fun s => s.all isAllowed

/-- the document that some bytes spell, and whether nothing follows it -/
def read (bytes : List Nat) : Node × Bool :=
  match text? bytes with
  | none => (.cut, false)
  | some s =>
    match tokens s with
    | [.streamEnd] => (.absent, true)
    | ts =>
      match readDocument ts with
      | (d, some f) => (d.toNode, f.isOver)
      | (d, none) => (d.toNode, false)

end LoadGen.Document.Yaml
