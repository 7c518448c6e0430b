/-
From the text of a YAML document to its tokens. What indentation and colons mean is found out late: a node that may
turn out to be the key of a mapping is remembered, and when its colon comes, the key's token and the start of a mapping
are put before it. A faulty text gives the tokens that are certain before its fault.
-/
import LoadGen.Document.Yaml.Property
import LoadGen.Document.Yaml.Scalar

namespace LoadGen.Document.Yaml

/-- a node that may turn out to be a key -/
structure PossibleKey where
  /-- it must be one: it stands where a block expects a key -/
  required : Bool
  /-- the number of its first token -/
  number : Nat
  /-- where it starts -/
  place : Cursor

/-- the longest key, in characters -/
def longestKey : Nat := 1024

/-- a key lies on one line and is short -/
def PossibleKey.isStale (k : PossibleKey) (c : Cursor) : Bool :=
  k.place.line < c.line || k.place.index + longestKey < c.index

/-- a text in the course of being read -/
structure Lexer where
  place : Cursor
  /-- latest first -/
  tokens : List Token := []
  /-- column of the block that is open, -1 if none is -/
  indent : Int := -1
  /-- columns of the blocks around it, innermost first -/
  outer : List Int := []
  /-- the possible key in each open flow collection, innermost first, and last the one outside -/
  keys : List (Option PossibleKey) := [none]
  /-- a key may start here -/
  keyAllowed : Bool := true
  /-- the end of the text was reached -/
  ended : Bool := false

namespace Lexer

/-- inside a flow collection -/
def inFlow (l : Lexer) : Bool :=
  1 < l.keys.length

def count (l : Lexer) : Nat :=
  l.tokens.length

/-- one more token -/
def push (l : Lexer) (t : Token) : Lexer :=
  { l with tokens := t :: l.tokens }

/-- a token before token `number` -/
def insert (l : Lexer) (number : Nat) (t : Token) : Lexer :=
  let later := l.count - number
  { l with tokens := l.tokens.take later ++ t :: l.tokens.drop later }

/-- the innermost possible key -/
def key? (l : Lexer) : Option PossibleKey :=
  l.keys.head?.join

/-- another innermost possible key -/
def setKey (l : Lexer) (k : Option PossibleKey) : Lexer :=
  { l with keys := k :: l.keys.drop 1 }

/-- no possible key; a fault if there was one that is required -/
def dropKey? (l : Lexer) : Option Lexer :=
  if l.key?.any fun k => k.required then none else some (l.setKey none)

/-- the next node may be a key, if one may start here -/
def saveKey? (l : Lexer) : Option Lexer :=
  if l.keyAllowed then
    l.dropKey?.map fun l =>
      l.setKey (some ⟨!l.inFlow && l.indent = l.place.column, l.count, l.place⟩)
  else some l

/-- without the possible keys that can be none any more; a fault if one of them is required -/
def dropStale? (l : Lexer) : Option Lexer :=
  let isStale := fun k : Option PossibleKey => k.any fun k => k.isStale l.place
  if l.keys.any fun k => isStale k && k.any fun k => k.required then none
  else some { l with keys := l.keys.map fun k => if isStale k then none else k }

/-- closed blocks that lie right of a column -/
def unrollFrom (column : Int) : Nat → Lexer → Lexer
  | 0, l => l
  | n + 1, l =>
    if column < l.indent then
      unrollFrom column n { l.push .blockEnd with indent := l.outer.headD (-1), outer := l.outer.drop 1 }
    else l

/-- outside flow collections, blocks end where the text returns to a column left of them -/
def unroll (l : Lexer) (column : Int) : Lexer :=
  if l.inFlow then l else unrollFrom column (l.outer.length + 1) l

/-- outside flow collections, a block opens where the text gets right of the one that is open -/
def roll (l : Lexer) (column : Int) (number : Nat) (t : Token) : Lexer :=
  if l.inFlow || column ≤ l.indent then l
  else { l.insert number t with indent := column, outer := l.indent :: l.outer }

/-- past blanks, comments and line ends; a tab may not stand where a key may start in a block -/
def skipToToken : Nat → Lexer → Lexer
  | 0, l => l
  | fuel + 1, l =>
    let c := if l.place.index = 0 && starts '\uFEFF' l.place.rest then l.place.advance 1 else l.place
    let c := c.skipWhile fun ch => ch = ' ' || (ch = '\t' && (l.inFlow || !l.keyAllowed))
    let c := c.skipComment
    if startsBreak c.rest then
      skipToToken fuel { l with place := c.takeBreak.2, keyAllowed := l.keyAllowed || !l.inFlow }
    else { l with place := c }

/-- at the next token, with the blocks closed that end before it -/
def settle? (l : Lexer) : Option Lexer :=
  (skipToToken (l.place.rest.length + 1) l).dropStale?.map fun l => l.unroll l.place.column

/-- an indicator of `n` characters -/
def indicator (l : Lexer) (n : Nat) (t : Token) : Lexer :=
  { l.push t with place := l.place.advance n }

/-- a token that was read up to a place -/
def readTo (l : Lexer) (t : Token) (c : Cursor) : Lexer :=
  { l.push t with place := c, keyAllowed := false }

/-- the end of the text -/
def fetchEnd? (l : Lexer) : Option Lexer :=
  (l.unroll (-1)).dropKey?.map fun l => { l.push .streamEnd with keyAllowed := false, ended := true }

/-- a directive -/
def fetchDirective? (l : Lexer) : Option Lexer := do
  let l ← (l.unroll (-1)).dropKey?
  let (t, c) ← scanDirective? l.place
  some (l.readTo t c)

/-- a marker between documents -/
def fetchMarker? (l : Lexer) (t : Token) : Option Lexer :=
  (l.unroll (-1)).dropKey?.map fun l => { l.indicator 3 t with keyAllowed := false }

/-- the start of a flow collection -/
def fetchFlowStart? (l : Lexer) (t : Token) : Option Lexer :=
  l.saveKey?.map fun l => { l.indicator 1 t with keyAllowed := true, keys := none :: l.keys }

/-- the end of a flow collection -/
def fetchFlowEnd? (l : Lexer) (t : Token) : Option Lexer :=
  l.dropKey?.map fun l =>
    { l.indicator 1 t with keyAllowed := false, keys := if l.inFlow then l.keys.drop 1 else l.keys }

/-- a comma of a flow collection -/
def fetchFlowEntry? (l : Lexer) : Option Lexer :=
  l.dropKey?.map fun l => { l.indicator 1 .flowEntry with keyAllowed := true }

/-- a block opens at this place, unless it is open; a fault where no key may start -/
def rollHere? (l : Lexer) (t : Token) : Option Lexer :=
  if l.inFlow then some l
  else if l.keyAllowed then some (l.roll l.place.column l.count t)
  else none

/-- the dash of a block sequence -/
def fetchBlockEntry? (l : Lexer) : Option Lexer := do
  let l ← (← l.rollHere? .blockSequenceStart).dropKey?
  some { l.indicator 1 .blockEntry with keyAllowed := true }

/-- the question mark of a key -/
def fetchKey? (l : Lexer) : Option Lexer := do
  let l ← (← l.rollHere? .blockMappingStart).dropKey?
  some { l.indicator 1 .key with keyAllowed := !l.inFlow }

/-- the colon of a value: the possible key before it becomes a key -/
def fetchValue? (l : Lexer) : Option Lexer :=
  match l.key? with
  | some k =>
    let l := (l.insert k.number .key).roll k.place.column k.number .blockMappingStart
    some { (l.setKey none).indicator 1 .value with keyAllowed := false }
  | none => (l.rollHere? .blockMappingStart).map fun l => { l.indicator 1 .value with keyAllowed := !l.inFlow }

/-- an anchor or an alias -/
def fetchName? (l : Lexer) (t : String → Token) : Option Lexer := do
  let l ← l.saveKey?
  let (name, c) ← scanName? l.place
  some (l.readTo (t name) c)

/-- a tag -/
def fetchTag? (l : Lexer) : Option Lexer := do
  let l ← l.saveKey?
  let (t, c) ← scanTag? l.inFlow l.place
  some (l.readTo t c)

/-- a scalar in quotes -/
def fetchQuoted? (l : Lexer) (quote : Char) : Option Lexer := do
  let l ← l.saveKey?
  let (text, c) ← scanQuoted? quote l.place
  some (l.readTo (.scalar .quoted text) c)

/-- a plain scalar; after a line end a key may start again -/
def fetchPlain? (l : Lexer) : Option Lexer := do
  let l ← l.saveKey?
  let (text, broken, c) ← scanPlain? l.inFlow l.indent l.place
  some { l.readTo (.scalar .plain text) c with keyAllowed := broken }

/-- a block scalar -/
def fetchBlock? (l : Lexer) (folded : Bool) : Option Lexer := do
  let l ← l.dropKey?
  let (text, c) ← scanBlock? folded l.indent l.place
  some { l.readTo (.scalar (if folded then .folded else .literal) text) c with keyAllowed := true }

/-- a plain scalar may start with any character but blanks and indicators; a dash may start one before anything but a
blank, and in a block a question mark or a colon likewise -/
def startsPlain (inFlow : Bool) (s : List Char) : Bool :=
  match s with
  | [] => false
  | ch :: r =>
    if ch = '-' then !startsSpace r
    else if ch = '?' || ch = ':' then !inFlow && !startsBlank r
    else !startsBlank s && !(isFlowIndicator ch ||
      ch ∈ ['#', '&', '*', '!', '|', '>', '\'', '"', '%', '@', '\x60'])

/-- the token that starts with this character -/
def fetchToken? (l : Lexer) : Option Lexer :=
  match l.place.rest with
  | [] => l.fetchEnd?
  | ch :: s =>
    if l.place.column = 0 && ch = '%' then l.fetchDirective?
    else if l.place.column = 0 && startsMarker '-' (ch :: s) then l.fetchMarker? .documentStart
    else if l.place.column = 0 && startsMarker '.' (ch :: s) then l.fetchMarker? .documentEnd
    else if ch = '[' then l.fetchFlowStart? .flowSequenceStart
    else if ch = '\x7b' then l.fetchFlowStart? .flowMappingStart
    else if ch = ']' then l.fetchFlowEnd? .flowSequenceEnd
    else if ch = '\x7d' then l.fetchFlowEnd? .flowMappingEnd
    else if ch = ',' then l.fetchFlowEntry?
    else if ch = '-' && startsBlank s then l.fetchBlockEntry?
    else if ch = '?' && (l.inFlow || startsBlank s) then l.fetchKey?
    else if ch = ':' && (l.inFlow || startsBlank s) then l.fetchValue?
    else if ch = '*' then l.fetchName? .alias
    else if ch = '&' then l.fetchName? .anchor
    else if ch = '!' then l.fetchTag?
    else if ch = '|' && !l.inFlow then l.fetchBlock? false
    else if ch = '>' && !l.inFlow then l.fetchBlock? true
    else if ch = '\'' || ch = '"' then l.fetchQuoted? ch
    else if startsPlain l.inFlow (ch :: s) then l.fetchPlain?
    else none

/-- the tokens that are certain: none from the first possible key on -/
def certain (l : Lexer) : List Token :=
  let open' := (l.keys.filterMap fun k => k.filter fun k => !k.isStale l.place).map PossibleKey.number
  match open'.min? with
  | some n => l.tokens.reverse.take n
  | none => l.tokens.reverse

/-- the tokens up to the end or to the first fault -/
def run : Nat → Lexer → List Token
  | 0, l => l.certain
  | fuel + 1, l =>
    if l.ended then l.tokens.reverse
    else match l.settle?.bind fetchToken? with
      | some l => run fuel l
      | none => l.certain

end Lexer

/-- the tokens of a text; the last one is the end of the text unless there is a fault -/
def tokens (s : List Char) : List Token :=
  (Lexer.mk ⟨s, 0, 0, 0⟩ [] (-1) [] [none] true false).run (s.length + 2)

end LoadGen.Document.Yaml
