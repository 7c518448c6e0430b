/-
Scalars of YAML in their five spellings: plain, in single or double quotes, and as literal or folded blocks. Line ends
within a scalar are kept in literal blocks and folded elsewhere: a single one into a space, more into one less.
-/
import LoadGen.Decimal.Numeral
import LoadGen.Document.Yaml.Cursor

namespace LoadGen.Document.Yaml

/-- the first line end of a gap and those after it as they are folded -/
def fold (first others : List Char) : List Char :=
  if first = ['\n'] then
    if others.isEmpty then [' '] else others
  else first ++ others

/-- blanks and line ends between the words of a scalar -/
structure Gap where
  /-- blanks before any line end, latest first -/
  blanks : List Char := []
  /-- a line has ended -/
  broken : Bool := false
  first : List Char := []
  others : List Char := []

/-- what a gap counts as -/
def Gap.text (g : Gap) : List Char :=
  if g.broken then fold g.first g.others else g.blanks.reverse

/-- past blanks and line ends; in a plain scalar a tab may not stand left of column `indent` after a line end -/
def skipGap? (indent : Option Int) : Nat → Gap → Cursor → Option (Gap × Cursor)
  | 0, _, _ => none
  | fuel + 1, g, c =>
    if startsBreak c.rest then
      let (b, next) := c.takeBreak
      let g :=
        if g.broken then { g with others := g.others ++ b }
        else { g with blanks := [], broken := true, first := b }
      skipGap? indent fuel g next
    else match c.rest with
      | ch :: _ =>
        if isSpaceOrTab ch then
          if g.broken && ch = '\t' && indent.any fun i => (c.column : Int) < i then none
          else skipGap? indent fuel (if g.broken then g else { g with blanks := ch :: g.blanks }) (c.advance 1)
        else some (g, c)
      | [] => some (g, c)

/-- the value of some hexadecimal digits as a character -/
def hexChar? (digits : List Char) : Option Char := do
  let n ← Decimal.value? 16 digits
  if n < 0xD800 || (0xDFFF < n && n < 0x110000) then some (Char.ofNat n) else none

/-- the character that an escape in double quotes stands for, and the length of the escape without its backslash -/
def escape? (s : List Char) : Option (Char × Nat) :=
  let hex := fun (r : List Char) (n : Nat) =>
    if (r.take n).length = n then (hexChar? (r.take n)).map (·, n + 1) else none
  match s with
  | '0' :: _ => some ('\x00', 1)
  | 'a' :: _ => some ('\x07', 1)
  | 'b' :: _ => some ('\x08', 1)
  | 't' :: _ | '\t' :: _ => some ('\t', 1)
  | 'n' :: _ => some ('\n', 1)
  | 'v' :: _ => some ('\x0b', 1)
  | 'f' :: _ => some ('\x0c', 1)
  | 'r' :: _ => some ('\r', 1)
  | 'e' :: _ => some ('\x1b', 1)
  | ' ' :: _ => some (' ', 1)
  | '"' :: _ => some ('"', 1)
  | '/' :: _ => some ('/', 1)
  | '\\' :: _ => some ('\\', 1)
  | 'N' :: _ => some ('\u0085', 1)
  | '_' :: _ => some ('\u00a0', 1)
  | 'L' :: _ => some ('\u2028', 1)
  | 'P' :: _ => some ('\u2029', 1)
  | 'x' :: r => hex r 2
  | 'u' :: r => hex r 4
  | 'U' :: r => hex r 8
  | _ => none

/-- the rest of a quoted scalar; `acc` holds its text so far, latest first -/
def quotedFrom? (quote : Char) : Nat → List Char → Cursor → Option (String × Cursor)
  | 0, _, _ => none
  | fuel + 1, acc, c =>
    if c.atMarker then none
    else match c.rest with
    | [] => none
    | ch :: s =>
      if startsBlank c.rest then
        match skipGap? none (c.rest.length + 1) {} c with
        | some (g, c) => quotedFrom? quote fuel (g.text.reverse ++ acc) c
        | none => none
      else if ch = quote then
        if quote = '\'' && starts '\'' s then quotedFrom? quote fuel ('\'' :: acc) (c.advance 2)
        else some (String.ofList acc.reverse, c.advance 1)
      else if quote = '"' && ch = '\\' then
        if startsBreak s then
          match skipGap? none (c.rest.length + 1) { broken := true } (c.advance 1).takeBreak.2 with
          | some (g, c) => quotedFrom? quote fuel (g.text.reverse ++ acc) c
          | none => none
        else match escape? s with
          | some (e, n) => quotedFrom? quote fuel (e :: acc) (c.advance (n + 1))
          | none => none
      else quotedFrom? quote fuel (ch :: acc) (c.advance 1)

/-- a scalar in quotes, from its opening quote on -/
def scanQuoted? (quote : Char) (c : Cursor) : Option (String × Cursor) :=
  quotedFrom? quote (c.rest.length + 1) [] (c.advance 1)

/-- an indicator of flow collections -/
def isFlowIndicator (c : Char) : Bool :=
  c ∈ [',', '[', ']', '\x7b', '\x7d']

/-- a plain scalar ends before these characters -/
def endsPlain (inFlow : Bool) (s : List Char) : Bool :=
  match s with
  | ':' :: r => startsBlank r
  | ch :: _ => inFlow && isFlowIndicator ch
  | [] => true

/-- a colon that may not stand in a plain scalar of a flow collection -/
def isStrayColon (s : List Char) : Bool :=
  match s with
  | ':' :: ch :: _ => isFlowIndicator ch || ch = '?'
  | _ => false

/-- a plain scalar from here on, its text before `gap` so far in `acc`, latest first; says whether a line end follows
it -/
def plainFrom? (inFlow : Bool) (indent : Int) : Nat → List Char → Gap → Cursor → Option (String × Bool × Cursor)
  | 0, _, _, _ => none
  | fuel + 1, acc, gap, c =>
    let done := some (String.ofList acc.reverse, gap.broken, c)
    if startsBlank c.rest then
      if c.rest.isEmpty then done
      else match skipGap? (some indent) (c.rest.length + 1) {} c with
        | none => none
        | some (g, c) =>
          if (!inFlow && c.column < indent) || c.atMarker || starts '#' c.rest then
            some (String.ofList acc.reverse, g.broken, c)
          else plainFrom? inFlow indent fuel acc g c
    else if inFlow && isStrayColon c.rest then none
    else if endsPlain inFlow c.rest then done
    else match c.rest with
      | [] => done
      | ch :: _ => plainFrom? inFlow indent fuel (ch :: (gap.text.reverse ++ acc)) {} (c.advance 1)

/-- a plain scalar; outside flow collections its later lines lie right of the block around it -/
def scanPlain? (inFlow : Bool) (indent : Int) (c : Cursor) : Option (String × Bool × Cursor) :=
  plainFrom? inFlow (indent + 1) (2 * c.rest.length + 2) [] {} c

/-- what a block scalar keeps of the line ends after it -/
inductive Chomping where
  | strip
  | clip
  | keep
  deriving DecidableEq, Repr

/-- the sign of a block scalar's header, if one stands here -/
def scanChomping (c : Cursor) : Chomping × Cursor :=
  if starts '+' c.rest then (.keep, c.advance 1)
  else if starts '-' c.rest then (.strip, c.advance 1)
  else (.clip, c)

/-- the digit of a block scalar's header, zero if none stands here; a zero itself is a fault -/
def scanIncrement? (c : Cursor) : Option (Nat × Cursor) :=
  match c.rest with
  | ch :: _ =>
    if ch = '0' then none
    else if ch.isDigit then some (ch.toNat - 48, c.advance 1)
    else some (0, c)
  | [] => some (0, c)

/-- sign and digit after a block scalar's indicator, in either order -/
def scanBlockHeader? (c : Cursor) : Option (Chomping × Nat × Cursor) :=
  match scanChomping c with
  | (.clip, c) => do
    let (increment, c) ← scanIncrement? c
    if increment = 0 then some (.clip, 0, c)
    else
      let (chomping, c) := scanChomping c
      some (chomping, increment, c)
  | (chomping, c) => do
    let (increment, c) ← scanIncrement? c
    some (chomping, increment, c)

/-- past empty lines and the indentation after them, no deeper than `indent` unless that is zero: the deepest column,
the line ends, and the place; a tab may not be part of the indentation -/
def blockBreaks? (indent : Nat) : Nat → Nat → List Char → Cursor → Option (Nat × List Char × Cursor)
  | 0, _, _, _ => none
  | fuel + 1, deepest, breaks, c =>
    let spaces := (c.rest.takeWhile (· = ' ')).length
    let c := c.advance (if indent = 0 then spaces else min spaces (indent - c.column))
    let deepest := max deepest c.column
    if (indent = 0 || c.column < indent) && starts '\t' c.rest then none
    else if startsBreak c.rest then
      let (b, c) := c.takeBreak
      blockBreaks? indent fuel deepest (breaks ++ b) c
    else some (deepest, breaks, c)

/-- a block scalar as far as it is read -/
structure Block where
  /-- its text, latest first -/
  text : List Char := []
  /-- the end of its last line -/
  lineEnd : List Char := []
  /-- the ends of the empty lines after that -/
  empties : List Char := []
  /-- its last line starts with a blank -/
  indented : Bool := false

/-- the line ends before a line are folded into a space, or into one less: only in a folded block, and only between
lines that do not start with a blank -/
def Block.join (folded spaced : Bool) (b : Block) : List Char :=
  if folded && b.lineEnd = ['\n'] && !b.indented && !spaced then
    if b.empties.isEmpty then [' '] else b.empties
  else b.lineEnd ++ b.empties

/-- the lines of a block scalar at column `indent` -/
def blockLines? (folded : Bool) (indent : Nat) : Nat → Block → Cursor → Option (Block × Cursor)
  | 0, _, _ => none
  | fuel + 1, b, c =>
    if c.column = indent && !c.rest.isEmpty then
      let spaced := startsSpace c.rest
      let line := c.rest.takeWhile fun ch => !isBreak ch
      let (lineEnd, c') := (c.advance line.length).takeBreak
      match blockBreaks? indent (c'.rest.length + 1) 0 [] c' with
      | none => none
      | some (_, empties, c') =>
        let text := line.reverse ++ ((b.join folded spaced).reverse ++ b.text)
        blockLines? folded indent fuel ⟨text, lineEnd, empties, spaced⟩ c'
    else some (b, c)

/-- the text of a block scalar with the line ends that it keeps -/
def Block.chomp (b : Block) : Chomping → String
  | .strip => String.ofList b.text.reverse
  | .clip => String.ofList (b.text.reverse ++ b.lineEnd)
  | .keep => String.ofList (b.text.reverse ++ b.lineEnd ++ b.empties)

/-- a block scalar, from its indicator on, in a block at column `outer`, -1 for the document itself -/
def scanBlock? (folded : Bool) (outer : Int) (c : Cursor) : Option (String × Cursor) := do
  let (chomping, increment, c) ← scanBlockHeader? (c.advance 1)
  let c ← c.skipLineRest?
  let given := if increment = 0 then 0 else outer.toNat + increment
  let (deepest, empties, c) ← blockBreaks? given (c.rest.length + 1) 0 [] c
  let indent := if given = 0 then max (max deepest (outer + 1).toNat) 1 else given
  let (b, c) ← blockLines? folded indent (c.rest.length + 1) { empties } c
  some (b.chomp chomping, c)

end LoadGen.Document.Yaml
