/-
Tokens of YAML: indicators, block structure as indentation gives it, properties of nodes, and scalars with their text.
Of these, the properties and the directives are read here: anchors, aliases, tags, and the two directives there are. Each
reader starts at its indicator and gives the token with the place after it, or nothing if the text is faulty.
-/
import LoadGen.Decimal.Numeral
import LoadGen.Document.Node
import LoadGen.Document.Yaml.Cursor
import LoadGen.Text.Utf8

namespace LoadGen.Document.Yaml

/-- what the text of a document is made of -/
inductive Token where
  /-- the version that a document says it is written in -/
  | version (major minor : Nat)
  /-- a short name for the start of tags -/
  | tagName (handle start : String)
  | documentStart
  | documentEnd
  | streamEnd
  | blockSequenceStart
  | blockMappingStart
  | blockEnd
  | flowSequenceStart
  | flowSequenceEnd
  | flowMappingStart
  | flowMappingEnd
  | blockEntry
  | flowEntry
  | key
  | value
  | alias (name : String)
  | anchor (name : String)
  | tag (handle suffix : String)
  | scalar (style : Style) (text : String)
  deriving DecidableEq, Repr

/-- an anchor or an alias: a word, and after it a blank or an indicator -/
def scanName? (c : Cursor) : Option (String × Cursor) :=
  let c := c.advance 1
  let name := c.rest.takeWhile isWordChar
  let c := c.advance name.length
  let ended := startsBlank c.rest || c.rest.head?.any fun ch => ch ∈ ['?', ':', ',', ']', '\x7d', '%', '@', '\x60']
  if name.isEmpty || !ended then none else some (String.ofList name, c)

/-- the handle of a tag: an exclamation mark, a word, and perhaps another exclamation mark -/
def scanHandle? (c : Cursor) : Option (List Char × Cursor) :=
  if starts '!' c.rest then
    let c := c.advance 1
    let word := c.rest.takeWhile isWordChar
    let c := c.advance word.length
    if starts '!' c.rest then some ('!' :: word ++ ['!'], c.advance 1) else some ('!' :: word, c)
  else none

/-- a character of a tag; brackets and commas belong to it only between angle brackets -/
def isTagChar (verbatim : Bool) (ch : Char) : Bool :=
  isWordChar ch ||
    ch ∈ [';', '/', '?', ':', '@', '&', '=', '+', '$', '.', '%', '!', '~', '*', '\'', '(', ')'] ||
    (verbatim && ch ∈ [',', '[', ']'])

/-- the bytes that the characters of a tag stand for; a percent sign takes two hexadecimal digits -/
def tagBytes? : List Char → Option (List Nat)
  | [] => some []
  | '%' :: a :: b :: s => do
    let a ← Decimal.digitOf? 16 a
    let b ← Decimal.digitOf? 16 b
    let bytes ← tagBytes? s
    pure ((a * 16 + b) :: bytes)
  | '%' :: _ => none
  | ch :: s => (tagBytes? s).map (Text.encodeUtf8 [ch] ++ ·)

/-- the text of a tag from here on -/
def scanTagText? (verbatim : Bool) (c : Cursor) : Option (List Char × Cursor) :=
  let raw := c.rest.takeWhile (isTagChar verbatim)
  match (tagBytes? raw).map Text.decodeUtf8 with
  | some (text, true) => some (text, c.advance raw.length)
  | _ => none

/-- a tag with its handle; in angle brackets and for a lone exclamation mark the handle is empty -/
def scanTagParts? (c : Cursor) : Option (String × String × Cursor) :=
  if starts '<' (c.rest.drop 1) then do
    let (text, c) ← scanTagText? true (c.advance 2)
    if text.isEmpty || !starts '>' c.rest then none else some ("", String.ofList text, c.advance 1)
  else do
    let (handle, c) ← scanHandle? c
    let (text, c) ← scanTagText? false c
    if 1 < handle.length && handle.getLast? = some '!' then
      if text.isEmpty then none else some (String.ofList handle, String.ofList text, c)
    else
      let suffix := handle.drop 1 ++ text
      if suffix.isEmpty then some ("", "!", c) else some ("!", String.ofList suffix, c)

/-- a tag, and after it a blank or, in a flow collection, a comma -/
def scanTag? (inFlow : Bool) (c : Cursor) : Option (Token × Cursor) := do
  let (handle, suffix, c) ← scanTagParts? c
  if startsBlank c.rest || (inFlow && starts ',' c.rest) then some (.tag handle suffix, c) else none

/-- a number of at most nine digits -/
def scanVersionNumber? (c : Cursor) : Option (Nat × Cursor) :=
  let digits := c.rest.takeWhile Char.isDigit
  if digits.isEmpty || 9 < digits.length then none
  else some (Decimal.digitsValue digits, c.advance digits.length)

/-- a version after its directive's name -/
def scanVersion? (c : Cursor) : Option (Token × Cursor) := do
  let (major, c) ← scanVersionNumber? (c.skipWhile isSpaceOrTab)
  if starts '.' c.rest then
    let (minor, c) ← scanVersionNumber? (c.advance 1)
    some (.version major minor, c)
  else none

/-- a handle and what it stands for, after their directive's name -/
def scanTagName? (c : Cursor) : Option (Token × Cursor) := do
  let (handle, c) ← scanHandle? (c.skipWhile isSpaceOrTab)
  if !startsSpace c.rest || (1 < handle.length && handle.getLast? ≠ some '!') then none
  else
    let (text, c) ← scanTagText? true (c.skipWhile isSpaceOrTab)
    if text.isEmpty || !startsBlank c.rest then none
    else some (.tagName (String.ofList handle) (String.ofList text), c)

/-- a directive on its line -/
def scanDirective? (c : Cursor) : Option (Token × Cursor) := do
  let c := c.advance 1
  let name := c.rest.takeWhile isWordChar
  let c := c.advance name.length
  if !startsBlank c.rest then none
  else
    let (token, c) ←
      if name = "YAML".toList then scanVersion? c
      else if name = "TAG".toList then scanTagName? c
      else none
    some (token, ← c.skipLineRest?)

end LoadGen.Document.Yaml
