/-
Tokens of the HTTP grammar: method names and header names are runs of token characters, header values are any text
without control characters but the tab. Names of headers are kept in lower case, names of methods as they are.
-/
import LoadGen.Text.Cut

namespace LoadGen.Web

/-- a character of a token -/
def isTokenChar (c : Char) : Bool :=
  c.isAlphanum ∨ c ∈ ['!', '#', '$', '%', '&', '\'', '*', '+', '-', '.', '^', '_', '\x60', '|', '~']

/-- a run of at least one token character -/
def isToken (s : List Char) : Bool :=
  !s.isEmpty ∧ s.all isTokenChar

/-- the longest header name -/
def longestHeaderName : Nat := 65535

/-- the name of a header, in lower case -/
def headerName? (s : String) : Option String :=
  if isToken s.toList ∧ s.toList.length ≤ longestHeaderName then some (String.ofList (Text.lowerAscii s.toList))
  else none

/-- a character of a header value: a tab, or any but the control characters -/
def isValueChar (c : Char) : Bool :=
  (32 ≤ c.toNat ∧ c.toNat ≠ 127) ∨ c = '\t'

/-- a text that may stand as the value of a header -/
def isHeaderValue (s : String) : Bool :=
  s.toList.all isValueChar

/-- the method of a request -/
structure Method where
  name : String
  deriving DecidableEq, Repr

def Method.get : Method := ⟨"GET"⟩

/-- a method by its name, in any case -/
def Method.read? (s : String) : Option Method :=
  if isToken s.toList then some ⟨String.ofList (Text.upperAscii s.toList)⟩ else none

end LoadGen.Web
