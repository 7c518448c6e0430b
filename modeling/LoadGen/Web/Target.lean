/-
Request targets: where a request is sent, as its URL spells it. This reading is stricter than that of `Url`: nothing is
dropped or corrected, the authority holds ASCII only, and a path or query may hold no blank, no control character and
few of the characters that should have been escaped. A fragment is left off.
-/
import LoadGen.Text.Cut

namespace LoadGen.Web

/-- a request target in its parts; a target without scheme is an authority or a path alone -/
structure Target where
  scheme : Option String
  authority : String
  path : String
  query : Option String
  deriving DecidableEq, Repr

namespace Target

/-- the target as text; a path is at least a slash after a scheme -/
def text (t : Target) : String :=
  let scheme := match t.scheme with
    | some s => s ++ "://"
    | none => ""
  let path := if t.path.isEmpty ∧ (t.scheme.isSome ∨ t.query.isSome) then "/" else t.path
  let query := match t.query with
    | some q => "?" ++ q
    | none => ""
  scheme ++ t.authority ++ path ++ query

/-- a character of a scheme -/
def isSchemeChar (c : Char) : Bool :=
  c.isAlphanum ∨ c = '+' ∨ c = '-' ∨ c = '.'

/-- a scheme and what follows its colon and slashes, if the text has one; nothing at all if it is too long -/
def scheme? (s : List Char) : Option (Option (String × List Char)) :=
  let name := s.takeWhile isSchemeChar
  match s.drop name.length with
  | ':' :: '/' :: '/' :: rest =>
    if 64 < name.length then none
    else
      let lower := String.ofList (Text.lowerAscii name)
      some (some (if lower = "http" ∨ lower = "https" then lower else String.ofList name, rest))
  | _ => some none

/-- a character that ends an authority -/
def endsAuthority (c : Char) : Bool :=
  c = '/' ∨ c = '?' ∨ c = '#'

/-- what an authority has held so far: colons since the last bracket or user, brackets, and a percent sign since then -/
structure Seen where
  colons : Nat
  opened : Bool
  closed : Bool
  percent : Bool

/-- a character of an authority -/
def see (s : Seen) (c : Char) : Option Seen :=
  if c = ':' then if 8 ≤ s.colons then none else some { s with colons := s.colons + 1 }
  else if c = '[' then if s.percent ∨ s.opened then none else some { s with opened := true }
  else if c = ']' then
    if !s.opened ∨ s.closed then none else some { s with closed := true, colons := 0, percent := false }
  else if c = '@' then some { s with colons := 0, percent := false }
  else if c = '%' then some { s with percent := true }
  else if c.isAlphanum ∨ c ∈ ['!', '$', '&', '\'', '(', ')', '*', '+', ',', '-', '.', ';', '=', '_', '~'] then some s
  else none

/-- an authority: brackets in a pair, at most one colon after them, something after an `@`, and percent signs in the
user or the brackets only -/
def isAuthority (s : List Char) : Bool :=
  match s.foldlM see ⟨0, false, false, false⟩ with
  | none => false
  | some seen => seen.opened = seen.closed ∧ seen.colons ≤ 1 ∧ s.getLast? ≠ some '@' ∧ !seen.percent

/-- a character that may stand in a path as it is -/
def isPathChar (c : Char) : Bool :=
  let n := c.toNat
  n = 0x21 ∨ (0x24 ≤ n ∧ n ≤ 0x3B) ∨ n = 0x3D ∨ (0x40 ≤ n ∧ n ≤ 0x5F) ∨ (0x61 ≤ n ∧ n ≤ 0x7A) ∨ n = 0x7C ∨ 0x7E ≤ n ∨
    c = '"' ∨ c = '\x7b' ∨ c = '\x7d'

/-- a character that may stand in a query as it is -/
def isQueryChar (c : Char) : Bool :=
  let n := c.toNat
  n = 0x21 ∨ (0x24 ≤ n ∧ n ≤ 0x3B) ∨ n = 0x3D ∨ 0x3F ≤ n

/-- a path with its query -/
def path? (s : List Char) : Option (String × Option String) :=
  let path := s.takeWhile fun c => c ≠ '?' ∧ c ≠ '#'
  if path.all isPathChar then
    match s.drop path.length with
    | '?' :: r =>
      let query := r.takeWhile (· ≠ '#')
      if query.all isQueryChar then some (String.ofList path, some (String.ofList query)) else none
    | _ => some (String.ofList path, none)
  else none

/-- the longest target, in bytes -/
def longest : Nat := 65534

/-- the target that a text spells -/
def read? (text : String) : Option Target := do
  let s := text.toList
  if s.isEmpty ∨ longest < text.utf8ByteSize then none
  else if s = ['*'] then some ⟨none, "", "*", none⟩
  else if s.head? = some '/' then
    let (path, query) ← path? s
    some ⟨none, "", path, query⟩
  else
    let found ← scheme? s
    let rest := match found with
      | some (_, rest) => rest
      | none => s
    let authority := rest.takeWhile fun c => !endsAuthority c
    let after := rest.drop authority.length
    if !isAuthority authority then none
    else match found with
      | none => if after.isEmpty then some ⟨none, text, "", none⟩ else none
      | some (scheme, _) =>
        if authority.isEmpty then none
        else
          let (path, query) ← path? after
          some ⟨some scheme, String.ofList authority, path, query⟩

end Target

end LoadGen.Web
