/-
URLs, read as browsers read them: blanks around and tabs or line ends within are dropped, a backslash counts as a slash
in the usual schemes, and what a host may be depends on the scheme. Only scheme, host and port are kept; paths, queries
and fragments are always well formed.
-/
import LoadGen.Decimal.Numeral
import LoadGen.Text.Cut
import LoadGen.Web.Address
import LoadGen.Web.Domain

namespace LoadGen.Web

inductive Host where
  | domain (name : String)
  | v4 (address : Nat)
  | v6 (groups : List Nat)
  deriving DecidableEq, Repr

def Host.text : Host → String
  | .domain name => name
  | .v4 address => textV4 address
  | .v6 groups => textV6 groups

structure Url where
  scheme : String
  host : Option Host
  /-- the port, unless it is the scheme's own -/
  port : Option Nat
  deriving DecidableEq, Repr

/-- how a scheme's URLs are read -/
inductive SchemeKind where
  /-- with a host -/
  | usual
  | file
  | other
  deriving DecidableEq, Repr

def schemeKind (scheme : String) : SchemeKind :=
  if scheme ∈ ["http", "https", "ws", "wss", "ftp"] then .usual
  else if scheme = "file" then .file
  else .other

def defaultPort? (scheme : String) : Option Nat :=
  match scheme with
  | "http" | "ws" => some 80
  | "https" | "wss" => some 443
  | "ftp" => some 21
  | _ => none

/-- without control characters and blanks around, and without tabs and line ends within -/
def urlText (s : List Char) : List Char :=
  let isEdge := fun c : Char => c.toNat ≤ 32
  (((s.dropWhile isEdge).reverse.dropWhile isEdge).reverse).filter fun c => c ≠ '\t' ∧ c ≠ '\n' ∧ c ≠ '\r'

/-- a scheme in lower case, and what follows its colon -/
def scheme? (s : List Char) : Option (String × List Char) :=
  match s with
  | [] => none
  | c :: _ =>
    if c.isAlpha then
      match s.dropWhile fun c => c.isAlphanum ∨ c = '+' ∨ c = '-' ∨ c = '.' with
      | ':' :: rest => some (String.ofList (Text.lowerAscii (s.takeWhile (· ≠ ':'))), rest)
      | _ => none
    else none

/-- a character that ends the authority -/
def endsAuthority (k : SchemeKind) (c : Char) : Bool :=
  c = '/' ∨ c = '?' ∨ c = '#' ∨ (k ≠ .other ∧ c = '\\')

/-- the authority that a text starts with, without the user, and whether it names a user; nothing if an empty user
stands before an empty host -/
def afterUser? (k : SchemeKind) (s : List Char) : Option (List Char × Bool) :=
  let authority := s.takeWhile fun c => !endsAuthority k c
  let rest := s.dropWhile fun c => !endsAuthority k c
  let host := (authority.reverse.takeWhile (· ≠ '@')).reverse
  if authority.contains '@' then
    let user := authority.take (authority.length - host.length - 1)
    if user.isEmpty ∧ host.isEmpty ∧ !rest.isEmpty then none
    else some (host ++ rest, !user.isEmpty ∧ user ≠ [':'])
  else some (authority ++ rest, false)

/-- the text of a host, up to a colon outside brackets -/
def hostText (k : SchemeKind) : Bool → List Char → List Char
  | _, [] => []
  | inside, c :: s =>
    if (c = ':' ∧ !inside) ∨ endsAuthority k c then []
    else c :: hostText k (if c = '[' then true else if c = ']' then false else inside) s

/-- a version 6 address in brackets -/
def bracketed? (s : List Char) : Option Host :=
  (Text.beforeEnd? [']'] s).bind fun inner => (readV6? (inner.drop 1)).map .v6

/-- the host of a usual scheme -/
def usualHost? (s : List Char) : Option Host :=
  if s.head? = some '[' then bracketed? s
  else do
    let name ← readDomain? s
    if name.isEmpty then none
    else if endsInNumber name then (readV4? name).map .v4
    else some (.domain (String.ofList name))

/-- characters that no host of any scheme holds -/
def hostStops : List Char :=
  ['\x00', '\t', '\n', '\r', ' ', '#', '/', ':', '<', '>', '?', '@', '[', '\\', ']', '^', '|']

/-- the host of any other scheme, kept as it is; it may be empty -/
def otherHost? (s : List Char) : Option Host :=
  if s.head? = some '[' then bracketed? s
  else if s.any fun c => c ∈ hostStops then none
  else some (.domain (String.ofList s))

/-- the port after a host: none if there are no digits, refused above 65535 or before anything but a path -/
def port? (scheme : String) (s : List Char) : Option (Option Nat) :=
  match s with
  | ':' :: r =>
    let digits := r.takeWhile Char.isDigit
    let n := Decimal.digitsValue digits
    let follows := (r.dropWhile Char.isDigit).head?
    if 65535 < n ∨ follows.any (fun c => !(c = '/' ∨ c = '\\' ∨ c = '?' ∨ c = '#')) then none
    else some (if digits.isEmpty ∨ defaultPort? scheme = some n then none else some n)
  | _ => some none

/-- what follows the double slash -/
def authority? (scheme : String) (k : SchemeKind) (s : List Char) : Option Url := do
  let (s, named) ← afterUser? k s
  let text := hostText k false s
  let rest := s.drop text.length
  let host ← if k = .other then otherHost? text else usualHost? text
  if text.isEmpty ∧ (named ∨ rest.head? = some ':') then none
  else
    let port ← port? scheme rest
    some ⟨scheme, some host, port⟩

/-- a drive letter where a file's host could stand -/
def isDrive (s : List Char) : Bool :=
  match s with
  | [c, d] => c.isAlpha ∧ (d = ':' ∨ d = '|')
  | _ => false

/-- a file URL: its host, if it has one, must be well formed -/
def file? (s : List Char) : Option Url :=
  let isSlash := fun c : Char => c = '/' ∨ c = '\\'
  match s with
  | a :: b :: r =>
    if isSlash a ∧ isSlash b then
      let text := r.takeWhile fun c => !endsAuthority .file c
      if text.isEmpty ∨ isDrive text then some ⟨"file", none, none⟩
      else (usualHost? text).map fun h => ⟨"file", some h, none⟩
    else some ⟨"file", none, none⟩
  | _ => some ⟨"file", none, none⟩

/-- the URL that a text spells -/
def Url.read? (text : String) : Option Url := do
  let (scheme, rest) ← scheme? (urlText text.toList)
  match schemeKind scheme with
  | .usual => authority? scheme .usual (rest.dropWhile fun c => c = '/' ∨ c = '\\')
  | .file => file? rest
  | .other => match rest with
    | '/' :: '/' :: r => authority? scheme .other r
    | _ => some ⟨scheme, none, none⟩

/-- the schemes that requests can be made to -/
def Url.isWeb (u : Url) : Bool :=
  u.scheme = "http" ∨ u.scheme = "https"

end LoadGen.Web
