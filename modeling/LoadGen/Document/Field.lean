/-
Reading a document as something expected. What a scalar means depends on the place it stands in: a text takes any scalar
as it is spelled, a number only a number. The first fault in the order of the text is the one that is met.
-/
import LoadGen.Document.Datum

namespace LoadGen.Document

/-- why a document cannot be read -/
inductive Fault where
  /-- it is not what is expected -/
  | malformed
  /-- a number of seconds is beyond the longest span of time -/
  | unrepresentable
  deriving DecidableEq, Repr

/-- what reading gives -/
abbrev Outcome (α : Type) := Except Fault α

/-- a value that must be there -/
def expect {α : Type} : Option α → Outcome α
  | some a => .ok a
  | none => .error .malformed

/-- nothing is written here: nothing at all, or a null -/
def Node.isNothing : Node → Outcome Bool
  | .absent | .null => .ok true
  | .scalar tag style s =>
    if style ≠ .plain then .ok false
    else match tag with
      | none => .ok (s.isEmpty || Plain.isNull s)
      | some t =>
        if t ≠ coreTag "null" then .ok false
        else if Plain.isNull s then .ok true
        else .error .malformed
  | _ => .ok false

/-- a value that may be left out -/
def Node.optional {α : Type} (read : Node → Outcome α) (n : Node) : Outcome (Option α) := do
  if ← n.isNothing then pure none else return some (← read n)

def Node.readText : Node → Outcome String
  | .text s | .scalar _ _ s => .ok s
  | _ => .error .malformed

/-- a 64-bit word -/
def Node.readWord : Node → Outcome Nat
  | .number n => match n.value? with
    | some (.nat n) => .ok n
    | _ => .error .malformed
  | .scalar tag style s =>
    if style = .plain || (style = .literal && tag = some (coreTag "int")) then expect (Plain.word? s.toList)
    else .error .malformed
  | _ => .error .malformed

/-- a word of at most 16 bits -/
def Node.readSmallWord (n : Node) : Outcome Nat := do
  let w ← n.readWord
  if w ≤ 65535 then pure w else .error .malformed

/-- nothing at all where a collection is expected counts as an empty one -/
def Node.isEmptyCollection : Node → Bool
  | .absent => true
  | .scalar _ .plain s => s.isEmpty
  | _ => false

def Node.readList {α : Type} (read : Node → Outcome α) : Node → Outcome (List α)
  | .seq _ items => items.mapM read
  | n => if n.isEmptyCollection then .ok [] else .error .malformed

/-- a mapping, its entries in the order of the text -/
def Node.readEntries {α : Type} (read : Node × Node → Outcome α) : Node → Outcome (List α)
  | .map _ entries => entries.mapM read
  | n => if n.isEmptyCollection then .ok [] else .error .malformed

/-- a mapping with certain fields that is read into `α` -/
structure Shape (F α : Type) where
  /-- the fields in their order -/
  fields : List F
  /-- in JSON the values may be listed in that order, from the first to at least this many -/
  least : Nat
  named? : String → Option F
  /-- take in the value of a field -/
  set : α → F → Node → Outcome α

namespace Shape

variable {F α : Type} [DecidableEq F]

/-- one more field; each may come once -/
def take (s : Shape F α) (state : α × List F) (field : F) (value : Node) : Outcome (α × List F) := do
  if field ∈ state.2 then .error .malformed
  else return (← s.set state.1 field value, field :: state.2)

/-- one more entry -/
def takeEntry (s : Shape F α) (state : α × List F) (entry : Node × Node) : Outcome (α × List F) := do
  let name ← entry.1.readText
  let field ← expect (s.named? name)
  s.take state field entry.2

/-- the values in the order of the fields -/
def readValues (s : Shape F α) (start : α) (items : List Node) : Outcome (α × List F) := do
  let state ← (s.fields.zip items).foldlM (fun state p => s.take state p.1 p.2) (start, [])
  if items.length < s.least || s.fields.length < items.length then .error .malformed else pure state

/-- what is read, and the fields that were there -/
def read (s : Shape F α) (format : Format) (start : α) (n : Node) : Outcome (α × List F) :=
  match format, n with
  | _, .map _ entries => entries.foldlM s.takeEntry (start, [])
  | .json, .seq _ items => s.readValues start items
  | _, n => if n.isEmptyCollection then .ok (start, []) else .error .malformed

end Shape

end LoadGen.Document
