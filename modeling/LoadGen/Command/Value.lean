/-
Values on the command line: spans of time, as phrases or whole seconds, and URLs by how they start. Blanks around a
value are dropped.
-/
import LoadGen.Text.Cut
import LoadGen.Time.Phrase

namespace LoadGen.Command

/-- what is wrong with a value -/
inductive ValueFault where
  | emptyDuration
  | duration (text : String)
  | zeroDuration (text : String)
  | url (text : String)
  deriving DecidableEq, Repr

def ValueFault.message : ValueFault → String
  | emptyDuration => "duration cannot be empty (expected e.g. 10s, 250ms, 1m30s)"
  | duration text => "invalid duration '" ++ text ++ "' (expected e.g. 10s, 250ms, 1m30s)"
  | zeroDuration text => "duration '" ++ text ++ "' must be greater than zero"
  | url text => "invalid url '" ++ text ++ "' (expected http:// or https://)"

/-- whole seconds or a phrase -/
def span? (text : List Char) : Option Duration :=
  match Decimal.readWord? 10 Decimal.wordMax text with
  | some secs => some (.ofSecs secs)
  | none => Phrase.read? (String.ofList text)

/-- a span of time that is not zero -/
def readDuration (value : String) : Except ValueFault Duration :=
  let text := Text.trim value.toList
  if text.isEmpty then .error .emptyDuration
  else match span? text with
    | none => .error (.duration (String.ofList text))
    | some d => if d.isZero then .error (.zeroDuration (String.ofList text)) else .ok d

/-- a URL for the web -/
def readUrl (value : String) : Except ValueFault String :=
  let text := Text.trim value.toList
  let starts := fun scheme : String => (Text.afterStart? scheme.toList text).isSome
  if starts "http://" || starts "https://" then .ok (String.ofList text) else .error (.url (String.ofList text))

end LoadGen.Command
