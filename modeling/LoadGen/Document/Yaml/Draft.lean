/-
From the tokens of a YAML document to a draft of its tree, in which aliases are still references. A draft is cut where
the tokens stop making sense. An anchor's number is the number of names defined before it, so a name that is defined
again shares its number with the next new name; a reference means what was defined last under its number.
-/
import LoadGen.Document.Yaml.Property

namespace LoadGen.Document.Yaml

/-- a document or a part of one -/
inductive Draft where
  | cut
  | alias (number : Nat)
  | scalar (anchor : Option Nat) (tag : Option String) (style : Style) (text : String)
  | seq (anchor : Option Nat) (tag : Option String) (items : List Draft)
  | map (anchor : Option Nat) (tag : Option String) (entries : List (Draft × Draft))
  deriving Repr, Inhabited

/-- a node that is not written -/
def Draft.empty : Draft := scalar none none .plain ""

/-- tokens with what was defined before them -/
structure Feed where
  tokens : List Token
  /-- anchors with their numbers -/
  anchors : List (String × Nat) := []
  /-- handles of tags with what they stand for -/
  tags : List (String × String) := []

namespace Feed

def next? (f : Feed) : Option Token :=
  f.tokens.head?

def skip (f : Feed) : Feed :=
  { f with tokens := f.tokens.drop 1 }

/-- the next token is one of these -/
def sees (f : Feed) (ts : List Token) : Bool :=
  f.next?.any fun t => ts.contains t

/-- define an anchor -/
def define (f : Feed) (name : String) : Nat × Feed :=
  let number := f.anchors.length
  let anchors := match f.anchors.lookup name with
    | some _ => f.anchors.map fun a => if a.1 = name then (name, number) else a
    | none => f.anchors ++ [(name, number)]
  (number, { f with anchors })

/-- the tag that a handle and a suffix spell -/
def tag? (f : Feed) (handle suffix : String) : Option String :=
  if handle.isEmpty then some suffix else (f.tags.lookup handle).map (· ++ suffix)

/-- an anchor, if one stands here -/
def takeAnchor (f : Feed) : Option Nat × Feed :=
  match f.next? with
  | some (.anchor name) =>
    let (number, f) := f.skip.define name
    (some number, f)
  | _ => (none, f)

/-- a tag, if one stands here; a fault if its handle is unknown -/
def takeTag? (f : Feed) : Option (Option String × Feed) :=
  match f.next? with
  | some (.tag handle suffix) => (f.tag? handle suffix).map fun t => (some t, f.skip)
  | _ => some (none, f)

/-- anchor and tag of a node, in either order -/
def takeProperties? (f : Feed) : Option (Option Nat × Option String × Feed) :=
  match f.takeAnchor with
  | (some number, f) => f.takeTag?.map fun p => (some number, p.1, p.2)
  | (none, f) => f.takeTag?.map fun p =>
    match p.1 with
    | some t => (p.2.takeAnchor.1, some t, p.2.takeAnchor.2)
    | none => (none, none, p.2)

end Feed

/-- a part with the tokens after it, none where it is cut -/
abbrev Read (α : Type) := α × Option Feed

mutual

/-- a node: in a block it may be a block collection, and as an entry of a mapping a sequence without indentation -/
def readNode (fuel : Nat) (block bare : Bool) (f : Feed) : Read Draft :=
  match fuel with
  | 0 => (.cut, none)
  | fuel + 1 =>
    match f.next? with
    | some (.alias name) =>
      match f.anchors.lookup name with
      | some number => (.alias number, some f.skip)
      | none => (.cut, none)
    | _ =>
      match f.takeProperties? with
      | none => (.cut, none)
      | some (anchor, tag, f) =>
        match f.next? with
        | none => (.cut, none)
        | some (.scalar style text) => (.scalar anchor tag style text, some f.skip)
        | some .flowSequenceStart =>
          let (items, r) := readFlowItems fuel true f.skip
          (.seq anchor tag items, r)
        | some .flowMappingStart =>
          let (entries, r) := readFlowEntries fuel true f.skip
          (.map anchor tag entries, r)
        | some t =>
          if bare && t = .blockEntry then
            let (items, r) := readBareItems fuel f
            (.seq anchor tag items, r)
          else if block && t = .blockSequenceStart then
            let (items, r) := readItems fuel f.skip
            (.seq anchor tag items, r)
          else if block && t = .blockMappingStart then
            let (entries, r) := readEntries fuel f.skip
            (.map anchor tag entries, r)
          else if anchor.isSome || tag.isSome then (.scalar anchor tag .plain "", some f)
          else (.cut, none)

/-- a node, or none at all before certain tokens -/
def readOptional (fuel : Nat) (block bare : Bool) (before : List Token) (f : Feed) : Read Draft :=
  match fuel with
  | 0 => (.cut, none)
  | fuel + 1 => if f.sees before then (.empty, some f) else readNode fuel block bare f

/-- the value after a key, empty if there is no colon -/
def readValue (fuel : Nat) (block : Bool) (before : List Token) (f : Feed) : Read Draft :=
  match fuel with
  | 0 => (.cut, none)
  | fuel + 1 =>
    match f.next? with
    | none => (.cut, none)
    | some .value => readOptional fuel block block before f.skip
    | some _ => (.empty, some f)

/-- the items of a block sequence from here to its end -/
def readItems (fuel : Nat) (f : Feed) : Read (List Draft) :=
  match fuel with
  | 0 => ([.cut], none)
  | fuel + 1 =>
    match f.next? with
    | some .blockEnd => ([], some f.skip)
    | some .blockEntry =>
      match readOptional fuel true false [.blockEntry, .blockEnd] f.skip with
      | (item, none) => ([item], none)
      | (item, some f) =>
        let (items, r) := readItems fuel f
        (item :: items, r)
    | _ => ([.cut], none)

/-- the items of a sequence without indentation from here on -/
def readBareItems (fuel : Nat) (f : Feed) : Read (List Draft) :=
  match fuel with
  | 0 => ([.cut], none)
  | fuel + 1 =>
    match f.next? with
    | none => ([.cut], none)
    | some .blockEntry =>
      match readOptional fuel true false [.blockEntry, .key, .value, .blockEnd] f.skip with
      | (item, none) => ([item], none)
      | (item, some f) =>
        let (items, r) := readBareItems fuel f
        (item :: items, r)
    | some _ => ([], some f)

/-- the entries of a block mapping from here to its end -/
def readEntries (fuel : Nat) (f : Feed) : Read (List (Draft × Draft)) :=
  match fuel with
  | 0 => ([(.cut, .cut)], none)
  | fuel + 1 =>
    match f.next? with
    | some .blockEnd => ([], some f.skip)
    | some .key =>
      match readOptional fuel true true [.key, .value, .blockEnd] f.skip with
      | (k, none) => ([(k, .cut)], none)
      | (k, some f) =>
        match readValue fuel true [.key, .value, .blockEnd] f with
        | (v, none) => ([(k, v)], none)
        | (v, some f) =>
          let (entries, r) := readEntries fuel f
          ((k, v) :: entries, r)
    | _ => ([(.cut, .cut)], none)

/-- a mapping of one entry in a flow sequence, after its question mark or before its colon; a key that is left out takes
the token after it along -/
def readPair (fuel : Nat) (f : Feed) : Read Draft :=
  match fuel with
  | 0 => (.cut, none)
  | fuel + 1 =>
    let key := if f.sees [.value, .flowEntry, .flowSequenceEnd] then (Draft.empty, some f.skip)
      else readNode fuel false false f
    match key with
    | (k, none) => (.map none none [(k, .cut)], none)
    | (k, some f) =>
      let (v, r) := readValue fuel false [.flowEntry, .flowSequenceEnd] f
      (.map none none [(k, v)], r)

/-- the items of a flow sequence from here to its bracket; there is a comma before all but the first -/
def readFlowItems (fuel : Nat) (first : Bool) (f : Feed) : Read (List Draft) :=
  match fuel with
  | 0 => ([.cut], none)
  | fuel + 1 =>
    if f.sees [.flowSequenceEnd] then ([], some f.skip)
    else if !first && !f.sees [.flowEntry] then ([.cut], none)
    else
      let f := if first then f else f.skip
      if f.sees [.flowSequenceEnd] then ([], some f.skip)
      else
        match (if f.sees [.key] then readPair fuel f.skip else readNode fuel false false f) with
        | (item, none) => ([item], none)
        | (item, some f) =>
          let (items, r) := readFlowItems fuel false f
          (item :: items, r)

/-- an entry of a flow mapping; without a question mark or a colon it has no value -/
def readFlowEntry (fuel : Nat) (f : Feed) : Read (Draft × Draft) :=
  match fuel with
  | 0 => ((.cut, .cut), none)
  | fuel + 1 =>
    if f.sees [.key] then
      match readOptional fuel false false [.value, .flowEntry, .flowMappingEnd] f.skip with
      | (k, none) => ((k, .cut), none)
      | (k, some f) =>
        let (v, r) := readValue fuel false [.flowEntry, .flowMappingEnd] f
        ((k, v), r)
    else match readNode fuel false false f with
      | (k, none) => ((k, .cut), none)
      | (k, some f) => ((k, .empty), some f)

/-- the entries of a flow mapping from here to its brace; there is a comma before all but the first -/
def readFlowEntries (fuel : Nat) (first : Bool) (f : Feed) : Read (List (Draft × Draft)) :=
  match fuel with
  | 0 => ([(.cut, .cut)], none)
  | fuel + 1 =>
    if f.sees [.flowMappingEnd] then ([], some f.skip)
    else if !first && !f.sees [.flowEntry] then ([(.cut, .cut)], none)
    else
      let f := if first then f else f.skip
      if f.sees [.flowMappingEnd] then ([], some f.skip)
      else
        match readFlowEntry fuel f with
        | (entry, none) => ([entry], none)
        | (entry, some f) =>
          let (entries, r) := readFlowEntries fuel false f
          (entry :: entries, r)

end

/-- the handles of tags that are always known -/
def knownTags : List (String × String) := [("!", "!"), ("!!", "tag:yaml.org,2002:")]

/-- the directives before a document: at most one version, 1.1 or 1.2, and each handle once -/
def readDirectives? : Nat → Bool → List (String × String) → List Token → Option (List (String × String) × List Token)
  | 0, _, _, _ => none
  | fuel + 1, versioned, tags, ts =>
    match ts with
    | .version major minor :: r =>
      if versioned || major ≠ 1 || (minor ≠ 1 && minor ≠ 2) then none else readDirectives? fuel true tags r
    | .tagName handle start :: r =>
      if (tags.lookup handle).isSome then none else readDirectives? fuel versioned (tags ++ [(handle, start)]) r
    | .documentStart :: r => some (tags ++ knownTags, r)
    | _ => none

/-- what stands between documents -/
def isBoundary : Token → Bool
  | .version .. | .tagName .. | .documentStart | .documentEnd | .streamEnd => true
  | _ => false

/-- a first document with the tokens after it -/
def readDocument (ts : List Token) : Read Draft :=
  let fuel := 8 * ts.length + 8
  let starts := ts.head?.any fun t => isBoundary t && t ≠ .documentEnd
  if starts then
    match readDirectives? (ts.length + 1) false [] ts with
    | none => (.cut, none)
    | some (tags, r) =>
      if r.head?.any isBoundary then (.empty, some ⟨r, [], tags⟩) else readNode fuel true false ⟨r, [], tags⟩
  else readNode fuel true false ⟨ts, [], knownTags⟩

/-- nothing but the end follows -/
def Feed.isOver (f : Feed) : Bool :=
  (f.tokens.dropWhile fun t => t = .documentEnd) = [.streamEnd]

end LoadGen.Document.Yaml
