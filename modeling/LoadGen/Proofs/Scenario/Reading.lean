/-
Documents read back. A document that is written as a tree, and any tree that reads back as that one, is read as the
same document: every field that is there is read as its value, and every field that is left out has its default.
-/
import LoadGen.Proofs.Decimal.Digits
import LoadGen.Proofs.Document.ReadBack
import LoadGen.Proofs.Text.Ordered
import LoadGen.Proofs.Time.Phrase
import LoadGen.Scenario.Writer

namespace LoadGen

open Document Node

/-! ## Readers of scenario documents are faithful -/

theorem faithful_readSpan : Faithful Node.readSpan :=
  faithful_of_meaning _

theorem faithful_readThinkTime : Faithful Node.readThinkTime :=
  faithful_of_meaning _

theorem faithful_readThresholds : Faithful Node.readThresholds :=
  faithful_of_meaning _

theorem faithful_readHeaders : Faithful Node.readHeaders := by
  refine (faithful_readEntries ?_).bind _
  intro j w k n a hkey hvalue hw
  simp only [bind_eq_ok, hvalue.meaning] at hw ⊢
  obtain ⟨name, hname, hw⟩ := hw
  exact ⟨name, faithful_readText hkey hname, hw⟩

theorem faithful_stageSet (s : Stage) (f : StageField) : Faithful (StageField.shape.set s f) := by
  cases f with
  | target => exact faithful_readWord.bind _
  | duration => exact faithful_readSpan.bind _

theorem faithful_readStage : Faithful (Node.readStage .yaml) :=
  (faithful_read faithful_stageSet _).bind _

theorem faithful_requestSet (r : RequestOptions) (f : RequestField) : Faithful (RequestField.shape.set r f) := by
  cases f with
  | method => exact faithful_readText.optional.bind _
  | url => exact faithful_readText.bind _
  | headers => exact faithful_readHeaders.bind _
  | body => exact faithful_readText.optional.bind _
  | expectStatus => exact faithful_readSmallWord.readList.bind _

theorem faithful_readRequest : Faithful (Node.readRequest .yaml) :=
  (faithful_read faithful_requestSet _).bind _

theorem faithful_scenarioSet (d : ScenarioDocument) (f : ScenarioField) :
    Faithful ((ScenarioField.shape .yaml).set d f) := by
  cases f with
  | name | executor | url => exact faithful_readText.optional.bind _
  | rate | startRate | preAllocated | maxVus | vus | startVus | seed | failFast =>
    exact faithful_readWord.optional.bind _
  | timeUnit | duration | gracefulStop | timeout => exact faithful_readSpan.optional.bind _
  | stages => exact faithful_readStage.readList.bind _
  | thinkTime => exact faithful_readThinkTime.optional.bind _
  | request => exact faithful_readRequest.optional.bind _
  | requests => exact faithful_readRequest.readList.bind _
  | thresholds => exact faithful_readThresholds.optional.bind _

theorem faithful_ofNode : Faithful (ScenarioDocument.ofNode .yaml) :=
  (faithful_read faithful_scenarioSet _).bind _

/-! ## Values that are written -/

theorem readWord_word {n : Nat} (h : n ≤ Decimal.wordMax) : (word n).readWord = .ok n := by
  simp only [word, Node.readWord, Numeral.value?, Decimal.digitsValue_ofNat, h, if_true, Bool.false_eq_true, if_false]

theorem readSmallWord_word {n : Nat} (h : n ≤ 65535) : (word n).readSmallWord = .ok n := by
  have hword : n ≤ Decimal.wordMax := Nat.le_trans h (by decide)
  rw [Node.readSmallWord, readWord_word hword]
  exact if_pos h

theorem datumSpan_write (d : Duration) : (Datum.text (Phrase.write d)).readSpan = .ok d := by
  rw [Datum.readSpan, Phrase.read?_write]
  rfl

theorem expect_bind {α β : Type} (a : α) (f : α → Outcome β) : (expect (some a) >>= f) = f a := rfl

theorem readSpan_span (d : Duration) : (span d).readSpan = .ok d := by
  rw [span, Node.readSpan, Node.meaning?, expect_bind, datumSpan_write]

theorem optional_eq_ok {α : Type} {read : Node → Outcome α} {n : Node} {a : α} (hn : n.isNothing = .ok false)
    (hread : read n = .ok a) : n.optional read = .ok (some a) := by
  simp only [Node.optional, hn, hread]
  rfl

theorem optional_text (s : String) : (Node.text s).optional Node.readText = .ok (some s) := rfl

theorem optional_word {n : Nat} (h : n ≤ Decimal.wordMax) : (word n).optional Node.readWord = .ok (some n) :=
  optional_eq_ok rfl (readWord_word h)

theorem optional_span (d : Duration) : (span d).optional Node.readSpan = .ok (some d) :=
  optional_eq_ok rfl (readSpan_span d)

theorem list?_eq_none {α : Type} {write : α → Node} {items : List α} : list? write items = none ↔ items = [] := by
  simp [list?]

theorem readList_list? {α : Type} {read : Node → Outcome α} {write : α → Node} {items : List α} {n : Node}
    (hn : list? write items = some n) (hread : ∀ a ∈ items, read (write a) = .ok a) : n.readList read = .ok items := by
  unfold list? at hn
  split at hn
  · cases hn
  · cases hn
    exact mapM_written hread

/-! ## Values with a meaning of their own -/

section Mappings

variable {α : Type} (key : α → String) (value : α → Node) (items : List α)

/-- a mapping from which nothing is left out -/
theorem fields_map : fields (items.map fun a => (key a, some (value a))) =
    .map none (items.map fun a => (.text (key a), value a)) := by
  rw [fields, List.filterMap_map]
  exact congrArg (Node.map none) (congrFun List.filterMap_eq_map' items)

theorem meaning_fields {datum : α → Datum} (h : ∀ a, (value a).meaning? = some (datum a)) :
    (fields (items.map fun a => (key a, some (value a)))).meaning? =
      some (.map (items.map fun a => (.text (key a), datum a))) := by
  have hentries : entryMeanings? (items.map fun a => (.text (key a), value a)) =
      some (items.map fun a => (.text (key a), datum a)) := by
    induction items with
    | nil => rfl
    | cons a items ih =>
      rw [List.map_cons, entryMeanings?, Node.meaning?, h a, ih]
      rfl
  rw [fields_map, Node.meaning?, hentries]
  rfl

end Mappings

theorem itemMeanings?_texts (texts : List String) :
    itemMeanings? (texts.map .text) = some (texts.map Datum.text) := by
  induction texts with
  | nil => rfl
  | cons t texts ih =>
    rw [List.map_cons, itemMeanings?, Node.meaning?, ih]
    rfl

theorem readTexts (texts : List String) : (texts.map Datum.text).mapM Datum.readText = .ok texts :=
  mapM_written fun _ _ => rfl

/-- both ends of a range -/
theorem takeRange {s t : String} {least most : Duration} (hs : (Datum.text s).readSpan = .ok least)
    (ht : (Datum.text t).readSpan = .ok most) :
    [(Datum.text "min", Datum.text s), (.text "max", .text t)].foldlM PauseRange.take {} =
      .ok ⟨some least, some most⟩ := by
  simp [PauseRange.take, hs, ht, bind, Except.bind, pure, Except.pure]

theorem toNode?_isNothing {t : ThinkTime} {n : Node} (h : t.toNode? = some n) : n.isNothing = .ok false := by
  cases t with
  | none => cases h
  | fixed pause => cases h; rfl
  | uniform least most => cases h; rfl

theorem readThinkTime_toNode? {t : ThinkTime} {n : Node} (h : t.toNode? = some n) : n.readThinkTime = .ok t := by
  cases t with
  | none => cases h
  | fixed pause =>
    cases h
    rw [span, Node.readThinkTime, Node.meaning?, expect_bind, Datum.readThinkTime, datumSpan_write]
    · rfl
    · intro entries hmap
      cases hmap
  | uniform least most =>
    cases h
    have hmeaning : (fields [("min", some (span least)), ("max", some (span most))]).meaning? =
        some (.map [(.text "min", .text (Phrase.write least)), (.text "max", .text (Phrase.write most))]) := rfl
    rw [Node.readThinkTime, hmeaning, expect_bind, Datum.readThinkTime,
      takeRange (datumSpan_write least) (datumSpan_write most)]
    rfl

/-- the meaning of the expressions for a metric -/
def expressionsDatum : List String → Datum
  | [s] => .text s
  | items => .seq (items.map .text)

theorem meaning_texts (texts : List String) : (Node.seq none (texts.map .text)).meaning? =
    some (.seq (texts.map .text)) := by
  rw [Node.meaning?, itemMeanings?_texts]
  rfl

theorem meaning_oneOrMany (items : List String) : (oneOrMany items).meaning? = some (expressionsDatum items) := by
  match items with
  | [] => rfl
  | [s] => rfl
  | s :: t :: items => exact meaning_texts (s :: t :: items)

theorem readExpressions_datum (items : List String) : (expressionsDatum items).readExpressions = .ok items := by
  match items with
  | [] => rfl
  | [s] => rfl
  | s :: t :: items => exact readTexts (s :: t :: items)

theorem toNode_isNothing (t : ThresholdList) : t.toNode.isNothing = .ok false := by
  cases t <;> rfl

theorem readThresholds_toNode {t : ThresholdList} (h : ∀ m, t = .byMetric m → m.Ascending) :
    t.toNode.readThresholds = .ok t := by
  cases t with
  | byMetric expressions =>
    have hpairs : (expressions.map fun e => (Datum.text e.1, expressionsDatum e.2)).mapM
        (fun e => do return (← e.1.readText, ← e.2.readExpressions)) = (.ok expressions : Outcome _) :=
      mapM_written fun e _ => by
        rw [readExpressions_datum]
        rfl
    have hmeaning : (fields (expressions.map fun e => (e.1, some (oneOrMany e.2)))).meaning? =
        some (.map (expressions.map fun e => (.text e.1, expressionsDatum e.2))) :=
      meaning_fields Prod.fst (fun e => oneOrMany e.2) expressions fun e => meaning_oneOrMany e.2
    rw [ThresholdList.toNode, Node.readThresholds, hmeaning, expect_bind, Datum.readThresholds, hpairs]
    exact congrArg (fun m => Except.ok (ThresholdList.byMetric m)) (Ordered.ofPairs_ascending (h _ rfl))
  | lines texts =>
    rw [ThresholdList.toNode, Node.readThresholds, meaning_texts, expect_bind, Datum.readThresholds, readTexts]
    rfl

theorem readHeaders_fields {headers : Ordered String} (h : headers.Ascending) :
    (fields (headers.map fun e => (e.1, some (.text e.2)))).readHeaders = .ok headers := by
  have hpairs : (headers.map fun e => (Node.text e.1, Node.text e.2)).mapM
      (fun e => do return (← e.1.readText, ← headerText (← expect e.2.meaning?))) =
        (.ok (headers.map fun e => (e.1, some e.2)) : Outcome (List (String × Option String))) :=
    mapM_map_ok fun e _ => rfl
  have hsome : (headers.map fun e => (e.1, some e.2)).filterMap (fun h => h.2.map fun v => (h.1, v)) = headers := by
    rw [List.filterMap_map]
    exact List.filterMap_some
  rw [fields_map Prod.fst fun e => Node.text e.2, Node.readHeaders, Node.readEntries, hpairs]
  simp only [bind, Except.bind, Ordered.ofPairs_ascending (h.mapValues some), hsome]
  rfl

/-! ## Mappings with certain fields -/

/-- What a shape reads from a mapping in which fields of `value?` are written under their names: `only p` is what has
been read when the fields of `p` have been met. -/
structure Document.Shape.Writes {F α : Type} [DecidableEq F] (shape : Shape F α) (text : F → String)
    (value? : F → Option Node) (only : (F → Bool) → α) : Prop where
  name : ∀ f, shape.named? (text f) = some f
  /-- a field that is there is read -/
  present : ∀ p f n, value? f = some n → shape.set (only p) f n = .ok (only fun g => p g || g = f)
  /-- a field that is not there need not be read -/
  absent : ∀ p f, value? f = none → only (fun g => p g || g = f) = only p

section Fields

variable {F α : Type} [DecidableEq F] {shape : Shape F α} {text : F → String} {value? : F → Option Node}
  {only : (F → Bool) → α}

theorem takeEntry_present (h : shape.Writes text value? only) {f : F} {n : Node} {seen : List F} (p : F → Bool)
    (hv : value? f = some n) (hseen : f ∉ seen) :
    shape.takeEntry (only p, seen) (.text (text f), n) = .ok (only fun g => p g || g = f, f :: seen) := by
  simp only [Shape.takeEntry, Node.readText, h.name f, expect, Shape.take, if_neg hseen, h.present p f n hv, bind,
    Except.bind, pure, Except.pure]

/-- fields are read one after another, and those that are left out change nothing -/
theorem foldlM_fields (h : shape.Writes text value? only) {fs seen : List F} (p : F → Bool) (hfs : fs.Nodup)
    (hseen : ∀ f ∈ fs, f ∉ seen) :
    (fs.filterMap fun f => (value? f).map fun n => (Node.text (text f), n)).foldlM shape.takeEntry (only p, seen) =
      .ok (only (fun g => p g || g ∈ fs), (fs.filter fun f => (value? f).isSome).reverse ++ seen) := by
  -- `p` holds the fields behind, also those that were left out, and `seen` only those that were there
  induction fs generalizing p seen with
  | nil => simp [pure, Except.pure]
  | cons f fs ih =>
    obtain ⟨hnew, hrest⟩ := List.nodup_cons.1 hfs
    have hmore : (fun g => (p g || decide (g = f)) || decide (g ∈ fs)) = fun g => p g || decide (g ∈ f :: fs) := by
      funext g
      simp [Bool.or_assoc]
    cases hv : value? f with
    | none =>
      have hskip := ih (fun g => p g || g = f) hrest fun g hg => hseen g (List.mem_cons_of_mem f hg)
      rw [h.absent p f hv, hmore] at hskip
      simpa [List.filterMap_cons, hv] using hskip
    | some n =>
      have htake := takeEntry_present h p hv (hseen f List.mem_cons_self)
      have hfresh : ∀ g ∈ fs, g ∉ f :: seen := by
        intro g hg hmem
        rcases List.mem_cons.1 hmem with rfl | hmem
        · exact hnew hg
        · exact hseen g (List.mem_cons_of_mem f hg) hmem
      have hgo := ih (fun g => p g || g = f) hrest hfresh
      rw [hmore] at hgo
      simp only [List.filterMap_cons, hv, Option.map_some, List.foldlM_cons, htake]
      exact hgo.trans (by simp [hv])

/-- a mapping is read as all that was written -/
theorem read_fields (h : shape.Writes text value? only) (format : Format) (fs : List F) (hfs : fs.Nodup)
    (hall : ∀ f, f ∈ fs) :
    ∃ seen, (∀ f, (value? f).isSome → f ∈ seen) ∧
      shape.read format (only fun _ => false) (fields (fs.map fun f => (text f, value? f))) =
        .ok (only fun _ => true, seen) := by
  have hnone : ∀ f ∈ fs, f ∉ ([] : List F) := fun f _ => List.not_mem_nil
  have hfold := foldlM_fields h (fun _ => false) hfs hnone
  have hentries : (fs.map fun f => (text f, value? f)).filterMap (fun e => e.2.map fun n => (Node.text e.1, n)) =
      fs.filterMap fun f => (value? f).map fun n => (Node.text (text f), n) := by
    rw [List.filterMap_map]
    rfl
  have hevery : (fun g => false || decide (g ∈ fs)) = fun _ => true := by
    funext g
    simp [hall g]
  rw [hevery] at hfold
  refine ⟨(fs.filter fun f => (value? f).isSome).reverse ++ [], fun f hf => by simp [hall f, hf], ?_⟩
  rw [fields, hentries]
  exact hfold

end Fields

/-! ## Stages and requests -/

namespace StageField

def text : StageField → String
  | target => "target"
  | duration => "duration"

def value? (s : Stage) : StageField → Option Node
  | target => some (word s.target)
  | duration => some (span s.duration)

/-- a stage as far as it is read -/
def only (s : Stage) (p : StageField → Bool) : Stage where
  target := if p target then s.target else 0
  duration := if p duration then s.duration else .zero

theorem writes {s : Stage} (h : s.target ≤ Decimal.wordMax) : shape.Writes text (value? s) (only s) where
  name f := by cases f <;> rfl
  present p f n hn := by
    cases f with
    | target =>
      cases hn
      simp [shape, readWord_word h, only, bind, Except.bind, pure, Except.pure]
    | duration =>
      cases hn
      simp [shape, readSpan_span, only, bind, Except.bind, pure, Except.pure]
  absent p f hf := by cases f <;> cases hf

end StageField

theorem readStage_toNode {s : Stage} (h : s.target ≤ Decimal.wordMax) (format : Format) :
    s.toNode.readStage format = .ok s := by
  obtain ⟨seen, hseen, hread⟩ := read_fields (StageField.writes h) format [.target, .duration] (by decide)
    fun f => by cases f <;> decide
  have hstart : StageField.only s (fun _ => false) = ⟨.zero, 0⟩ := rfl
  rw [hstart] at hread
  have htarget : StageField.target ∈ seen := hseen .target rfl
  have hnode : s.toNode = fields ([.target, .duration].map fun f => (f.text, StageField.value? s f)) := rfl
  rw [Node.readStage, hnode, hread]
  exact if_pos htarget

/-- what the types of a request's fields admit: each header once, and statuses of 16 bits -/
structure RequestOptions.WellFormed (r : RequestOptions) : Prop where
  headers : r.headers.Ascending
  statuses : ∀ c ∈ r.expectStatus, c ≤ 65535

namespace RequestField

def text : RequestField → String
  | method => "method"
  | url => "url"
  | headers => "headers"
  | body => "body"
  | expectStatus => "expectStatus"

def value? (r : RequestOptions) : RequestField → Option Node
  | method => r.method.map .text
  | url => some (.text r.url)
  | headers => if r.headers.isEmpty then none else some (fields (r.headers.map fun h => (h.1, some (.text h.2))))
  | body => r.body.map .text
  | expectStatus => list? word r.expectStatus

/-- a request as far as it is read -/
def only (r : RequestOptions) (p : RequestField → Bool) : RequestOptions where
  method := if p method then r.method else none
  url := if p url then r.url else ""
  headers := if p headers then r.headers else []
  body := if p body then r.body else none
  expectStatus := if p expectStatus then r.expectStatus else []

theorem writes {r : RequestOptions} (h : r.WellFormed) : shape.Writes text (value? r) (only r) where
  name f := by cases f <;> rfl
  present p f n hn := by
    cases f with
    | method =>
      obtain ⟨m, hm, rfl⟩ := Option.map_eq_some_iff.1 hn
      simp [shape, optional_text, only, hm, bind, Except.bind, pure, Except.pure]
    | url =>
      cases hn
      simp [shape, Node.readText, only, bind, Except.bind, pure, Except.pure]
    | headers =>
      simp only [value?] at hn
      split at hn
      · cases hn
      · cases hn
        simp [shape, readHeaders_fields h.headers, only, bind, Except.bind, pure, Except.pure]
    | body =>
      obtain ⟨b, hb, rfl⟩ := Option.map_eq_some_iff.1 hn
      simp [shape, optional_text, only, hb, bind, Except.bind, pure, Except.pure]
    | expectStatus =>
      have hread := readList_list? hn fun c hc => readSmallWord_word (h.statuses c hc)
      simp [shape, hread, only, bind, Except.bind, pure, Except.pure]
  absent p f hf := by
    cases f with
    | method | body =>
      have hnone := Option.map_eq_none_iff.1 hf
      simp [only, hnone]
    | url => cases hf
    | headers =>
      have hnil : r.headers = [] := by
        simp only [value?] at hf
        split at hf
        · exact List.isEmpty_iff.1 ‹_›
        · cases hf
      simp [only, hnil]
    | expectStatus =>
      have hnil := list?_eq_none.1 hf
      simp [only, hnil]

end RequestField

theorem readRequest_toNode {r : RequestOptions} (h : r.WellFormed) (format : Format) :
    r.toNode.readRequest format = .ok r := by
  obtain ⟨seen, hseen, hread⟩ := read_fields (RequestField.writes h) format
    [.method, .url, .headers, .body, .expectStatus] (by decide) fun f => by cases f <;> decide
  have hstart : RequestField.only r (fun _ => false) = { url := "" } := rfl
  rw [hstart] at hread
  have hurl : RequestField.url ∈ seen := hseen .url rfl
  have hnode : r.toNode = fields ([.method, .url, .headers, .body, .expectStatus].map fun f =>
      (f.text, RequestField.value? r f)) := rfl
  rw [Node.readRequest, hnode, hread]
  exact if_pos hurl

/-! ## Scenarios -/

/-- what the types of a document's fields admit: words, and maps with each key once -/
structure ScenarioDocument.WellFormed (d : ScenarioDocument) : Prop where
  words : ∀ o ∈ [d.rate, d.startRate, d.preAllocated, d.maxVus, d.vus, d.startVus, d.seed, d.failFast],
    ∀ n ∈ o, n ≤ Decimal.wordMax
  targets : ∀ s ∈ d.stages, s.target ≤ Decimal.wordMax
  requests : ∀ r ∈ d.request.toList ++ d.requests, r.WellFormed
  /-- no think time is written by leaving it out -/
  thinkTime : d.thinkTime ≠ some .none
  thresholds : ∀ m, d.thresholds = some (.byMetric m) → m.Ascending

namespace ScenarioField

/-- a field is found by its name -/
theorem named?_text (f : ScenarioField) : named? f.text = some f := by
  cases f <;> rfl

/-- a document as far as it is read -/
def only (d : ScenarioDocument) (p : ScenarioField → Bool) : ScenarioDocument where
  name := if p name then d.name else none
  executor := if p executor then d.executor else none
  rate := if p rate then d.rate else none
  startRate := if p startRate then d.startRate else none
  timeUnit := if p timeUnit then d.timeUnit else none
  preAllocated := if p preAllocated then d.preAllocated else none
  maxVus := if p maxVus then d.maxVus else none
  vus := if p vus then d.vus else none
  startVus := if p startVus then d.startVus else none
  duration := if p duration then d.duration else none
  stages := if p stages then d.stages else []
  gracefulStop := if p gracefulStop then d.gracefulStop else none
  thinkTime := if p thinkTime then d.thinkTime else none
  timeout := if p timeout then d.timeout else none
  seed := if p seed then d.seed else none
  failFast := if p failFast then d.failFast else none
  url := if p url then d.url else none
  request := if p request then d.request else none
  requests := if p requests then d.requests else []
  thresholds := if p thresholds then d.thresholds else none

/-- one more field of the document -/
def copy (d a : ScenarioDocument) : ScenarioField → ScenarioDocument
  | name => { a with name := d.name }
  | executor => { a with executor := d.executor }
  | rate => { a with rate := d.rate }
  | startRate => { a with startRate := d.startRate }
  | timeUnit => { a with timeUnit := d.timeUnit }
  | preAllocated => { a with preAllocated := d.preAllocated }
  | maxVus => { a with maxVus := d.maxVus }
  | vus => { a with vus := d.vus }
  | startVus => { a with startVus := d.startVus }
  | duration => { a with duration := d.duration }
  | stages => { a with stages := d.stages }
  | gracefulStop => { a with gracefulStop := d.gracefulStop }
  | thinkTime => { a with thinkTime := d.thinkTime }
  | timeout => { a with timeout := d.timeout }
  | seed => { a with seed := d.seed }
  | failFast => { a with failFast := d.failFast }
  | url => { a with url := d.url }
  | request => { a with request := d.request }
  | requests => { a with requests := d.requests }
  | thresholds => { a with thresholds := d.thresholds }

theorem copy_only (d : ScenarioDocument) (p : ScenarioField → Bool) (f : ScenarioField) :
    copy d (only d p) f = only d fun g => p g || g = f := by
  cases f <;> simp [copy, only]

/-- a field that is there is read as its value -/
theorem set_value {d : ScenarioDocument} (h : d.WellFormed) (format : Format) (a : ScenarioDocument) {f : ScenarioField}
    {n : Node} (hn : d.value? f = some n) : (shape format).set a f n = .ok (copy d a f) := by
  cases f with
  | name | executor | url =>
    obtain ⟨s, hs, rfl⟩ := Option.map_eq_some_iff.1 hn
    simp [shape, set, optional_text, copy, hs, bind, Except.bind, pure, Except.pure]
  | rate | startRate | preAllocated | maxVus | vus | startVus | seed | failFast =>
    obtain ⟨w, hw, rfl⟩ := Option.map_eq_some_iff.1 hn
    have hle : w ≤ Decimal.wordMax := h.words (some w) (by simp [hw]) w rfl
    simp [shape, set, optional_word hle, copy, hw, bind, Except.bind, pure, Except.pure]
  | timeUnit | duration | gracefulStop | timeout =>
    obtain ⟨t, ht, rfl⟩ := Option.map_eq_some_iff.1 hn
    simp [shape, set, optional_span, copy, ht, bind, Except.bind, pure, Except.pure]
  | stages =>
    have hread := readList_list? hn fun s hs => readStage_toNode (h.targets s hs) format
    simp [shape, set, hread, copy, bind, Except.bind, pure, Except.pure]
  | thinkTime =>
    obtain ⟨t, ht, htn⟩ := Option.bind_eq_some_iff.1 hn
    have hread := optional_eq_ok (toNode?_isNothing htn) (readThinkTime_toNode? htn)
    simp [shape, set, hread, copy, ht, bind, Except.bind, pure, Except.pure]
  | request =>
    obtain ⟨r, hr, rfl⟩ := Option.map_eq_some_iff.1 hn
    have hread := optional_eq_ok rfl (readRequest_toNode (h.requests r (by simp [hr])) format)
    simp [shape, set, hread, copy, hr, bind, Except.bind, pure, Except.pure]
  | requests =>
    have hread := readList_list? hn fun r hr => readRequest_toNode (h.requests r (by simp [hr])) format
    simp [shape, set, hread, copy, bind, Except.bind, pure, Except.pure]
  | thresholds =>
    obtain ⟨t, ht, rfl⟩ := Option.map_eq_some_iff.1 hn
    have hvalue : t.toNode.readThresholds = .ok t :=
      readThresholds_toNode fun m hm => h.thresholds m (by rw [ht, hm])
    have hread := optional_eq_ok (toNode_isNothing t) hvalue
    simp [shape, set, hread, copy, ht, bind, Except.bind, pure, Except.pure]

/-- a field that is left out has its default -/
theorem only_absent {d : ScenarioDocument} (h : d.WellFormed) (p : ScenarioField → Bool) {f : ScenarioField}
    (hf : d.value? f = none) : (only d fun g => p g || g = f) = only d p := by
  cases f with
  | name | executor | url | rate | startRate | preAllocated | maxVus | vus | startVus | seed | failFast | timeUnit
  | duration | gracefulStop | timeout | request | thresholds =>
    have hnone := Option.map_eq_none_iff.1 hf
    simp [only, hnone]
  | stages | requests =>
    have hnil := list?_eq_none.1 hf
    simp [only, hnil]
  | thinkTime =>
    have hnone : d.thinkTime = none := by
      cases ht : d.thinkTime with
      | none => rfl
      | some t =>
        cases t with
        | none => exact absurd ht h.thinkTime
        | fixed pause => simp [ScenarioDocument.value?, ht, ThinkTime.toNode?] at hf
        | uniform least most => simp [ScenarioDocument.value?, ht, ThinkTime.toNode?] at hf
    simp [only, hnone]

theorem writes {d : ScenarioDocument} (h : d.WellFormed) (format : Format) :
    (shape format).Writes text d.value? (only d) where
  name := named?_text
  present p f n hn := by rw [set_value h format (only d p) hn, copy_only]
  absent p f hf := only_absent h p hf

end ScenarioField

/-- **A document that is written is read as it was.** -/
theorem ofNode_toNode {d : ScenarioDocument} (h : d.WellFormed) (format : Format) :
    ScenarioDocument.ofNode format d.toNode = .ok d := by
  obtain ⟨seen, -, hread⟩ := read_fields (ScenarioField.writes h format) format ScenarioField.all (by decide)
    fun f => by cases f <;> decide
  have hstart : ScenarioField.only d (fun _ => false) = {} := rfl
  rw [hstart] at hread
  rw [ScenarioDocument.ofNode, ScenarioDocument.toNode, hread]
  rfl

/-- a tree that reads back as the tree of a document is read as the document -/
theorem ofNode_readBack {d : ScenarioDocument} (h : d.WellFormed) {n : Node} (hn : d.toNode.ReadBack n) :
    ScenarioDocument.ofNode .yaml n = .ok d :=
  faithful_ofNode hn (ofNode_toNode h .yaml)

end LoadGen
