/-
Numbers of seconds that are too large for a span of time. Loading a scenario ends with the scenario or with an error
that says what is wrong with the file, unless the document has a span of `2 ^ 64` seconds or more, as a float, and all
that stands before it can be read.

- `readSpan_overruns`, `exists_readSpan_iff`: what becomes of a number where a span of time stands.
- `overruns_ofNode`: the documents in which such a duration is reached, field by field.
- `Scenario.load_unrepresentable_iff`: the files that cannot be loaded for it.
-/
import LoadGen.Proofs.Document.Overrun
import LoadGen.Proofs.Time.Seconds
import LoadGen.Scenario.Load

namespace LoadGen

open Document Decimal

/-! ## Spans of time -/

namespace Document

/-- a number of seconds that a span of time can hold -/
def Number.HasSpan : Number → Prop
  | .nat _ => True
  | .negative _ => False
  | .real x => x.isFinite = true ∧ ¬x < 0.0 ∧ ¬wordLimit ≤ x

/-- a number of seconds beyond the longest span of time -/
def Number.IsOverlong : Number → Prop
  | .nat _ | .negative _ => False
  | .real x => x.isFinite = true ∧ wordLimit ≤ x

def Datum.IsOverlong (d : Datum) : Prop :=
  ∃ m : Number, d = .number m ∧ m.IsOverlong

def Node.IsOverlong (n : Node) : Prop :=
  ∃ d, n.meaning? = some d ∧ d.IsOverlong

theorem Datum.IsOverlong.ne_null {d : Datum} (h : d.IsOverlong) : d ≠ .null := by
  obtain ⟨m, rfl, -⟩ := h
  intro hnull
  cases hnull

end Document

/-- a float that is no negative number and not beyond the floats is a span unless it is too large -/
theorem readSpan_real {x : Float} (hfinite : x.isFinite = true) (hneg : ¬x < 0.0) :
    ((∃ d, (Datum.number (.real x)).readSpan = .ok d) ↔ ¬wordLimit ≤ x) ∧
    ((Datum.number (.real x)).readSpan = .error .unrepresentable ↔ wordLimit ≤ x) := by
  have hguard : ¬(!x.isFinite || decide (x < 0.0)) = true := by simp [hfinite, hneg]
  rw [Datum.readSpan, if_neg hguard, ← Duration.ofSeconds?_eq_none_iff hfinite hneg]
  cases Duration.ofSeconds? x with
  | none => exact ⟨iff_of_false (fun ⟨_, h⟩ => by cases h) fun h => h rfl, iff_of_true rfl rfl⟩
  | some d => exact ⟨iff_of_true ⟨d, rfl⟩ (by simp), iff_of_false (by simp) (by simp)⟩

theorem readSpan_refused {x : Float} (h : ¬(x.isFinite = true ∧ ¬x < 0.0)) :
    (Datum.number (.real x)).readSpan = .error .malformed := by
  have hguard : (!x.isFinite || decide (x < 0.0)) = true := by
    by_cases hfinite : x.isFinite = true
    · simpa [hfinite] using h
    · simp [hfinite]
  rw [Datum.readSpan, if_pos hguard]

/-- the numbers that are spans of time -/
theorem exists_readSpan_iff (m : Number) : (∃ d, (Datum.number m).readSpan = .ok d) ↔ m.HasSpan := by
  cases m with
  | nat n => exact iff_of_true ⟨_, rfl⟩ trivial
  | negative n => exact iff_of_false (fun ⟨_, h⟩ => by cases h) id
  | real x =>
    rw [Number.HasSpan, ← and_assoc]
    by_cases hguard : x.isFinite = true ∧ ¬x < 0.0
    · rw [(readSpan_real hguard.1 hguard.2).1, and_iff_right hguard]
    · rw [readSpan_refused hguard]
      exact iff_of_false (fun ⟨_, h⟩ => by cases h) fun h => hguard h.1

/-- the numbers that are too large -/
theorem readSpan_number_overruns (m : Number) : (Datum.number m).readSpan = .error .unrepresentable ↔ m.IsOverlong := by
  cases m with
  | nat n => exact iff_of_false (fun h => by cases h) id
  | negative n => exact iff_of_false (fun h => by cases h) id
  | real x =>
    rw [Number.IsOverlong]
    by_cases hguard : x.isFinite = true ∧ ¬x < 0.0
    · rw [(readSpan_real hguard.1 hguard.2).2, and_iff_right hguard.1]
    · rw [readSpan_refused hguard]
      exact iff_of_false (fun h => by cases h) fun h => hguard ⟨h.1, not_lt_zero h.2⟩

theorem readSpan_overruns (d : Datum) : d.readSpan = .error .unrepresentable ↔ d.IsOverlong := by
  cases d with
  | number m =>
    rw [readSpan_number_overruns]
    exact ⟨fun h => ⟨m, rfl, h⟩, fun ⟨_, heq, h⟩ => by cases heq; exact h⟩
  | text s => exact iff_of_false (expect_timeless _) fun ⟨_, h, _⟩ => by cases h
  | null | bool b | seq items | map entries => exact iff_of_false (fun h => by cases h) fun ⟨_, h, _⟩ => by cases h

theorem overruns_readSpan : Overruns Node.readSpan Node.IsOverlong := by
  intro n
  refine (overruns_meaning Datum.readSpan n).trans (exists_congr fun d => ?_)
  rw [readSpan_overruns]

theorem overruns_optionalSpan : Overruns (Node.optional Node.readSpan) Node.IsOverlong :=
  overruns_readSpan.optional_of_meaning fun _ ⟨d, hd, h⟩ => ⟨d, hd, h.ne_null⟩

/-! ## Think times -/

namespace PauseRange

/-- a key that calls the lesser end of a range, by its name or its number -/
def IsMin (key : Datum) : Prop :=
  key = .text "min" ∨ key = .number (.nat 0)

/-- a key that calls the greater end -/
def IsMax (key : Datum) : Prop :=
  key = .text "max" ∨ key = .number (.nat 1)

/-- the key calls an end of the range that has not been read yet -/
def Awaits (r : PauseRange) (key : Datum) : Prop :=
  IsMin key ∧ r.min = none ∨ IsMax key ∧ r.max = none

theorem IsMin.not_isMax {key : Datum} (h : IsMin key) : ¬IsMax key := by
  rcases h with rfl | rfl <;> simp [IsMax]

/-- an end is read unless it is there already -/
theorem readEnd_overruns (old : Option Duration) (value : Datum) (f : Duration → PauseRange) :
    (if old.isSome then .error .malformed else do return f (← value.readSpan) : Outcome PauseRange) =
      .error .unrepresentable ↔ old = none ∧ value.readSpan = .error .unrepresentable := by
  cases old with
  | some d => exact iff_of_false (fun h => by cases h) fun h => by cases h.1
  | none => exact (bind_overruns fun _ h => by cases h).trans (and_iff_right rfl).symm

theorem take_other {key : Datum} (hmin : ¬IsMin key) (hmax : ¬IsMax key) (r : PauseRange) (value : Datum) :
    r.take (key, value) ≠ .error .unrepresentable := by
  simp only [IsMin, IsMax, not_or] at hmin hmax
  intro h
  match key with
  | .text s =>
    have hs : s ≠ "min" ∧ s ≠ "max" := ⟨fun h => hmin.1 (congrArg _ h), fun h => hmax.1 (congrArg _ h)⟩
    simp only [take, if_neg hs.1, if_neg hs.2] at h
    cases h
  | .number (.nat n) =>
    have hn : n ≠ 0 ∧ n ≠ 1 := by
      constructor
      · rintro rfl
        exact hmin.2 rfl
      · rintro rfl
        exact hmax.2 rfl
    simp only [take, if_neg hn.1, if_neg hn.2] at h
    cases h
  | .null | .bool b | .number (.negative n) | .number (.real x) | .seq items | .map entries => cases h

theorem take_overruns (r : PauseRange) (key value : Datum) :
    r.take (key, value) = .error .unrepresentable ↔ r.Awaits key ∧ value.IsOverlong := by
  rw [← readSpan_overruns, Awaits]
  by_cases hmin : IsMin key
  · have htake : r.take (key, value) = if r.min.isSome then .error .malformed
        else do return { r with min := some (← value.readSpan) } := by
      rcases hmin with rfl | rfl <;> rfl
    rw [htake, readEnd_overruns r.min value fun d => { r with min := some d }, and_iff_right hmin,
      or_iff_left fun h => hmin.not_isMax h.1]
  · by_cases hmax : IsMax key
    · have htake : r.take (key, value) = if r.max.isSome then .error .malformed
          else do return { r with max := some (← value.readSpan) } := by
        rcases hmax with rfl | rfl <;> rfl
      rw [htake, readEnd_overruns r.max value fun d => { r with max := some d }, and_iff_right hmax,
        or_iff_right fun h => hmin h.1]
    · exact iff_of_false (take_other hmin hmax r value) fun h => h.1.elim (fun h => hmin h.1) fun h => hmax h.1

end PauseRange

namespace Document.Datum

/-- a pause is too long, or an end of a range of pauses before which everything can be read -/
def HasOverlongPause : Datum → Prop
  | map entries => ∃ before key value after r, entries = before ++ (key, value) :: after ∧
      before.foldlM PauseRange.take {} = .ok r ∧ r.Awaits key ∧ value.IsOverlong
  | d => d.IsOverlong

theorem readThinkTime_overruns (d : Datum) : d.readThinkTime = .error .unrepresentable ↔ d.HasOverlongPause := by
  match d with
  | map entries =>
    -- a range that lacks an end is refused only after all its entries have been read
    refine (bind_overruns fun r h => by split at h <;> cases h).trans (foldlM_eq_error.trans ?_)
    constructor
    · rintro ⟨before, ⟨key, value⟩, after, r, heq, hbefore, htake⟩
      exact ⟨before, key, value, after, r, heq, hbefore, (PauseRange.take_overruns r key value).1 htake⟩
    · rintro ⟨before, key, value, after, r, heq, hbefore, htake⟩
      exact ⟨before, (key, value), after, r, heq, hbefore, (PauseRange.take_overruns r key value).2 htake⟩
  | null | bool b | number m | text s | seq items =>
    simp only [readThinkTime, map_eq_error]
    exact readSpan_overruns _

theorem HasOverlongPause.ne_null {d : Datum} (h : d.HasOverlongPause) : d ≠ .null := by
  rintro rfl
  exact Datum.IsOverlong.ne_null h rfl

end Document.Datum

/-- a node whose pause, or range of pauses, is too long -/
def Document.Node.HasOverlongPause (n : Node) : Prop :=
  ∃ d, n.meaning? = some d ∧ d.HasOverlongPause

theorem overruns_readThinkTime : Overruns Node.readThinkTime Node.HasOverlongPause := by
  intro n
  refine (overruns_meaning Datum.readThinkTime n).trans (exists_congr fun d => ?_)
  rw [Datum.readThinkTime_overruns]

theorem overruns_optionalThinkTime : Overruns (Node.optional Node.readThinkTime) Node.HasOverlongPause :=
  overruns_readThinkTime.optional_of_meaning fun _ ⟨d, hd, h⟩ => ⟨d, hd, h.ne_null⟩

/-! ## Fields without a span -/

theorem datumText_timeless : Timeless Datum.readText := by
  intro d h
  cases d <;> cases h

theorem readExpressions_timeless : Timeless Datum.readExpressions := by
  intro d h
  cases d with
  | seq items => exact datumText_timeless.mapM items h
  | null | bool b | number m | text s | map entries => cases h

theorem datumThresholds_timeless : Timeless Datum.readThresholds := by
  intro d
  match d with
  | .map entries =>
    have hentry : Timeless fun e : Datum × Datum => do return (← e.1.readText, ← e.2.readExpressions) :=
      fun e => bind_timeless (datumText_timeless e.1) fun _ => readExpressions_timeless.map _ e.2
    exact bind_timeless (hentry.mapM entries) fun _ h => by cases h
  | .seq items => exact fun h => datumText_timeless.mapM items (map_eq_error.1 h)
  | .null | .bool b | .number m | .text s => exact fun h => by cases h

theorem readThresholds_timeless : Timeless Node.readThresholds :=
  fun _ => bind_timeless (expect_timeless _) datumThresholds_timeless

theorem headerText_timeless : Timeless headerText := by
  intro d h
  unfold headerText at h
  split at h <;> cases h

theorem readHeaders_timeless : Timeless Node.readHeaders := by
  refine (readEntries_timeless fun e => ?_).map _
  exact bind_timeless (readText_timeless e.1) fun _ => bind_timeless (expect_timeless _) (headerText_timeless.map _)

theorem requestSet_timeless (r : RequestOptions) (f : RequestField) : Timeless (RequestField.shape.set r f) := by
  cases f with
  | method | body => exact readText_timeless.optional.map _
  | url => exact readText_timeless.map _
  | headers => exact readHeaders_timeless.map _
  | expectStatus => exact readSmallWord_timeless.readList.map _

theorem readRequest_timeless (format : Format) : Timeless (Node.readRequest format) :=
  (Timeless.readShape requestSet_timeless format _).bind fun (_, _) => pure_or_malformed

/-! ## Documents -/

/-- the value of a stage's field is a span of time that is too long -/
def StageField.Overlong : StageField → Node → Prop
  | .target, _ => False
  | .duration, n => n.IsOverlong

/-- a stage in which a duration that is too long is reached -/
def Document.Node.IsOverlongStage (format : Format) (n : Node) : Prop :=
  StageField.shape.Meets StageField.Overlong ⟨.zero, 0⟩ format n

theorem overruns_stageSet (s : Stage) (f : StageField) : Overruns (StageField.shape.set s f) f.Overlong := by
  cases f with
  | target => exact (readWord_timeless.map _).overruns
  | duration => exact overruns_readSpan.map _

theorem overruns_readStage (format : Format) : Overruns (Node.readStage format) (Node.IsOverlongStage format) :=
  fun n => (bind_overruns fun (_, _) => pure_or_malformed).trans (Overruns.readShape overruns_stageSet format _ n)

/-- in the value of a field a span of time that is too long is reached -/
def ScenarioField.Overlong (format : Format) : ScenarioField → Node → Prop
  | .timeUnit, n | .duration, n | .gracefulStop, n | .timeout, n => n.IsOverlong
  | .thinkTime, n => n.HasOverlongPause
  | .stages, n => n.MeetsItem (Node.readStage format) (Node.IsOverlongStage format)
  | _, _ => False

/-- a document in which a span of time that is too long is reached -/
def ScenarioDocument.IsOverlong (format : Format) (n : Node) : Prop :=
  (ScenarioField.shape format).Meets (ScenarioField.Overlong format) {} format n

theorem overruns_scenarioSet (format : Format) (d : ScenarioDocument) (f : ScenarioField) :
    Overruns ((ScenarioField.shape format).set d f) (f.Overlong format) := by
  cases f with
  | name | executor | url => exact (readText_timeless.optional.map _).overruns
  | rate | startRate | preAllocated | maxVus | vus | startVus | seed | failFast =>
    exact (readWord_timeless.optional.map _).overruns
  | timeUnit | duration | gracefulStop | timeout => exact overruns_optionalSpan.map _
  | stages => exact (overruns_readStage format).readList.map _
  | thinkTime => exact overruns_optionalThinkTime.map _
  | request => exact ((readRequest_timeless format).optional.map _).overruns
  | requests => exact ((readRequest_timeless format).readList.map _).overruns
  | thresholds => exact (readThresholds_timeless.optional.map _).overruns

theorem overruns_ofNode (format : Format) :
    Overruns (ScenarioDocument.ofNode format) (ScenarioDocument.IsOverlong format) :=
  (Overruns.readShape (overruns_scenarioSet format) format {}).map _

/-! ## Files -/

theorem ScenarioDocument.read_overruns (format : Format) (bytes : List Nat) :
    ScenarioDocument.read format bytes = .error .unrepresentable ↔
      ScenarioDocument.IsOverlong format (format.read bytes).1 :=
  (bind_overruns fun _ => pure_or_malformed).trans (overruns_ofNode format _)

/-- what is wrong with a scenario is said in its message -/
theorem mapError_ne_unrepresentable {α ε : Type} {f : ε → LoadError} (hf : ∀ e, f e ≠ .unrepresentable)
    (x : Except ε α) : x.mapError f ≠ .error .unrepresentable := by
  cases x with
  | ok a => exact fun h => by cases h
  | error e => exact fun h => hf e (Except.error.inj h)

theorem ScenarioOptions.load_overruns (file : String) (bytes : Option (List Nat)) :
    ScenarioOptions.load file bytes = .error .unrepresentable ↔ ∃ content, bytes = some content ∧
      ScenarioDocument.IsOverlong (FileName.format file) ((FileName.format file).read content).1 := by
  cases bytes with
  | none => exact iff_of_false (fun h => by cases h) fun ⟨_, h, _⟩ => by cases h
  | some content =>
    simp only [Option.some.injEq, exists_eq_left', ← ScenarioDocument.read_overruns]
    rw [ScenarioOptions.load]
    split
    · rename_i hread
      rw [hread]
      exact iff_of_false (fun h => by cases h) fun h => by cases h
    · rename_i hread
      exact iff_of_true rfl hread
    · rename_i d hread
      rw [hread]
      exact iff_of_false (mapError_ne_unrepresentable (fun _ h => by cases h) _) fun h => by cases h

/-- **A file is loaded or refused** with an error that says what is wrong with it, whatever its bytes and whatever
overrides are given, except for one kind of file: where the reading of the document comes to a span of time that is a
finite float of `2 ^ 64` or more, there is neither. The numbers below are spans of time, or refused: the negative ones
and those that are beyond the floats. -/
theorem Scenario.load_unrepresentable_iff (file : String) (bytes : Option (List Nat)) (v : Overrides) :
    (Scenario.load file bytes v = .error .unrepresentable ↔ ∃ content, bytes = some content ∧
      ScenarioDocument.IsOverlong (FileName.format file) ((FileName.format file).read content).1) ∧
    ∀ m : Number, ((∃ d, (Datum.number m).readSpan = .ok d) ↔ m.HasSpan) ∧
      ((Datum.number m).readSpan = .error .unrepresentable ↔ m.IsOverlong) := by
  refine ⟨?_, fun m => ⟨exists_readSpan_iff m, readSpan_number_overruns m⟩⟩
  rw [← ScenarioOptions.load_overruns, Scenario.load, bind_eq_error]
  refine or_iff_left ?_
  -- once the document is read, its options are told what is wrong with them
  rintro ⟨o, -, h⟩
  exact mapError_ne_unrepresentable (fun _ h => by cases h) _ h

/-- neither a scenario nor an error that says what is wrong with the file -/
instance decidableUnrepresentable (x : Except LoadError Scenario) : Decidable (x = .error .unrepresentable) :=
  match x with
  | .error .unrepresentable => isTrue rfl
  | .ok _ | .error (.unreadable _) | .error (.malformed ..) | .error (.document _) | .error (.scenario _) =>
    isFalse fun h => by cases h

/-- a duration of `10 ^ 20` seconds -/
theorem Scenario.load_overlong_duration : Scenario.load "run.yaml"
    (some (Text.encodeUtf8 "url: http://a/\nvus: 1\nduration: 1e20\n".toList)) {} = .error .unrepresentable := by
  decide +kernel

end LoadGen
