/-
The spellings of a threshold. Metric and expression may stand apart, on one line with a colon between them, or on one
line with a blank; a threshold that was read is read again from each of them.

- `isWord_of_metric?`, `eq_status_of_head`: a metric is a word, and only `status` starts like `status`.
- `Demands.free`: no expression holds a colon.
- `divideLine_colon`, `divideLine_blank`: a line comes apart where its two texts were put together.
- `spellings_agree`: every spelling is read as the same threshold, and so is what a document keeps of a line.
-/
import LoadGen.Proofs.Scenario.Checks
import LoadGen.Proofs.Threshold.Grammar
import LoadGen.Proofs.Threshold.Grouping

namespace LoadGen.Threshold

variable {name metric expression : String} {target : Metric} {fixed : Option Aggregation} {a : Aggregation}
  {s : List Char} {t : Threshold}

/-! ## Metrics -/

/-- the metrics whose names do not carry an aggregation -/
def plainMetrics : List String :=
  ["http_req_duration", "latency", "latency_ms", "http_reqs", "iterations", "http_req_failed", "checks",
    "dropped_iterations", "status"]

theorem metric?_cases (h : metric? name = some (target, fixed)) :
    name ∈ plainMetrics ∨ ∃ short a, name.toList = short ++ "_latency_ms".toList ∧ aggregation? short = some a := by
  unfold metric? at h
  split at h
  case h_10 =>
    obtain ⟨short, hshort, h⟩ := Option.bind_eq_some_iff.1 h
    obtain ⟨a, ha, -⟩ := Option.bind_eq_some_iff.1 h
    exact .inr ⟨short, a, Text.beforeEnd?_eq_some.1 hshort, ha⟩
  all_goals exact .inl (by decide)

theorem isWord_of_metric? (h : metric? name = some (target, fixed)) : name.toList ≠ [] ∧ IsWord name.toList := by
  rcases metric?_cases h with hmem | ⟨short, a, hname, ha⟩
  · have hplain : ∀ name ∈ plainMetrics, name.toList ≠ [] ∧ name.toList.all isWordChar = true := by decide
    exact (hplain name hmem).imp_right List.all_eq_true.1
  · obtain ⟨hne, hword⟩ := isWord_of_aggregation? ha
    rw [hname]
    exact ⟨List.append_ne_nil_of_left_ne_nil hne _, List.forall_mem_append.2 ⟨hword, List.all_eq_true.1 (by decide)⟩⟩

/-- no aggregation starts with the letter that `status` starts with -/
theorem head_of_aggregation? (h : aggregation? s = some a) : s.head? ≠ some 's' := by
  intro hs
  have hlower : (Text.lowerAscii s).head? = some 's' := by
    rw [Text.lowerAscii, List.head?_map, hs]
    rfl
  have hnamed {name : String} (hs : String.ofList (Text.lowerAscii s) = name) (hname : name.toList.head? ≠ some 's') :
      False := hname (by rw [← hs, String.toList_ofList]; exact hlower)
  unfold aggregation? at h
  simp only at h
  split at h
  case h_7 =>
    obtain ⟨inner, hinner, -⟩ := Option.bind_eq_some_iff.1 h
    rcases percentileText?_cases hinner with heq | heq <;> rw [heq] at hlower <;> cases hlower
  all_goals
    rename_i heq
    exact hnamed heq (by decide)

/-- `status` is the only metric that starts with its first letter -/
theorem eq_status_of_head (h : metric? name = some (target, fixed)) (hs : name.toList.head? = some 's') :
    name = "status" := by
  rcases metric?_cases h with hmem | ⟨short, a, hname, ha⟩
  · have hplain : ∀ name ∈ plainMetrics, name.toList.head? = some 's' → name = "status" := by decide
    exact hplain name hmem hs
  · rw [hname, List.head?_append_of_ne_nil _ (isWord_of_aggregation? ha).1] at hs
    exact absurd hs (head_of_aggregation? ha)

/-! ## Expressions -/

theorem not_colon_of_isWord (h : IsWord s) : ∀ c ∈ s, c ≠ ':' :=
  fun c hc => (wordChar_rules (h c hc)).2.1

/-- no expression holds a colon -/
theorem Demands.free {check : Check} (h : Demands target fixed s check) : ∀ c ∈ s, c ≠ ':' := by
  cases h with
  | @statusIn brackets items codes _ enclosed codes_of _ =>
    have hitems : ∀ c ∈ List.intercalate [','] items, c ≠ ':' :=
      Text.forall_mem_intercalate (by decide) fun item hitem => not_colon_of_isWord (codes_of.isWord item hitem)
    have hbrackets : brackets.1 ≠ ':' ∧ brackets.2 ≠ ':' := by rcases enclosed with rfl | rfl <;> decide
    refine List.forall_mem_append.2 ⟨by simp, List.forall_mem_cons.2 ⟨hbrackets.1, ?_⟩⟩
    exact List.forall_mem_append.2 ⟨hitems, List.forall_mem_singleton.2 hbrackets.2⟩
  | @compare left right op _ _ _ means _ _ value =>
    have htoken : ∀ c ∈ op.token, c ≠ ':' := by cases op <;> simp [Comparison.token]
    have hright := not_colon_of_isWord (isWord_of_readFloat? value).2
    exact List.forall_mem_append.2 ⟨List.forall_mem_append.2 ⟨not_colon_of_isWord means.isWord, htoken⟩, hright⟩

/-- a threshold that was read has the name of its metric and an expression that demands something of it -/
theorem read_demands (h : read metric expression = .ok t) : ∃ fixed, metric? t.metric = some (t.target, fixed) ∧
    Demands t.target fixed (Text.compact t.expression.toList) t.check := by
  obtain ⟨-, -, hcheck⟩ := read_eq_ok (read_text h)
  exact readCheck_eq_ok_iff.1 hcheck

theorem expression_free (h : read metric expression = .ok t) : ∀ c ∈ t.expression.toList, c ≠ ':' := by
  rintro c hc rfl
  obtain ⟨fixed, -, hdemands⟩ := read_demands h
  have hmem : ':' ∈ Text.compact t.expression.toList := List.mem_filter.2 ⟨hc, by decide⟩
  exact hdemands.free ':' hmem rfl

theorem expression_ne_nil (h : read metric expression = .ok t) : t.expression.toList ≠ [] := by
  intro hnil
  obtain ⟨fixed, -, hdemands⟩ := read_demands h
  refine hdemands.ne_nil ?_
  rw [hnil]
  rfl

/-! ## Lines -/

theorem readLine_eq {line : String} {m e : List Char} (h : divideLine (Text.trim line.toList) = (m, e)) :
    readLine line = read (String.ofList m) (String.ofList e) := by
  simp only [readLine, h]

/-- blanks around the two texts of a threshold do not matter -/
theorem read_of_trim {m e : List Char} (h : read metric expression = .ok t)
    (hm : Text.trim m = t.metric.toList) (he : Text.trim e = t.expression.toList) :
    read (String.ofList m) (String.ofList e) = .ok t := by
  obtain ⟨-, -, hcheck⟩ := read_eq_ok (read_text h)
  have hcompact : Text.compact e = Text.compact t.expression.toList := by rw [← he, Text.compact_trim]
  unfold read
  simp only [String.toList_ofList, hm, he, String.ofList_toList, hcompact, hcheck]

/-- a line with a colon behind its metric -/
theorem divideLine_colon {m e : List Char} (hm : IsWord m) : divideLine (m ++ ':' :: e) = (m, e) := by
  unfold divideLine
  rw [Text.splitOnce_first (not_colon_of_isWord hm)]

/-- a line without a colon, with a blank behind its metric -/
theorem divideLine_blank {e : List Char} (h : metric? name = some (target, fixed)) (he : ∀ c ∈ e, c ≠ ':') :
    divideLine (name.toList ++ ' ' :: e) = (name.toList, ' ' :: e) := by
  obtain ⟨hne, hword⟩ := isWord_of_metric? h
  have hfree : ∀ c ∈ name.toList ++ ' ' :: e, c ≠ ':' :=
    List.forall_mem_append.2 ⟨not_colon_of_isWord hword, List.forall_mem_cons.2 ⟨by decide, he⟩⟩
  unfold divideLine
  rw [Text.splitOnce_eq_none hfree]
  cases hstatus : Text.afterStart? "status".toList (name.toList ++ ' ' :: e) with
  | some rest =>
    -- the line starts with the first letter of `status`, so its metric does
    have hline := Text.afterStart?_eq_some.1 hstatus
    have hhead : name.toList.head? = some 's' := by
      have happend : (name.toList ++ ' ' :: e).head? = name.toList.head? := List.head?_append_of_ne_nil _ hne
      rw [← happend, hline]
      rfl
    obtain rfl := eq_status_of_head h hhead
    rw [List.append_cancel_left hline]
  | none =>
    have hrun : ∀ c ∈ name.toList, (!endsMetric c) = true := fun c hc => by rw [(wordChar_rules (hword c hc)).1]; rfl
    have hend : ∀ c ∈ (' ' :: e).head?, (!endsMetric c) = false := by
      intro c hc
      cases hc
      decide
    simp only [Text.takeWhile_run hrun hend, Text.dropWhile_run hrun hend]

/-- a metric, some mark and an expression on one line: there is nothing to be trimmed -/
theorem trim_line (h : read metric expression = .ok t) (mark : List Char) :
    Text.trim (t.metric.toList ++ mark ++ t.expression.toList) = t.metric.toList ++ mark ++ t.expression.toList := by
  obtain ⟨hmetric, hexpression, -⟩ := read_eq_ok h
  obtain ⟨fixed, hname, -⟩ := read_demands h
  refine Text.trim_of_ends (fun c hc => ?_) fun c hc => ?_
  · rw [List.append_assoc, List.head?_append_of_ne_nil _ (isWord_of_metric? hname).1, hmetric,
      String.toList_ofList] at hc
    exact Text.head_trim c hc
  · rw [List.getLast?_append_of_ne_nil _ (expression_ne_nil h), hexpression, String.toList_ofList] at hc
    exact Text.last_trim c hc

/-- a line that comes apart into the metric and the expression behind a blank -/
theorem readLine_of_divide {line : String} (h : read metric expression = .ok t)
    (hdivide : divideLine (Text.trim line.toList) = (t.metric.toList, ' ' :: t.expression.toList)) :
    readLine line = .ok t := by
  obtain ⟨hmetric, hexpression, -⟩ := read_eq_ok h
  have hblank : Text.trim (' ' :: t.expression.toList) = Text.trim t.expression.toList :=
    congrArg Text.trimRight (List.dropWhile_cons_of_pos (by decide))
  rw [readLine_eq hdivide]
  refine read_of_trim h ?_ ?_
  · rw [hmetric, String.toList_ofList, Text.trim_trim]
  · rw [hblank, hexpression, String.toList_ofList, Text.trim_trim]

theorem readLine_text (h : read metric expression = .ok t) : readLine t.text = .ok t := by
  obtain ⟨fixed, hname, -⟩ := read_demands h
  have hline : t.text.toList = t.metric.toList ++ [':', ' '] ++ t.expression.toList := by
    rw [Threshold.text, String.toList_append, String.toList_append]
    rfl
  refine readLine_of_divide h ?_
  rw [hline, trim_line h, List.append_assoc]
  exact divideLine_colon (isWord_of_metric? hname).2

theorem readLine_blank (h : read metric expression = .ok t) : readLine (t.metric ++ " " ++ t.expression) = .ok t := by
  obtain ⟨fixed, hname, -⟩ := read_demands h
  have hline : (t.metric ++ " " ++ t.expression).toList = t.metric.toList ++ [' '] ++ t.expression.toList := by
    rw [String.toList_append, String.toList_append]
    rfl
  refine readLine_of_divide h ?_
  rw [hline, trim_line h, List.append_assoc]
  exact divideLine_blank hname (expression_free h)

/-! ## Documents -/

/-- what a document keeps of a line is read as the threshold on the line -/
theorem resolve_lineOptions {line : String} (h : readLine line = .ok t) :
    ScenarioDocument.lineOptions line = .ok ⟨t.metric, [t.expression]⟩ ∧
      ThresholdOptions.resolve ⟨t.metric, [t.expression]⟩ = .ok [t] := by
  refine ⟨by simp only [ScenarioDocument.lineOptions, h], ?_⟩
  have hread : read t.metric t.expression = .ok t := by
    rw [readLine_eq rfl] at h
    exact read_text h
  simp only [ThresholdOptions.resolve, List.mapM_cons, List.mapM_nil, hread]
  rfl

theorem mapM_lineOptions {lines : List String} {ts : List Threshold} (h : lines.mapM readLine = .ok ts) :
    lines.mapM ScenarioDocument.lineOptions = .ok (ts.map fun t => ⟨t.metric, [t.expression]⟩) ∧
      (ts.map fun t => (⟨t.metric, [t.expression]⟩ : ThresholdOptions)).mapM ThresholdOptions.resolve =
        .ok (ts.map fun t => [t]) := by
  induction lines generalizing ts with
  | nil => cases h; exact ⟨rfl, rfl⟩
  | cons line lines ih =>
    rw [List.mapM_cons, bind_eq_ok] at h
    obtain ⟨t, ht, h⟩ := h
    obtain ⟨ts', hts, h⟩ := bind_eq_ok.1 h
    cases h
    obtain ⟨hline, hresolve⟩ := resolve_lineOptions ht
    obtain ⟨hlines, hresolves⟩ := ih hts
    refine ⟨?_, ?_⟩
    · rw [List.mapM_cons, hline, hlines]
      rfl
    · rw [List.map_cons, List.mapM_cons, hresolve, hresolves]
      rfl

/-- **The spellings of a threshold agree.** A threshold that was read is read again from its metric and expression, from
its text, and from metric and expression with a blank between them. So a document with thresholds as lines that are all
read states options, which describe these thresholds, and every scenario that they describe has just these. -/
theorem spellings_agree :
    (∀ metric expression t, read metric expression = .ok t →
      read t.metric t.expression = .ok t ∧ readLine t.text = .ok t ∧
        readLine (t.metric ++ " " ++ t.expression) = .ok t) ∧
    ∀ (d : ScenarioDocument) lines ts, d.thresholds = some (.lines lines) → lines.mapM readLine = .ok ts →
      ∃ os, d.thresholdOptions = .ok os ∧ os.mapM ThresholdOptions.resolve = .ok (ts.map fun t => [t]) ∧
        ∀ o v s, o.thresholds = os → Scenario.ofOptions o v = .ok s → s.thresholds = ts := by
  refine ⟨fun metric expression t h => ⟨read_text h, readLine_text h, readLine_blank h⟩, fun d lines ts hd h => ?_⟩
  obtain ⟨hlines, hresolve⟩ := mapM_lineOptions h
  refine ⟨_, by rw [ScenarioDocument.thresholdOptions, hd]; exact hlines, hresolve, fun o v s ho hs => ?_⟩
  obtain ⟨kind, requests, thresholds, -, -, -, hthresholds, -, rfl⟩ := Scenario.ofOptions_eq_ok_iff.1 hs
  rw [ho, hresolve] at hthresholds
  cases hthresholds
  exact List.flatMap_singleton' ts

/-- the general theorem at a fraction of two status codes, as it is read and as a line of a document -/
theorem spellings_agree_status :
    ∃ t os, read " status" "in { 200, 404 }" = .ok t ∧ t.text = "status: in { 200, 404 }" ∧ readLine t.text = .ok t ∧
      readLine (t.metric ++ " " ++ t.expression) = .ok t ∧
      ({ thresholds := some (.lines [t.text]) } : ScenarioDocument).thresholdOptions = .ok os ∧
      os.mapM ThresholdOptions.resolve = .ok [[t]] := by
  have hread : (read " status" "in { 200, 404 }").toOption.map text = some "status: in { 200, 404 }" := by
    decide +kernel
  cases h : read " status" "in { 200, 404 }" with
  | error e => rw [h] at hread; cases hread
  | ok t =>
    rw [h] at hread
    obtain ⟨hagree, hlines⟩ := spellings_agree
    obtain ⟨-, htext, hblank⟩ := hagree _ _ t h
    have hline : [t.text].mapM readLine = .ok [t] := by
      rw [List.mapM_cons, htext]
      rfl
    obtain ⟨os, hos, hresolve, -⟩ := hlines { thresholds := some (.lines [t.text]) } _ _ rfl hline
    exact ⟨t, os, rfl, Option.some.inj hread, htext, hblank, hos, hresolve⟩

end LoadGen.Threshold
