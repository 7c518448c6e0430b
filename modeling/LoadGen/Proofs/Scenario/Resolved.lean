/-
Resolved scenarios survive being written down. A scenario that options describe is written with every default explicit;
loading what was written gives the scenario again, its thresholds sorted by metric, and writing that one gives the same
document.

- `Resolved`: what holds of every scenario that options describe; `resolved_of_ofOptions` says that it does.
- `ofOptions_optionsOf`: the options in the document of a scenario describe the scenario.
- `load_written`: through the text of the document and back.
-/
import LoadGen.Proofs.Scenario.Checks
import LoadGen.Proofs.Scenario.Reading
import LoadGen.Proofs.Text.Characters
import LoadGen.Proofs.Threshold.Grouping
import LoadGen.Scenario.Load

namespace LoadGen

open Document Web

/-! ## Methods -/

/-- upper case of a token is a token, and has itself as upper case -/
theorem upper_tokenChar {c : Char} (h : isTokenChar c = true) :
    isTokenChar c.toUpper = true ∧ c.toUpper.toUpper = c.toUpper := by
  have hlt : c.toNat < 128 := by
    simp only [isTokenChar, Bool.decide_or, Bool.or_eq_true, decide_eq_true_eq] at h
    rcases h with h | h
    · exact Text.toNat_lt_of_isAlphanum h
    · exact Text.toNat_lt_of_mem (by decide) h
  refine Text.of_codePoints (P := fun c => isTokenChar c = true → isTokenChar c.toUpper = true ∧
    c.toUpper.toUpper = c.toUpper) ?_ hlt h
  decide

theorem isToken_iff {s : List Char} : isToken s = true ↔ s ≠ [] ∧ ∀ c ∈ s, isTokenChar c = true := by
  simp [isToken]

/-- a method that was read is read again from its name -/
theorem Web.Method.read?_name {s : String} {m : Method} (h : Method.read? s = some m) :
    Method.read? m.name = some m := by
  unfold Method.read? at h
  split at h
  · rename_i htoken
    cases h
    obtain ⟨hne, hchars⟩ := isToken_iff.1 htoken
    have hupper : isToken (Text.upperAscii s.toList) = true := by
      refine isToken_iff.2 ⟨by simpa [Text.upperAscii] using hne, fun c hc => ?_⟩
      obtain ⟨d, hd, rfl⟩ := List.mem_map.1 hc
      exact (upper_tokenChar (hchars d hd)).1
    have htwice : Text.upperAscii (Text.upperAscii s.toList) = Text.upperAscii s.toList := by
      rw [Text.upperAscii, Text.upperAscii, List.map_map]
      exact List.map_congr_left fun c hc => (upper_tokenChar (hchars c hc)).2
    rw [Method.read?, String.toList_ofList, if_pos hupper, htwice]
  · cases h

/-! ## Options and documents -/

/-- what the types of the options admit: words, and maps with each key once -/
structure ScenarioOptions.WellFormed (o : ScenarioOptions) : Prop where
  words : ∀ x ∈ [o.rate, o.startRate, o.preAllocated, o.maxVus, o.vus, o.startVus, o.seed, o.failFast],
    ∀ n ∈ x, n ≤ Decimal.wordMax
  targets : ∀ s ∈ o.stages, s.target ≤ Decimal.wordMax
  requests : ∀ r ∈ o.requests, r.WellFormed

/-- what holds of every scenario that options describe -/
structure Scenario.Resolved (s : Scenario) : Prop where
  checked : s.check = .ok ()
  methods : ∀ r ∈ s.requests, Method.read? r.method.name = some r.method
  headers : ∀ r ∈ s.requests, Ordered.Ascending r.headers
  thresholds : ∀ t ∈ s.thresholds, Threshold.read t.metric t.expression = .ok t
  document : (ScenarioDocument.ofScenario s).WellFormed

theorem resolve_request {override : Option String} {r : RequestOptions} {q : RequestSpec}
    (h : r.resolve override = .ok q) :
    Method.read? q.method.name = some q.method ∧ q.headers = r.headers ∧ q.expectStatus = r.expectStatus := by
  unfold RequestOptions.resolve at h
  split at h
  · cases h
    have hget : Method.read? Method.get.name = some .get := by decide
    exact ⟨hget, rfl, rfl⟩
  · split at h
    · rename_i m hm
      cases h
      exact ⟨Method.read?_name hm, rfl, rfl⟩
    · cases h

theorem resolve_thresholds {o : ThresholdOptions} {ts : List Threshold} (h : o.resolve = .ok ts) :
    ∀ t ∈ ts, Threshold.read t.metric t.expression = .ok t := by
  intro t ht
  obtain ⟨e, -, he⟩ := exists_of_mem_mapM h t ht
  cases hread : Threshold.read o.metric e with
  | error r =>
    rw [hread] at he
    cases he
  | ok t' =>
    rw [hread] at he
    cases he
    exact Threshold.read_text hread

theorem getD_le {x : Option Nat} {d most : Nat} (hx : ∀ n ∈ x, n ≤ most) (hd : d ≤ most) : x.getD d ≤ most := by
  cases x with
  | none => exact hd
  | some n => exact hx n rfl

theorem slots_le {o : ScenarioOptions} (h : o.WellFormed) :
    o.slots.1 ≤ Decimal.wordMax ∧ o.slots.2 ≤ Decimal.wordMax := by
  have hpre : ∀ n ∈ o.preAllocated, n ≤ Decimal.wordMax := h.words _ (by simp)
  have hmax : ∀ n ∈ o.maxVus, n ≤ Decimal.wordMax := h.words _ (by simp)
  have hmost : ((o.maxVus.or o.preAllocated).getD 1) ≤ Decimal.wordMax := by
    cases hcase : o.maxVus with
    | none => exact getD_le hpre (by decide)
    | some n => exact hmax n hcase
  exact ⟨getD_le hpre (Nat.le_trans (Nat.min_le_left _ _) hmost), hmost⟩

namespace ScenarioDocument

/-- what a document says beside the arrival model -/
theorem ofScenario_rest (s : Scenario) :
    (ofScenario s).url = none ∧ (ofScenario s).request = none ∧
      (ofScenario s).requests = s.requests.map ofRequest ∧ (ofScenario s).thinkTime = ofThinkTime s.thinkTime ∧
      (ofScenario s).thresholds = if s.thresholds.isEmpty then none else some (.byMetric (groups s.thresholds)) := by
  unfold ofScenario
  cases s.model <;> exact ⟨rfl, rfl, rfl, rfl, rfl⟩

theorem ofThinkTime_ne (t : ThinkTime) : ofThinkTime t ≠ some .none := by
  cases t <;> simp [ofThinkTime]

theorem wellFormed_ofRequest {r : RequestSpec} (hheaders : Ordered.Ascending r.headers)
    (hstatuses : ∀ c ∈ r.expectStatus, c ≤ 65535) : (ofRequest r).WellFormed := by
  refine ⟨?_, hstatuses⟩
  rw [ofRequest, Ordered.ofPairs_ascending hheaders]
  exact hheaders

/-- the numbers of an arrival model are numbers of the options, or small -/
theorem words_ofScenario {o : ScenarioOptions} {s : Scenario} {duration : Duration} {kind : ModelKind}
    (h : o.WellFormed) (hmodel : s.model = o.model duration kind) (hseed : s.seed = o.seed.getD 0)
    (hfail : s.failFast = o.failFast) :
    ∀ x ∈ [(ofScenario s).rate, (ofScenario s).startRate, (ofScenario s).preAllocated, (ofScenario s).maxVus,
      (ofScenario s).vus, (ofScenario s).startVus, (ofScenario s).seed, (ofScenario s).failFast],
      ∀ n ∈ x, n ≤ Decimal.wordMax := by
  have hnone : ∀ n ∈ (none : Option Nat), n ≤ Decimal.wordMax := fun n hn => by cases hn
  have hsome : ∀ {k : Nat}, k ≤ Decimal.wordMax → ∀ n ∈ some k, n ≤ Decimal.wordMax := fun hk n hn => by
    cases hn
    exact hk
  -- what is not stated is written as its default, which is one at most
  have hstated : ∀ x ∈ [o.rate, o.startRate, o.vus, o.startVus, o.seed], ∀ d ≤ 1, ∀ n ∈ some (x.getD d),
      n ≤ Decimal.wordMax := by
    intro x hx d hd
    refine hsome (getD_le (h.words x ?_) (Nat.le_trans hd (by decide)))
    simp only [List.mem_cons, List.not_mem_nil, or_false] at hx ⊢
    rcases hx with rfl | rfl | rfl | rfl | rfl <;> simp
  have hfailWord : ∀ n ∈ o.failFast, n ≤ Decimal.wordMax := h.words _ (by simp)
  have hseedWord := hstated o.seed (by simp) 0 (by decide)
  obtain ⟨hpre, hmost⟩ := slots_le h
  simp only [List.forall_mem_cons]
  rw [ofScenario, hmodel, hseed, hfail]
  cases kind with
  | constantArrivalRate =>
    exact ⟨hstated o.rate (by simp) 0 (by decide), hnone, hsome hpre, hsome hmost, hnone, hnone, hseedWord, hfailWord,
      by simp⟩
  | rampingArrivalRate =>
    exact ⟨hnone, hstated o.startRate (by simp) 0 (by decide), hsome hpre, hsome hmost, hnone, hnone, hseedWord,
      hfailWord, by simp⟩
  | constantVus =>
    exact ⟨hnone, hnone, hnone, hnone, hstated o.vus (by simp) 1 (by decide), hnone, hseedWord, hfailWord, by simp⟩
  | rampingVus =>
    exact ⟨hnone, hnone, hnone, hnone, hnone, hstated o.startVus (by simp) 0 (by decide), hseedWord, hfailWord,
      by simp⟩

theorem wellFormed_ofScenario {o : ScenarioOptions} {s : Scenario} {duration : Duration} {kind : ModelKind}
    (h : o.WellFormed) (hmodel : s.model = o.model duration kind) (hseed : s.seed = o.seed.getD 0)
    (hfail : s.failFast = o.failFast) (hheaders : ∀ r ∈ s.requests, Ordered.Ascending r.headers)
    (hstatuses : ∀ r ∈ s.requests, ∀ c ∈ r.expectStatus, c ≤ 65535) : (ofScenario s).WellFormed := by
  obtain ⟨-, hrequest, hrequests, hthink, hthresholds⟩ := ofScenario_rest s
  refine ⟨words_ofScenario h hmodel hseed hfail, ?targets, ?requests, ?thinkTime, ?thresholds⟩
  case targets =>
    rw [ofScenario, hmodel]
    cases kind with
    | constantArrivalRate | constantVus => exact fun t ht => by cases ht
    | rampingArrivalRate | rampingVus => exact h.targets
  case requests =>
    intro r hr
    rw [hrequest, hrequests, Option.toList_none, List.nil_append] at hr
    obtain ⟨q, hq, rfl⟩ := List.mem_map.1 hr
    exact wellFormed_ofRequest (hheaders q hq) (hstatuses q hq)
  case thinkTime =>
    rw [hthink]
    exact ofThinkTime_ne s.thinkTime
  case thresholds =>
    intro m hm
    rw [hthresholds] at hm
    split at hm
    · cases hm
    · cases hm
      exact ascending_groups s.thresholds

end ScenarioDocument

theorem resolved_of_ofOptions {o : ScenarioOptions} {v : Overrides} {s : Scenario} (ho : o.WellFormed)
    (h : Scenario.ofOptions o v = .ok s) : s.Resolved := by
  obtain ⟨kind, requests, thresholds, -, -, hrequests, hthresholds, hcheck, rfl⟩ := Scenario.ofOptions_eq_ok_iff.1 h
  have hrequest : ∀ q ∈ requests, Method.read? q.method.name = some q.method ∧ Ordered.Ascending q.headers ∧
      ∀ c ∈ q.expectStatus, c ≤ 65535 := by
    intro q hq
    obtain ⟨r, hr, hrq⟩ := exists_of_mem_mapM hrequests q hq
    obtain ⟨hmethod, hheaders, hstatuses⟩ := resolve_request hrq
    obtain ⟨hascending, hsmall⟩ := ho.requests r hr
    exact ⟨hmethod, hheaders ▸ hascending, hstatuses ▸ hsmall⟩
  have hheaders : ∀ q ∈ requests, Ordered.Ascending q.headers := fun q hq => (hrequest q hq).2.1
  refine ⟨hcheck, fun q hq => (hrequest q hq).1, hheaders, fun t ht => ?_, ?_⟩
  · obtain ⟨ts, hts, ht⟩ := List.mem_flatten.1 ht
    obtain ⟨e, -, he⟩ := exists_of_mem_mapM hthresholds ts hts
    exact resolve_thresholds he t ht
  · exact ScenarioDocument.wellFormed_ofScenario ho rfl rfl rfl hheaders fun q hq => (hrequest q hq).2.2

/-! ## Loading what was written -/

/-- a scenario with its thresholds in order of their metrics -/
def Scenario.sorted (s : Scenario) : Scenario :=
  { s with thresholds := Threshold.sorted s.thresholds }

namespace ScenarioDocument

theorem thresholdOptions_groups (ts : List Threshold) :
    (groups ts).mapM metricOptions = .ok ((groups ts).map fun e => ⟨e.1, e.2⟩) := by
  refine mapM_ok fun e he => ?_
  have hne : e.2.isEmpty = false := List.isEmpty_eq_false_iff.2 (mem_groups he).2
  rw [metricOptions, hne]
  rfl

theorem thresholdOptions_ofScenario (s : Scenario) :
    (ofScenario s).thresholdOptions = .ok ((groups s.thresholds).map fun e => ⟨e.1, e.2⟩) := by
  obtain ⟨-, -, -, -, hthresholds⟩ := ofScenario_rest s
  rw [thresholdOptions, hthresholds]
  cases s.thresholds with
  | nil => rfl
  | cons t ts => exact thresholdOptions_groups (t :: ts)

theorem resolve_group {ts : List Threshold} (hts : ∀ t ∈ ts, Threshold.read t.metric t.expression = .ok t)
    {e : String × List String} (he : e ∈ groups ts) :
    ThresholdOptions.resolve ⟨e.1, e.2⟩ = .ok (Threshold.forMetric e.1 ts) := by
  rw [(mem_groups he).1]
  refine mapM_written fun t ht => ?_
  obtain ⟨hmem, hmetric⟩ := Threshold.mem_forMetric.1 ht
  rw [← hmetric, hts t hmem]
  rfl

theorem resolve_ofRequest {r : RequestSpec} (hmethod : Method.read? r.method.name = some r.method)
    (hheaders : Ordered.Ascending r.headers) : (ofRequest r).resolve none = .ok r := by
  have hbody : (if r.body.isEmpty then none else some r.body).getD "" = r.body := by
    split
    · rename_i hempty
      exact (String.isEmpty_iff.1 hempty).symm
    · rfl
  simp only [RequestOptions.resolve, ofRequest, hmethod, Ordered.ofPairs_ascending hheaders, hbody]
  rfl

theorem sources_le_one {d : ScenarioDocument} (hurl : d.url = none) (hrequest : d.request = none) : d.sources ≤ 1 := by
  simp only [sources, hurl, hrequest, Option.isSome_none, Bool.false_eq_true, if_false]
  split <;> omega

/-- the options that the document of a scenario states -/
def optionsOf (s : Scenario) : ScenarioOptions :=
  let d := ofScenario s
  { name := some s.name
    executor := some s.model.kind.name
    rate := d.rate
    timeUnit := d.timeUnit
    duration := d.duration
    vus := d.vus
    stages := d.stages
    startVus := d.startVus
    startRate := d.startRate
    preAllocated := d.preAllocated
    maxVus := d.maxVus
    gracefulStop := some s.gracefulStop
    thinkTime := ofThinkTime s.thinkTime
    timeout := some s.timeout
    seed := some s.seed
    failFast := s.failFast
    requests := s.requests.map ofRequest
    thresholds := (groups s.thresholds).map fun e => ⟨e.1, e.2⟩ }

/-- the document names the requests in one way, and says all that its options say -/
theorem toOptions_ofScenario (s : Scenario) (name : Option String) :
    (ofScenario s).toOptions name = .ok (optionsOf s) := by
  have hthresholds := thresholdOptions_ofScenario s
  have hsources : (ofScenario s).sources ≤ 1 := by
    obtain ⟨hurl, hrequest, -⟩ := ofScenario_rest s
    exact sources_le_one hurl hrequest
  rw [toOptions, if_neg (Nat.not_lt.2 hsources), hthresholds]
  cases hm : s.model <;>
    simp [ofScenario, optionsOf, ofModel, requestOptions, hm, bind, Except.bind, pure, Except.pure]

theorem modelKind_optionsOf (s : Scenario) : (optionsOf s).modelKind = .ok s.model.kind := by
  cases hm : s.model <;>
    simp [optionsOf, ScenarioOptions.modelKind, hm, ArrivalModel.kind, ModelKind.name, ModelKind.ofName?]

theorem model_optionsOf (s : Scenario) :
    (optionsOf s).model ((optionsOf s).duration.getD .zero) s.model.kind = s.model := by
  cases hm : s.model <;>
    simp [optionsOf, ScenarioOptions.model, ScenarioOptions.slots, ofScenario, ofModel, hm, ArrivalModel.kind]

theorem ofThinkTime_getD (t : ThinkTime) : (ofThinkTime t).getD .none = t := by
  cases t <;> rfl

/-- the options that a document states describe the scenario it was written for -/
theorem ofOptions_optionsOf {s : Scenario} (h : s.Resolved) : Scenario.ofOptions (optionsOf s) {} = .ok s.sorted := by
  refine Scenario.ofOptions_eq_ok_iff.2 ⟨s.model.kind, s.requests,
    (groups s.thresholds).map fun e => Threshold.forMetric e.1 s.thresholds, modelKind_optionsOf s, by simp, ?_, ?_,
    h.checked, ?_⟩
  · exact mapM_written fun r hr => resolve_ofRequest (h.methods r hr) (h.headers r hr)
  · exact mapM_map_ok fun e he => resolve_group h.thresholds he
  · have hflat : ((groups s.thresholds).map fun e => Threshold.forMetric e.1 s.thresholds).flatten =
        Threshold.sorted s.thresholds := by
      have hkeys : ((groups s.thresholds).map Prod.fst).Pairwise (· < ·) :=
        List.pairwise_map.2 (ascending_groups s.thresholds)
      calc ((groups s.thresholds).map fun e => Threshold.forMetric e.1 s.thresholds).flatten
          = ((groups s.thresholds).map Prod.fst).flatMap fun m => Threshold.forMetric m s.thresholds := by
            rw [List.flatMap_def, List.map_map]
            rfl
        _ = Threshold.sorted s.thresholds :=
            Threshold.flatMap_forMetric hkeys fun t ht => metric_mem_groups ht
    rw [hflat, Scenario.sorted, Scenario.mk.injEq]
    exact ⟨rfl, (model_optionsOf s).symm, rfl, rfl, (ofThinkTime_getD s.thinkTime).symm, rfl, rfl, rfl, rfl⟩

/-- sorting the thresholds does not change the document -/
theorem ofScenario_sorted (s : Scenario) : ofScenario s.sorted = ofScenario s := by
  have hgroups : (Threshold.sorted s.thresholds).foldl group [] = s.thresholds.foldl group [] :=
    groups_sorted s.thresholds
  have hempty : (Threshold.sorted s.thresholds).isEmpty = s.thresholds.isEmpty :=
    (Threshold.perm_sorted s.thresholds).isEmpty_eq
  simp only [ofScenario, Scenario.sorted, hgroups, hempty]

end ScenarioDocument

/-- the bytes of the document that is written for a scenario -/
def Scenario.written (s : Scenario) : List Nat :=
  s.write.toUTF8.data.toList.map UInt8.toNat

/-- a file is loaded by way of its document and the options in it -/
theorem load_of_document {file : String} {bytes : List Nat} {d : ScenarioDocument} {o : ScenarioOptions} {s : Scenario}
    {v : Overrides} (hd : ScenarioDocument.read (FileName.format file) bytes = .ok d)
    (ho : d.toOptions (some (FileName.stem file)) = .ok o) (hs : Scenario.ofOptions o v = .ok s) :
    Scenario.load file (some bytes) v = .ok s := by
  have hload : ScenarioOptions.load file (some bytes) = .ok o := by
    simp only [ScenarioOptions.load, hd, ho]
    rfl
  rw [Scenario.load, hload]
  exact congrArg (Except.mapError LoadError.scenario) hs

/-- **What is written is loaded.** Options describe a scenario `s`, with or without overrides, and `s` is written with
every default explicit. As far as the text of the document reads back as a tree, loading it by any default name, or from
any YAML file, gives `s` again with its thresholds in order of their metrics, and that scenario is written as the same
document. Spans of time pass through their phrases on the way, and methods, headers, statuses, executors and thresholds
through their readers. -/
theorem load_written {o : ScenarioOptions} {v : Overrides} {s : Scenario} (ho : o.WellFormed)
    (h : Scenario.ofOptions o v = .ok s) (hover : (Yaml.read s.written).2 = true)
    (hback : (ScenarioDocument.ofScenario s).toNode.ReadBack (Yaml.read s.written).1) :
    ScenarioDocument.read .yaml s.written = .ok (.ofScenario s) ∧
    (∀ name, ∃ o', (ScenarioDocument.ofScenario s).toOptions name = .ok o' ∧
      Scenario.ofOptions o' {} = .ok s.sorted) ∧
    (∀ file, FileName.format file = .yaml → Scenario.load file (some s.written) {} = .ok s.sorted) ∧
    ScenarioDocument.ofScenario s.sorted = .ofScenario s ∧ s.sorted.write = s.write := by
  have hresolved := resolved_of_ofOptions ho h
  have hoptions := ScenarioDocument.toOptions_ofScenario s
  have hscenario := ScenarioDocument.ofOptions_optionsOf hresolved
  have hsame := ScenarioDocument.ofScenario_sorted s
  have hdocument : ScenarioDocument.read .yaml s.written = .ok (.ofScenario s) := by
    have hpair : Format.yaml.read s.written = ((Yaml.read s.written).1, true) := Prod.ext rfl hover
    rw [ScenarioDocument.read, hpair]
    dsimp only
    rw [ofNode_readBack hresolved.document hback]
    rfl
  refine ⟨hdocument, fun name => ⟨_, hoptions name, hscenario⟩, fun file hfile => ?_, hsame, ?_⟩
  · rw [← hfile] at hdocument
    exact load_of_document hdocument (hoptions _) hscenario
  · rw [Scenario.write, Scenario.write, hsame]

/-- two users of a shop, with thresholds out of order -/
def shop : ScenarioOptions where
  vus := some 2
  duration := some (.ofSecs 90)
  thinkTime := some (.fixed (.ofMillis 250))
  requests := [⟨some "post", "http://shop/?id=1", [("accept", "*/*")], some "a: b", [200]⟩]
  thresholds := [⟨"status", [" in {200}"]⟩, ⟨"checks", ["rate > 0.9"]⟩]

/-- the scenario that the shop's options describe -/
@[irreducible] def shopScenario : Scenario :=
  (Scenario.ofOptions shop {}).toOption.get (by decide +kernel)

theorem load_written_shop : shop.WellFormed ∧ Scenario.ofOptions shop {} = .ok shopScenario ∧
    (ScenarioDocument.ofScenario shopScenario).toNode.ReadBack (Yaml.read shopScenario.written).1 ∧
    (Yaml.read shopScenario.written).2 = true ∧
    Scenario.load "shop.yaml" (some shopScenario.written) {} = .ok shopScenario.sorted ∧
    shopScenario.sorted.write = shopScenario.write := by
  have hform : shop.WellFormed := by
    refine ⟨by decide, by decide, fun r hr => ?_⟩
    obtain rfl := List.mem_singleton.1 hr
    exact ⟨by decide, by decide⟩
  have hscenario : Scenario.ofOptions shop {} = .ok shopScenario := by
    unfold shopScenario
    exact eq_ok_get _
  have hread : (ScenarioDocument.ofScenario shopScenario).toNode.ReadBack (Yaml.read shopScenario.written).1 ∧
      (Yaml.read shopScenario.written).2 = true := by decide +kernel
  obtain ⟨hback, hover⟩ := hread
  obtain ⟨-, -, hload, -, hsame⟩ := load_written hform hscenario hover hback
  exact ⟨hform, hscenario, hback, hover, hload "shop.yaml" (by decide +kernel), hsame⟩

end LoadGen
