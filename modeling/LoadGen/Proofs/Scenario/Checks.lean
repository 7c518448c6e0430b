/-
What it takes for options to describe a scenario: each of them is read, and the scenario passes its checks.
-/
import LoadGen.Proofs.Steps
import LoadGen.Scenario.Basic

namespace LoadGen

/-- all that must hold of a scenario that runs -/
theorem Scenario.check_eq_ok_iff {s : Scenario} : s.check = .ok () ↔ s.model.check = .ok () ∧ s.requests ≠ [] ∧
    (∀ r ∈ s.requests, r.check = .ok ()) ∧ s.timeout.isZero = false ∧ s.thinkTime.isBackwards = false ∧
    s.failFast ≠ some 0 := by
  simp only [check, error_bind, bind_eq_ok, guard_eq_ok, ← forM_eq_ok_iff, List.isEmpty_iff, Bool.not_eq_true, pure,
    Except.pure, ne_eq, and_true]
  constructor
  · rintro ⟨_, hmodel, hsome, _, hrequests, hrest⟩
    exact ⟨hmodel, hsome, hrequests, hrest⟩
  · rintro ⟨hmodel, hsome, hrequests, hrest⟩
    exact ⟨(), hmodel, hsome, (), hrequests, hrest⟩

/-- all that options say about the scenario they describe -/
theorem Scenario.ofOptions_eq_ok_iff {o : ScenarioOptions} {v : Overrides} {s : Scenario} :
    Scenario.ofOptions o v = .ok s ↔ ∃ kind requests thresholds,
      o.modelKind = .ok kind ∧ ¬(v.duration.isSome = true ∧ (!o.stages.isEmpty) = true) ∧
      o.requests.mapM (RequestOptions.resolve v.url) = .ok requests ∧
      o.thresholds.mapM ThresholdOptions.resolve = .ok thresholds ∧ s.check = .ok () ∧
      s =
        { name := o.name.getD defaultName
          model := o.model ((v.duration.or o.duration).getD .zero) kind
          requests
          timeout := (v.timeout.or o.timeout).getD (.ofSecs 60)
          thinkTime := o.thinkTime.getD .none
          gracefulStop := o.gracefulStop.getD (.ofSecs 30)
          seed := o.seed.getD 0
          failFast := o.failFast
          thresholds := thresholds.flatten } := by
  simp only [ofOptions, error_bind, bind_eq_ok, guard_eq_ok, pure, Except.pure]
  constructor
  · rintro ⟨kind, hkind, hstaged, requests, hrequests, thresholds, hthresholds, _, hcheck, heq⟩
    cases heq
    exact ⟨kind, requests, thresholds, hkind, hstaged, hrequests, hthresholds, hcheck, rfl⟩
  · rintro ⟨kind, requests, thresholds, hkind, hstaged, hrequests, hthresholds, hcheck, rfl⟩
    exact ⟨kind, hkind, hstaged, requests, hrequests, thresholds, hthresholds, (), hcheck, rfl⟩

end LoadGen
