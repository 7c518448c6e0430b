/-
Overrides as edits. What the command line sets could as well have been written into the document: the scenario that
options describe under overrides, or the fault that is found, is that of the edited options under none. Only a duration
for a scenario with stages is refused, before anything but the executor's name is looked at.

- `Overrides.edit`: options in which the document says what the overrides say.
- `modelKind_eq`: what comes before the refusal; the only fault there is a name that no executor has.
- `ofOptions_eq_edit`: both ways come to the same scenario, or to the same fault.
-/
import LoadGen.Proofs.Scenario.Checks

namespace LoadGen

/-- a request in which the document says what the overrides say -/
def Overrides.editRequest (v : Overrides) (r : RequestOptions) : RequestOptions :=
  { r with url := v.url.getD r.url }

/-- options in which the document says what the overrides say -/
def Overrides.edit (v : Overrides) (o : ScenarioOptions) : ScenarioOptions :=
  { o with
    duration := v.duration.or o.duration
    timeout := v.timeout.or o.timeout
    requests := o.requests.map v.editRequest }

/-- a name of an executor that there is not -/
def ScenarioOptions.unknownExecutor? (o : ScenarioOptions) : Option String :=
  o.executor.filter fun name => (ModelKind.ofName? name).isNone

variable {o : ScenarioOptions} {v : Overrides}

/-! ## What edits change -/

/-- an edit does not change the kind of model, which is told without the durations -/
theorem modelKind_edit : (v.edit o).modelKind = o.modelKind := rfl

/-- the requests of a scenario are the same -/
theorem mapM_resolve_edit :
    (v.edit o).requests.mapM (RequestOptions.resolve none) = o.requests.mapM (RequestOptions.resolve v.url) := by
  show (o.requests.map v.editRequest).mapM (RequestOptions.resolve none) = _
  rw [List.mapM_map]
  rfl

/-! ## Both ways -/

/-- the kind of model is told, unless by a name that no executor has -/
theorem modelKind_eq : (∃ name, o.unknownExecutor? = some name ∧ o.modelKind = .error (.executor name)) ∨
    o.unknownExecutor? = none ∧ ∃ kind, o.modelKind = .ok kind := by
  unfold ScenarioOptions.modelKind ScenarioOptions.unknownExecutor?
  cases o.executor with
  | none =>
    refine .inr ⟨rfl, ?_⟩
    dsimp only
    split
    · exact ⟨_, rfl⟩
    · split <;> exact ⟨_, rfl⟩
  | some name =>
    cases hname : ModelKind.ofName? name with
    | none => exact .inl ⟨name, by simp [hname], by simp [hname]⟩
    | some kind => exact .inr ⟨by simp [hname], kind, by simp [hname]⟩

/-- a duration for a scenario with stages is refused, after the executor's name -/
theorem ofOptions_staged (hduration : v.duration.isSome) (hstages : o.stages ≠ []) :
    Scenario.ofOptions o v = .error ((o.unknownExecutor?.map .executor).getD .durationOverride) := by
  have hstaged : v.duration.isSome = true ∧ (!o.stages.isEmpty) = true := ⟨hduration, by simpa using hstages⟩
  unfold Scenario.ofOptions
  rcases modelKind_eq (o := o) with ⟨name, hname, hkind⟩ | ⟨hnone, kind, hkind⟩
  · rw [hkind, hname]
    rfl
  · rw [hkind, hnone]
    show (if _ then _ else _) = _
    rw [if_pos hstaged]
    rfl

theorem ofOptions_unstaged (h : ¬(v.duration.isSome = true ∧ o.stages ≠ [])) :
    Scenario.ofOptions o v = Scenario.ofOptions (v.edit o) {} := by
  have hunstaged : ¬(v.duration.isSome = true ∧ (!o.stages.isEmpty) = true) := by simpa using h
  unfold Scenario.ofOptions
  rw [modelKind_edit, mapM_resolve_edit]
  refine congrArg (o.modelKind >>= ·) (funext fun kind => ?_)
  rw [if_neg hunstaged, if_neg (fun h => by cases h.1)]
  rfl

/-- **Overrides are edits of the document.** Under a duration for a scenario with stages nothing is described: the fault
is the executor's name if there is no such executor, and that duration if there is one or none is named. Under all other
overrides the result, scenario or fault, is that of the options in which the durations and the URL of every request are
the given ones, with nothing to override them. -/
theorem ofOptions_eq_edit (o : ScenarioOptions) (v : Overrides) :
    Scenario.ofOptions o v =
      if v.duration.isSome ∧ o.stages ≠ [] then .error ((o.unknownExecutor?.map .executor).getD .durationOverride)
      else Scenario.ofOptions (v.edit o) {} := by
  split
  · rename_i h
    exact ofOptions_staged h.1 h.2
  · rename_i h
    exact ofOptions_unstaged h

end LoadGen
