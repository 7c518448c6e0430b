/-
A run is a delivery: its run loop listens, and its workers hold the slots. Whatever a part of a run does is one step of
the delivery, or some that take no time, or none, so what holds after any steps of a delivery holds of every run.

- `Settles`: some steps that take no time.
- `settles_work`, `settles_proceed`: the workers and the run loop.
- `exists_ops`: any steps of a run are some steps of its delivery.
- `owned_steps`: in every run each slot is with one iteration.
-/
import LoadGen.Proofs.Run.Calls
import LoadGen.Proofs.Run.Delivery
import LoadGen.Proofs.Run.Outcomes

namespace LoadGen

/-- a stop is never taken back -/
theorem Lifecycle.stopped_step_of_stopped {l : Lifecycle} (h : l.stopped = true) (op : Lifecycle.Op) :
    (l.step op).1.stopped = true := by
  rw [stopped_step, h, Bool.true_or]

namespace Delivery

/-! ## Steps that take no time -/

/-- a step that takes no time -/
def Op.isTimeless : Op → Bool
  | .pass _ => false
  | _ => true

/-- some steps that take no time lead from one to the other -/
def Settles (d d' : Delivery) : Prop :=
  ∃ ops, ops.all Op.isTimeless = true ∧ d.run ops = d'

theorem Settles.refl (d : Delivery) : d.Settles d :=
  ⟨[], rfl, rfl⟩

theorem Settles.trans {d d' d'' : Delivery} (h : d.Settles d') (h' : d'.Settles d'') : d.Settles d'' := by
  obtain ⟨ops, htimeless, rfl⟩ := h
  obtain ⟨ops', htimeless', rfl⟩ := h'
  refine ⟨ops ++ ops', ?_, run_append d ops ops'⟩
  rw [List.all_append, htimeless, htimeless']
  rfl

theorem settles_step (d : Delivery) (op : Op) (timeless : op.isTimeless = true) : d.Settles (d.step op) :=
  ⟨[op], by rw [List.all_cons, timeless]; rfl, rfl⟩

/-- whoever holds a slot gives it back -/
theorem settles_release (d : Delivery) : d.Settles
    { d with scheduler := d.held.foldl (fun s e => s.release e.slot) d.scheduler, held := [] } := by
  suffices h : ∀ (held : List Dispatch) (s : Scheduler), Settles { d with scheduler := s, held }
      { d with scheduler := held.foldl (fun s e => s.release e.slot) s, held := [] } from h d.held d.scheduler
  intro held
  induction held with
  | nil => exact fun s => .refl _
  | cons e held ih =>
    intro s
    exact (settles_step _ (.release 0) rfl).trans (ih (s.release e.slot))

/-! ## The parts of a run -/

variable {r : Run} {i : Nat} {w : Worker}

/-- a stop may be asked for, and is never taken back -/
theorem settles_life (r : Run) {life : Lifecycle} (h : r.life.stopped = true → life.stopped = true) :
    (ofRun r).Settles (ofRun { r with life }) := by
  cases hstopped : r.life.stopped with
  | true =>
    have hsame : ofRun { r with life } = ofRun r := by simp only [ofRun, hstopped, h hstopped]
    rw [hsame]
    exact .refl _
  | false =>
    cases hlife : life.stopped with
    | true =>
      have hstop : ofRun { r with life } = (ofRun r).step .stop := by simp only [ofRun, step, hlife]
      rw [hstop]
      exact settles_step _ _ rfl
    | false =>
      have hsame : ofRun { r with life } = ofRun r := by simp only [ofRun, hstopped, hlife]
      rw [hsame]
      exact .refl _

theorem settles_leave (hi : r.workers[i]? = some w) : (ofRun r).Settles (ofRun (r.leave i w)) := by
  have hheld : (ofRun r).held[i]? = some w.dispatch := by
    simp only [ofRun, List.getElem?_map, hi, Option.map_some]
  have hleave : ofRun (r.leave i w) = (ofRun r).step (.release i) := by
    rw [step_release_some hheld]
    simp only [ofRun, Run.leave, List.eraseIdx_map]
  rw [hleave]
  exact settles_step _ _ rfl

/-- a worker keeps its slot while it turns to something else -/
theorem held_turn (hi : r.workers[i]? = some w) (activity : Activity) :
    (r.turn i w activity).workers.map Worker.dispatch = r.workers.map Worker.dispatch := by
  obtain ⟨hlt, hw⟩ := List.getElem?_eq_some_iff.1 hi
  have hlength : i < (r.workers.map Worker.dispatch).length := by rwa [List.length_map]
  have hdispatch : (r.workers.map Worker.dispatch)[i] = w.dispatch := by rw [List.getElem_map, hw]
  simp only [Run.turn, List.map_set]
  rw [← hdispatch, List.set_getElem_self hlength]

theorem ofRun_turn (hi : r.workers[i]? = some w) (activity : Activity) : ofRun (r.turn i w activity) = ofRun r := by
  unfold ofRun
  rw [held_turn hi]
  rfl

/-- a worker gives its slot back when it leaves, and its outcome may stop the run -/
theorem settles_work (r : Run) (i : Nat) : (ofRun r).Settles (ofRun (r.work i)) := by
  have hworks := r.works i
  generalize r.outcome? (.work i) = outcome at hworks
  generalize r.work i = r' at hworks ⊢
  have hemit (o : Metrics.Outcome) : (ofRun r).Settles (ofRun { r with life := r.life.emit o }) :=
    settles_life r fun h => Lifecycle.stopped_step_of_stopped h (.emit o)
  cases hworks with
  | rest => exact .refl _
  | leave w found => exact settles_leave found
  | send w found owes activity =>
    rw [ofRun_turn found]
    exact .refl _
  | settle w found owes o random =>
    exact (hemit o).trans (settles_leave (r := { r with life := r.life.emit o, random }) found)
  | pause w found owes o random deadline =>
    rw [ofRun_turn (r := { r with life := r.life.emit o, random }) found]
    exact hemit o

/-- the run loop receives an iteration for a worker, or after a stop gives its slot back at once -/
theorem settles_accept (r : Run) {e : Dispatch} {rest : List Dispatch}
    (queue : r.scheduler.dispatcher.queue = e :: rest) :
    (ofRun r).Settles (ofRun (r.accept e { r.scheduler.dispatcher with queue := rest })) := by
  have hreceive : (ofRun r).Settles ((ofRun r).step .receive) := settles_step _ _ rfl
  rw [step_receive_cons (d := ofRun r) queue] at hreceive
  unfold Run.accept
  simp only
  split
  · refine hreceive.trans ?_
    have hlast : ((ofRun r).held ++ [e])[r.workers.length]? = some e := by
      rw [List.getElem?_append_right (by simp [ofRun])]
      simp [ofRun]
    have hback := settles_step
      { ofRun r with
        scheduler := { r.scheduler with dispatcher := { r.scheduler.dispatcher with queue := rest } }
        held := (ofRun r).held ++ [e] }
      (.release r.workers.length) rfl
    rw [step_release_some hlast] at hback
    rw [List.eraseIdx_append_of_length_le (by simp [ofRun])] at hback
    simpa [ofRun] using hback
  · simpa [ofRun] using hreceive

/-- the run loop receives, cuts the workers short, and stops listening -/
theorem settles_proceed (r : Run) : (ofRun r).Settles (ofRun r.proceed) := by
  have hp := r.proceeds
  generalize r.proceed = r' at hp ⊢
  cases hp with
  | stay | drained => exact .refl _
  | drain =>
    exact settles_life r fun h =>
      Lifecycle.stopped_step_of_stopped (l := (r.interrupted r.discarded).life) h .beginDrain
  | accept _ _ e rest queue => exact settles_accept r queue
  | interrupt =>
    have hrelease := (ofRun r).settles_release
    simp only [ofRun, List.foldl_map] at hrelease
    exact hrelease
  | close => exact settles_step (ofRun r) .close rfl
  | finish =>
    unfold Run.finish
    split
    · exact .refl _
    · set metrics := (r.life.metrics.recordInterrupted r.scheduler.dispatcher.arrived.undelivered).extendHorizon r.now
      exact settles_life r fun h =>
        Lifecycle.stopped_step_of_stopped (l := { r.life with metrics }) h .finish

/-! ## Any steps of a run -/

/-- whatever a part of a run does takes no time -/
theorem settles_part (r : Run) {op : RunOp} (h : ∀ span, op ≠ .pass span) :
    (ofRun r).Settles (ofRun (r.step op)) := by
  cases op with
  | pass span => exact absurd rfl (h span)
  | schedule => exact settles_step (ofRun r) .schedule rfl
  | proceed => exact settles_proceed r
  | work i => exact settles_work r i
  | cancel reason => exact settles_life r fun h => Lifecycle.stopped_step_of_stopped h (.cancel reason)
  | abort reason => exact settles_life r fun h => Lifecycle.stopped_step_of_stopped h (.abort reason)

/-- **A run is a delivery.** Any steps of a run are some steps of its delivery. -/
theorem exists_ops (r : Run) (ops : List RunOp) : ∃ ops', (ofRun r).run ops' = ofRun (r.steps ops) := by
  induction ops generalizing r with
  | nil => exact ⟨[], rfl⟩
  | cons op ops ih =>
    obtain ⟨rest, hrest⟩ := ih (r.step op)
    have hfirst : ∃ first, (ofRun r).run first = ofRun (r.step op) := by
      by_cases hpass : ∃ span, op = .pass span
      · obtain ⟨span, rfl⟩ := hpass
        exact ⟨[.pass span], rfl⟩
      · obtain ⟨first, -, hfirst⟩ := settles_part r fun span h => hpass ⟨span, h⟩
        exact ⟨first, hfirst⟩
    obtain ⟨first, hfirst⟩ := hfirst
    exact ⟨first ++ rest, by rw [run_append, hfirst, hrest]; rfl⟩

/-- **In every run each slot is with one iteration.** -/
theorem owned_steps (s : Scenario) (peer : Peer) (life : Lifecycle) (ops : List RunOp) :
    (ofRun ((Run.init s peer life).steps ops)).Owned s.model.poolBounds.1 s.model.poolBounds.2 := by
  obtain ⟨ops', hops⟩ := exists_ops (Run.init s peer life) ops
  have h := owned_start s.model
  have hinit : (ofRun (Run.init s peer life)).Owned s.model.poolBounds.1 s.model.poolBounds.2 :=
    ⟨h.lent, h.slots, h.capacity, h.closed, h.handless⟩
  rw [← hops]
  exact hinit.run ops'

end Delivery

end LoadGen
