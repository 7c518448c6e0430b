/-
The life of a run under any calls: whoever starts, drains, ends, cancels or aborts it, and whatever outcomes come in
between, in any order.

- `Phase.Moves`: the moves from phase to phase.
- `stopRequests`: the reasons for which a stop is asked for, read off the calls alone. Nobody can ask once the run was
  ended; an outcome asks if with it the failures in a row are as many as the limit.
- `Traced`: the invariant, of a run and the calls that led to it. It ties the phase, the two signals, the reason and the
  clock together, although every call guards only some of them.
- `run_lawful`: phases only go forward, the end is told by the stop, the reason is the first that was asked for, an
  abort is a stop, and of each kind of call one succeeds at most.
-/
import Mathlib.Data.List.Induction
import Mathlib.Logic.Relation
import LoadGen.Run.Lifecycle

namespace LoadGen

open Metrics

/-! ## Phases -/

/-- one move of a run: it starts, it begins to drain, or it ends, from wherever it is -/
inductive Phase.Moves : Phase → Phase → Prop where
  | start : Moves .configured .running
  | drain : Moves .running .draining
  | finish {p q : Phase} : p.isTerminal = false → q.isTerminal = true → Moves p q

/-- some moves of a run, or none -/
abbrev Phase.Reaches : Phase → Phase → Prop :=
  Relation.ReflTransGen Phase.Moves

theorem Phase.Moves.isTerminal {p q : Phase} (h : p.Moves q) : p.isTerminal = false := by
  cases h with
  | start => rfl
  | drain => rfl
  | finish hp _ => exact hp

theorem Phase.Moves.ne_configured {p q : Phase} (h : p.Moves q) : q ≠ .configured := by
  cases h with
  | start => decide
  | drain => decide
  | finish _ hq => rintro rfl; cases hq

/-- from the end there is no way on -/
theorem Phase.Reaches.eq_of_isTerminal {p q : Phase} (h : p.Reaches q) (hp : p.isTerminal = true) : q = p := by
  rcases Relation.ReflTransGen.cases_head h with rfl | ⟨r, hmove, -⟩
  · rfl
  · rw [hmove.isTerminal] at hp; cases hp

namespace Lifecycle

/-! ## Calls and what they ask for -/

def Op.isFinish : Op → Bool
  | finish => true
  | _ => false

/-- the outcome that a call brings -/
def Op.outcome? : Op → Option Outcome
  | emit o => some o
  | _ => none

/-- the outcomes that some calls bring -/
def outcomes (ops : List Op) : List Outcome :=
  ops.filterMap Op.outcome?

/-- how many outcomes at the end of a list are fatal -/
def fatalTail (os : List Outcome) : Nat :=
  (os.reverse.takeWhile fun o => o.kind.isFatal).length

/-- the reason for which a call asks for a stop, coming after `past` -/
def stopRequest? (failFast : Option Nat) (past : List Op) (op : Op) : Option String :=
  if past.any Op.isFinish then none
  else match op with
    | .cancel reason | .abort reason => some reason
    | .emit o =>
      let failures := fatalTail (outcomes past ++ [o])
      if o.kind.isFatal && failFast.any (· ≤ failures) then some (streakReason failures) else none
    | .start | .beginDrain | .finish => none

/-- the reasons for which some calls ask for a stop, in their order, coming after `past` -/
def stopRequests (failFast : Option Nat) (past : List Op) : List Op → List String
  | [] => []
  | op :: ops => (stopRequest? failFast past op).toList ++ stopRequests failFast (past ++ [op]) ops

/-- some calls with their answers -/
def answers (l : Lifecycle) : List Op → List (Op × Reply)
  | [] => []
  | op :: ops => (op, (l.step op).2) :: answers (l.step op).1 ops

/-- a start that succeeded -/
def didStart : Op × Reply → Bool
  | (.start, .started) => true
  | _ => false

/-- a cancel that was the one to ask for the stop -/
def didCancel : Op × Reply → Bool
  | (.cancel _, .flag b) => b
  | _ => false

/-- an abort that was the one to ask for it -/
def didAbort : Op × Reply → Bool
  | (.abort _, .flag b) => b
  | _ => false

@[simp] theorem outcomes_snoc (ops : List Op) (op : Op) :
    outcomes (ops ++ [op]) = outcomes ops ++ op.outcome?.toList := by
  cases h : op.outcome? <;> simp [outcomes, h]

@[simp] theorem fatalTail_snoc (os : List Outcome) (o : Outcome) :
    fatalTail (os ++ [o]) = if o.kind.isFatal then fatalTail os + 1 else 0 := by
  simp only [fatalTail, List.reverse_append, List.reverse_singleton, List.singleton_append, List.takeWhile_cons]
  split <;> rfl

theorem stopRequests_snoc (failFast : Option Nat) (past ops : List Op) (op : Op) :
    stopRequests failFast past (ops ++ [op]) =
      stopRequests failFast past ops ++ (stopRequest? failFast (past ++ ops) op).toList := by
  induction ops generalizing past with
  | nil => simp [stopRequests]
  | cons first ops ih => simp [stopRequests, ih, List.append_assoc]

theorem run_append (l : Lifecycle) (ops more : List Op) : l.run (ops ++ more) = (l.run ops).run more := by
  simp [run, List.foldl_append]

theorem run_snoc (l : Lifecycle) (ops : List Op) (op : Op) : l.run (ops ++ [op]) = ((l.run ops).step op).1 := by
  simp [run, List.foldl_append]

/-! ## What each call does -/

/-- the streak of failures after one more outcome; it is only kept where there is a limit -/
def streakAfter (l : Lifecycle) (o : Outcome) : Nat :=
  if l.failFast.isSome then if o.kind.isFatal then l.streak + 1 else 0 else l.streak

/-- an outcome that comes to the limit -/
def isLast (l : Lifecycle) (o : Outcome) : Bool :=
  o.kind.isFatal && l.failFast.any (· ≤ l.streak + 1)

/-- the reason for which a call asks for a stop -/
def asks? (l : Lifecycle) (op : Op) : Option String :=
  if l.phase.isTerminal then none
  else match op with
    | .cancel reason | .abort reason => some reason
    | .emit o => if l.isLast o then some (streakReason (l.streakAfter o)) else none
    | .start | .beginDrain | .finish => none

/-- the call starts the clock -/
def begins (l : Lifecycle) : Op → Bool
  | .start => l.phase = .configured
  | _ => false

/-- the call abandons what is in flight -/
def abandons (l : Lifecycle) : Op → Bool
  | .abort _ => !l.phase.isTerminal
  | _ => false

/-- the phase after a call -/
def phaseAfter (l : Lifecycle) : Op → Phase
  | .start => if l.phase = .configured then .running else l.phase
  | .beginDrain => if l.phase = .running then .draining else l.phase
  | .finish => if l.phase.isTerminal then l.phase else if l.stopped then .cancelled else .completed
  | .cancel _ | .abort _ | .emit _ => l.phase

variable {l : Lifecycle} {op : Op}

theorem cancel_of_over (h : l.phase.isTerminal = true) (reason : String) : l.cancel reason = (l, false) := by
  simp [cancel, h]

theorem cancel_of_live (h : l.phase.isTerminal = false) (reason : String) :
    l.cancel reason = ({ l with stopped := true, reason := l.reason.or (some reason) }, !l.stopped) := by
  cases hr : l.reason <;> simp [cancel, h, hr]

theorem abort_of_over (h : l.phase.isTerminal = true) (reason : String) : l.abort reason = (l, false) := by
  simp [abort, h]

theorem abort_of_live (h : l.phase.isTerminal = false) (reason : String) :
    l.abort reason =
      ({ l with stopped := true, aborted := true, reason := l.reason.or (some reason) }, !l.aborted) := by
  simp [abort, h, cancel_of_live h]

/-- an outcome is counted, and the one that comes to the limit cancels the run -/
theorem emit_eq (l : Lifecycle) (o : Outcome) :
    l.emit o =
      if l.isLast o then
        (({ l with metrics := l.metrics.ingest o, streak := l.streakAfter o } : Lifecycle).cancel
          (streakReason (l.streakAfter o))).1
      else { l with metrics := l.metrics.ingest o, streak := l.streakAfter o } := by
  cases hf : l.failFast with
  | none => simp [emit, track, streakAfter, isLast, hf]
  | some limit =>
    cases hfatal : o.kind.isFatal with
    | false => simp [emit, track, streakAfter, isLast, hf, hfatal]
    | true => by_cases hlimit : limit ≤ l.streak + 1 <;> simp [emit, track, streakAfter, isLast, hf, hfatal, hlimit]

theorem emit_of_over (h : l.phase.isTerminal = true) (o : Outcome) :
    l.emit o = { l with metrics := l.metrics.ingest o, streak := l.streakAfter o } := by
  rw [emit_eq, cancel_of_over (by exact h)]
  split <;> rfl

theorem emit_of_live (h : l.phase.isTerminal = false) (o : Outcome) :
    l.emit o =
      { l with
        metrics := l.metrics.ingest o, streak := l.streakAfter o
        stopped := l.stopped || l.isLast o, reason := l.reason.or (l.asks? (.emit o)) } := by
  rw [emit_eq, cancel_of_live (by exact h)]
  cases hlast : l.isLast o <;> simp [asks?, h, hlast]

/-- **What a call does**, to everything that a run knows. -/
theorem step_eq (l : Lifecycle) (op : Op) :
    (l.step op).1 =
      { l with
        phase := l.phaseAfter op
        started := l.started || l.begins op
        stopped := l.stopped || (l.asks? op).isSome
        aborted := l.aborted || l.abandons op
        reason := l.reason.or (l.asks? op)
        streak := op.outcome?.elim l.streak l.streakAfter
        metrics := op.outcome?.elim l.metrics l.metrics.ingest } := by
  cases op with
  | start =>
    obtain ⟨_, _, phase, _, _, _, _, _, _⟩ := l
    cases phase <;> simp [step, start, phaseAfter, begins, abandons, asks?, Op.outcome?]
  | beginDrain =>
    obtain ⟨_, _, phase, _, _, _, _, _, _⟩ := l
    cases phase <;> simp [step, beginDrain, phaseAfter, begins, abandons, asks?, Op.outcome?]
  | finish =>
    cases h : l.phase.isTerminal <;> simp [step, finish, phaseAfter, begins, abandons, asks?, Op.outcome?, h]
  | cancel reason =>
    cases h : l.phase.isTerminal <;>
      simp [step, cancel_of_over, cancel_of_live, phaseAfter, begins, abandons, asks?, Op.outcome?, h]
  | abort reason =>
    cases h : l.phase.isTerminal <;>
      simp [step, abort_of_over, abort_of_live, phaseAfter, begins, abandons, asks?, Op.outcome?, h]
  | emit o =>
    cases h : l.phase.isTerminal with
    | true => simp [step, emit_of_over, phaseAfter, begins, abandons, asks?, Op.outcome?, h]
    | false =>
      cases hlast : l.isLast o <;>
        simp [step, emit_of_live, phaseAfter, begins, abandons, asks?, Op.outcome?, h, hlast]

@[simp] theorem phase_step (l : Lifecycle) (op : Op) : (l.step op).1.phase = l.phaseAfter op := by rw [step_eq]

@[simp] theorem started_step (l : Lifecycle) (op : Op) : (l.step op).1.started = (l.started || l.begins op) := by
  rw [step_eq]

@[simp] theorem stopped_step (l : Lifecycle) (op : Op) :
    (l.step op).1.stopped = (l.stopped || (l.asks? op).isSome) := by
  rw [step_eq]

@[simp] theorem aborted_step (l : Lifecycle) (op : Op) : (l.step op).1.aborted = (l.aborted || l.abandons op) := by
  rw [step_eq]

@[simp] theorem reason_step (l : Lifecycle) (op : Op) : (l.step op).1.reason = l.reason.or (l.asks? op) := by
  rw [step_eq]

theorem asks?_of_over (h : l.phase.isTerminal = true) (op : Op) : l.asks? op = none :=
  if_pos h

/-! ## Phases only go forward -/

theorem phaseAfter_moves (l : Lifecycle) (op : Op) : l.phaseAfter op = l.phase ∨ l.phase.Moves (l.phaseAfter op) := by
  cases op with
  | start =>
    by_cases hp : l.phase = .configured
    · rw [phaseAfter, if_pos hp, hp]; exact .inr .start
    · exact .inl (if_neg hp)
  | beginDrain =>
    by_cases hp : l.phase = .running
    · rw [phaseAfter, if_pos hp, hp]; exact .inr .drain
    · exact .inl (if_neg hp)
  | finish =>
    cases h : l.phase.isTerminal with
    | true => exact .inl (if_pos h)
    | false => refine .inr (.finish h ?_); simp only [phaseAfter, h]; cases l.stopped <;> rfl
  | cancel reason => exact .inl rfl
  | abort reason => exact .inl rfl
  | emit o => exact .inl rfl

/-- the end is final -/
theorem phaseAfter_of_over (h : l.phase.isTerminal = true) (op : Op) : l.phaseAfter op = l.phase := by
  refine (l.phaseAfter_moves op).resolve_right fun hmove => ?_
  rw [hmove.isTerminal] at h
  cases h

/-- only a finish ends a run, and it does from every phase -/
theorem isTerminal_phaseAfter (l : Lifecycle) (op : Op) :
    (l.phaseAfter op).isTerminal = (l.phase.isTerminal || op.isFinish) := by
  cases op with
  | start => cases hp : l.phase <;> simp [phaseAfter, Op.isFinish, Phase.isTerminal, hp]
  | beginDrain => cases hp : l.phase <;> simp [phaseAfter, Op.isFinish, Phase.isTerminal, hp]
  | finish => cases h : l.phase.isTerminal <;> cases hs : l.stopped <;> simp [phaseAfter, h, hs] <;> rfl
  | cancel reason => simp [phaseAfter, Op.isFinish]
  | abort reason => simp [phaseAfter, Op.isFinish]
  | emit o => simp [phaseAfter, Op.isFinish]

/-- the phase tells by the stop how the run ended -/
theorem phaseAfter_finish (h : l.phase.isTerminal = false) :
    l.phaseAfter .finish = if l.stopped then .cancelled else .completed := by
  simp [phaseAfter, h]

/-- a run that waits has waited -/
theorem waiting_of_phaseAfter (h : l.phaseAfter op = .configured) : l.phase = .configured ∧ l.begins op = false := by
  rcases l.phaseAfter_moves op with hsame | hmove
  · refine ⟨hsame ▸ h, ?_⟩
    cases op with
    | start =>
      by_cases hp : l.phase = .configured
      · rw [phaseAfter, if_pos hp] at h; cases h
      · simp [begins, hp]
    | _ => rfl
  · exact absurd h hmove.ne_configured

theorem run_reaches (l : Lifecycle) (ops : List Op) : l.phase.Reaches (l.run ops).phase := by
  induction ops using List.reverseRecOn with
  | nil => exact .refl
  | append_singleton ops op ih =>
    rw [run_snoc, phase_step]
    rcases (l.run ops).phaseAfter_moves op with h | h
    · rw [h]; exact ih
    · exact ih.tail h

/-- a run that is over was ended by a finish that found it going -/
theorem exists_finish (hlive : l.phase.isTerminal = false) {ops : List Op}
    (hover : (l.run ops).phase.isTerminal = true) :
    ∃ past future, ops = past ++ .finish :: future ∧ (l.run past).phase.isTerminal = false := by
  induction ops using List.reverseRecOn with
  | nil => rw [show (l.run []).phase = l.phase from rfl, hlive] at hover; cases hover
  | append_singleton ops op ih =>
    cases ht : (l.run ops).phase.isTerminal with
    | true =>
      obtain ⟨past, future, rfl, hpast⟩ := ih ht
      exact ⟨past, future ++ [op], by simp, hpast⟩
    | false =>
      rw [run_snoc, phase_step, isTerminal_phaseAfter, ht, Bool.false_or] at hover
      cases op with
      | finish => exact ⟨ops, [], rfl, ht⟩
      | _ => cases hover

/-! ## A run and the calls that led to it -/

/-- `l` is a run with this limit of failures after these calls -/
structure Traced (failFast : Option Nat) (ops : List Op) (l : Lifecycle) : Prop where
  limit : l.failFast = failFast
  terminal : l.phase.isTerminal = ops.any Op.isFinish
  streak : failFast.isSome = true → l.streak = fatalTail (outcomes ops)
  reason : l.reason = (stopRequests failFast [] ops).head?
  stopped : l.stopped = l.reason.isSome
  aborted : l.aborted = true → l.stopped = true
  ended : l.phase.isTerminal = true → l.phase = if l.stopped then .cancelled else .completed
  waiting : l.phase = .configured → l.started = false

variable {failFast : Option Nat} {ops : List Op}

theorem traced_init (seed : Nat) (failFast : Option Nat) : Traced failFast [] { seed, failFast } where
  limit := rfl
  terminal := rfl
  streak _ := rfl
  reason := rfl
  stopped := rfl
  aborted h := by cases h
  ended h := by cases h
  waiting _ := rfl

/-- what a run takes for a request is what the calls say is one -/
theorem Traced.asks?_eq (h : Traced failFast ops l) (op : Op) : l.asks? op = stopRequest? failFast ops op := by
  unfold asks? stopRequest?
  rw [h.terminal]
  cases op with
  | emit o =>
    cases hf : failFast with
    | none => simp [isLast, h.limit, hf]
    | some limit =>
      have hstreak : l.streak = fatalTail (outcomes ops) := h.streak (by rw [hf]; rfl)
      cases hfatal : o.kind.isFatal <;> simp [isLast, streakAfter, h.limit, hf, hfatal, hstreak]
  | _ => rfl

theorem Traced.step (h : Traced failFast ops l) (op : Op) : Traced failFast (ops ++ [op]) (l.step op).1 where
  limit := by rw [step_eq]; exact h.limit
  terminal := by simp [isTerminal_phaseAfter, h.terminal]
  streak hsome := by
    have hstreak := h.streak hsome
    rw [step_eq]
    cases op with
    | emit o => simp [Op.outcome?, streakAfter, h.limit, hsome, hstreak]
    | _ => simp [Op.outcome?, hstreak]
  reason := by
    rw [reason_step, h.asks?_eq, h.reason, stopRequests_snoc, List.head?_append, List.nil_append]
    cases stopRequest? failFast ops op <;> rfl
  stopped := by
    rw [stopped_step, reason_step, h.stopped]
    cases l.reason <;> simp
  aborted ha := by
    -- an abort asks for a stop as well
    rw [aborted_step, Bool.or_eq_true] at ha
    rw [stopped_step, Bool.or_eq_true]
    rcases ha with ha | ha
    · exact .inl (h.aborted ha)
    · cases op with
      | abort reason =>
        have hlive : l.phase.isTerminal = false := by simpa [abandons] using ha
        exact .inr (by simp [asks?, hlive])
      | _ => cases ha
  ended hover := by
    rw [phase_step] at hover ⊢
    rw [stopped_step]
    cases ht : l.phase.isTerminal with
    | true => simpa [phaseAfter_of_over ht, asks?_of_over ht] using h.ended ht
    | false =>
      have hfinish : op.isFinish = true := by simpa [isTerminal_phaseAfter, ht] using hover
      cases op with
      | finish => simpa [asks?] using phaseAfter_finish ht
      | _ => cases hfinish
  waiting hp := by
    rw [phase_step] at hp
    obtain ⟨hbefore, hbegins⟩ := waiting_of_phaseAfter hp
    rw [started_step, h.waiting hbefore, hbegins]; rfl

theorem traced_run (seed : Nat) (failFast : Option Nat) (ops : List Op) :
    Traced failFast ops (({ seed, failFast } : Lifecycle).run ops) := by
  induction ops using List.reverseRecOn with
  | nil => exact traced_init seed failFast
  | append_singleton ops op ih => rw [run_snoc]; exact ih.step op

/-! ## Answers -/

/-- where a call succeeds only if it finds a mark absent, and then sets it for good, it succeeds once -/
theorem countP_answers_le (mark : Lifecycle → Bool) (did : Op × Reply → Bool)
    (hkeep : ∀ l op, mark l = true → mark (l.step op).1 = true)
    (hfirst : ∀ l op, did (op, (l.step op).2) = true → mark l = false ∧ mark (l.step op).1 = true)
    (l : Lifecycle) (ops : List Op) : (l.answers ops).countP did ≤ if mark l then 0 else 1 := by
  induction ops generalizing l with
  | nil => exact Nat.zero_le _
  | cons op ops ih =>
    have hrest := ih (l.step op).1
    rw [answers, List.countP_cons]
    cases hm : mark l with
    | true =>
      have hno : did (op, (l.step op).2) = false := by
        cases hd : did (op, (l.step op).2) with
        | false => rfl
        | true => rw [(hfirst l op hd).1] at hm; cases hm
      rw [hkeep l op hm] at hrest
      simpa [hno] using hrest
    | false =>
      cases hd : did (op, (l.step op).2) with
      | true => rw [(hfirst l op hd).2] at hrest; simpa using hrest
      | false =>
        have hle : (if mark (l.step op).1 then 0 else 1) ≤ 1 := by split <;> decide
        simpa using Nat.le_trans hrest hle

/-- a start succeeds if it is the one that starts the clock -/
theorem didStart_step (l : Lifecycle) (op : Op) : didStart (op, (l.step op).2) = l.begins op := by
  cases op with
  | start => cases hp : l.phase <;> simp [Lifecycle.step, start, didStart, begins, hp]
  | _ => rfl

theorem didCancel_step (h : didCancel (op, (l.step op).2) = true) : l.stopped = false ∧ (l.asks? op).isSome = true := by
  cases op with
  | cancel reason =>
    cases ht : l.phase.isTerminal with
    | true => simp [Lifecycle.step, cancel_of_over ht, didCancel] at h
    | false => simpa [Lifecycle.step, cancel_of_live ht, didCancel, asks?, ht] using h
  | _ => cases h

theorem didAbort_step (h : didAbort (op, (l.step op).2) = true) : l.aborted = false ∧ l.abandons op = true := by
  cases op with
  | abort reason =>
    cases ht : l.phase.isTerminal with
    | true => simp [Lifecycle.step, abort_of_over ht, didAbort] at h
    | false => simpa [Lifecycle.step, abort_of_live ht, didAbort, abandons, ht] using h
  | _ => cases h

theorem started_run (l : Lifecycle) (ops : List Op) :
    (l.run ops).started = (l.started || (l.answers ops).any didStart) := by
  induction ops generalizing l with
  | nil => exact (Bool.or_false _).symm
  | cons op ops ih =>
    rw [answers, List.any_cons, didStart_step, ← Bool.or_assoc, ← started_step]
    exact ih (l.step op).1

/-- a run is started once, and its clock says whether it was -/
theorem countP_didStart_le (seed : Nat) (failFast : Option Nat) (ops : List Op) :
    ((({ seed, failFast } : Lifecycle).answers ops).countP didStart) ≤ 1 := by
  refine countP_answers_le (fun l => l.phase ≠ .configured) didStart (fun l op hl => ?_) (fun l op hd => ?_) _ ops
  · have hl : l.phase ≠ .configured := by simpa using hl
    simpa using fun h => hl (waiting_of_phaseAfter h).1
  · rw [didStart_step] at hd
    cases op with
    | start =>
      have hp : l.phase = .configured := by simpa [begins] using hd
      simp [hp, phaseAfter]
    | _ => cases hd

theorem countP_didCancel_le (seed : Nat) (failFast : Option Nat) (ops : List Op) :
    ((({ seed, failFast } : Lifecycle).answers ops).countP didCancel) ≤ 1 := by
  refine countP_answers_le Lifecycle.stopped didCancel (fun l op hl => ?_) (fun l op hd => ?_) _ ops
  · rw [stopped_step, hl]; rfl
  · obtain ⟨hbefore, hasks⟩ := didCancel_step hd
    exact ⟨hbefore, by rw [stopped_step, hasks, Bool.or_true]⟩

theorem countP_didAbort_le (seed : Nat) (failFast : Option Nat) (ops : List Op) :
    ((({ seed, failFast } : Lifecycle).answers ops).countP didAbort) ≤ 1 := by
  refine countP_answers_le Lifecycle.aborted didAbort (fun l op hl => ?_) (fun l op hd => ?_) _ ops
  · rw [aborted_step, hl]; rfl
  · obtain ⟨hbefore, habandons⟩ := didAbort_step hd
    exact ⟨hbefore, by rw [aborted_step, habandons, Bool.or_true]⟩

/-! ## Any calls -/

/-- **A run under any calls.** From any call on: the phase only goes forward, and not at all once the run is over. A
finish that finds the run going ends it, as cancelled if a stop was asked for before and as completed if not, and
nothing else ends it; after completion no stop is ever on, and there is no reason for one. There is a reason exactly if
a stop is on, the first for which one was asked. An abort is a stop. One start succeeds at most, one cancel and one
abort say that they were the ones, and the clock runs exactly if a start succeeded. -/
theorem run_lawful (seed : Nat) (failFast : Option Nat) (ops : List Op) :
    let fresh : Lifecycle := { seed, failFast }
    let l := fresh.run ops
    (∀ past, past <+: ops → (fresh.run past).phase.Reaches l.phase ∧
      ((fresh.run past).phase.isTerminal = true → l.phase = (fresh.run past).phase)) ∧
    (∀ past future, ops = past ++ .finish :: future → (fresh.run past).phase.isTerminal = false →
      l.phase = if (fresh.run past).stopped then .cancelled else .completed) ∧
    (l.phase.isTerminal = true →
      ∃ past future, ops = past ++ .finish :: future ∧ (fresh.run past).phase.isTerminal = false) ∧
    (∀ past, past <+: ops → (fresh.run past).phase = .completed → l.stopped = false ∧ l.reason = none) ∧
    (l.reason.isSome = l.stopped ∧ l.reason = (stopRequests failFast [] ops).head?) ∧
    (l.aborted = true → l.stopped = true) ∧
    ((fresh.answers ops).countP didStart ≤ 1 ∧ (fresh.answers ops).countP didCancel ≤ 1 ∧
      (fresh.answers ops).countP didAbort ≤ 1) ∧
    l.started = (fresh.answers ops).any didStart := by
  intro fresh l
  have h : Traced failFast ops l := traced_run seed failFast ops
  have hforward : ∀ past, past <+: ops → (fresh.run past).phase.Reaches l.phase := by
    rintro past ⟨future, rfl⟩
    show (fresh.run past).phase.Reaches (fresh.run (past ++ future)).phase
    rw [run_append]
    exact run_reaches _ future
  have hfinal : ∀ past, past <+: ops → (fresh.run past).phase.isTerminal = true → l.phase = (fresh.run past).phase :=
    fun past hp ht => (hforward past hp).eq_of_isTerminal ht
  refine ⟨fun past hp => ⟨hforward past hp, hfinal past hp⟩, ?_, ?_, ?_, ⟨h.stopped.symm, h.reason⟩, h.aborted,
    ⟨countP_didStart_le seed failFast ops, countP_didCancel_le seed failFast ops,
      countP_didAbort_le seed failFast ops⟩, ?_⟩
  · intro past future hops hlive
    have hend : (fresh.run (past ++ [.finish])).phase =
        if (fresh.run past).stopped then .cancelled else .completed := by
      rw [run_snoc, phase_step, phaseAfter_finish hlive]
    have hover : (fresh.run (past ++ [.finish])).phase.isTerminal = true := by rw [hend]; split <;> rfl
    rw [← hend]
    exact hfinal _ ⟨future, by simp [hops]⟩ hover
  · exact exists_finish rfl
  · intro past hp hcompleted
    have hphase : l.phase = .completed := by rw [hfinal past hp (by rw [hcompleted]; rfl), hcompleted]
    have hstopped : l.stopped = false := by
      have hended := h.ended (by rw [hphase]; rfl)
      cases hs : l.stopped with
      | false => rfl
      | true => rw [hphase, hs] at hended; cases hended
    refine ⟨hstopped, ?_⟩
    have hreason := h.stopped
    rw [hstopped] at hreason
    simpa using hreason.symm
  · exact (started_run fresh ops).trans (Bool.false_or _)

end Lifecycle

end LoadGen
