/-
A run that stops itself. It counts the failures since the last outcome that was none, and nothing else; this is enough
to know whether a block of failures as long as the limit ever came.

- `Ailing`: a failure that says the target is unwell.
- `HasBlock`, `EndsInBlock`: failures without a gap, as many as the limit, anywhere in a list or at its end.
- `le_fatalTail_iff`: the count reaches the limit exactly if the list ends in such a block.
- `run_failFast`: while nobody else ends or stops it, a run is stopped exactly if there is a block, at its last outcome,
  and every outcome is taken in.
-/
import LoadGen.Proofs.Run.Calls

namespace LoadGen.Lifecycle

open Metrics

/-- a failure that is not the request's own: the target answered with a server error, in time not at all, or could not
be reached -/
def Ailing (o : Outcome) : Prop :=
  o.kind = .serverErrorStatus ∨ o.kind = .networkError ∨ o.kind = .timeout

/-- some outcomes hold `n` failures without a gap -/
def HasBlock (n : Nat) (os : List Outcome) : Prop :=
  ∃ block, block <:+: os ∧ block.length = n ∧ ∀ o ∈ block, Ailing o

/-- the last `n` outcomes are failures -/
def EndsInBlock (n : Nat) (os : List Outcome) : Prop :=
  ∃ block, block <:+ os ∧ block.length = n ∧ ∀ o ∈ block, Ailing o

/-- a call that neither ends nor stops a run -/
def Op.carriesOn : Op → Bool
  | start | beginDrain | emit _ => true
  | finish | cancel _ | abort _ => false

/-! ## Blocks and the count -/

theorem isFatal_iff (o : Outcome) : o.kind.isFatal = true ↔ Ailing o := by
  unfold Ailing
  cases o.kind <;> decide

variable {n : Nat} {os : List Outcome} {o : Outcome}

theorem EndsInBlock.hasBlock (h : EndsInBlock n os) : HasBlock n os := by
  obtain ⟨block, hend, hlen, hall⟩ := h
  exact ⟨block, hend.isInfix, hlen, hall⟩

/-- a block anywhere was at the end once -/
theorem hasBlock_snoc : HasBlock n (os ++ [o]) ↔ HasBlock n os ∨ EndsInBlock n (os ++ [o]) := by
  constructor
  · rintro ⟨block, hin, hlen, hall⟩
    rcases List.infix_concat_iff.1 hin with hend | hin
    · exact .inr ⟨block, hend, hlen, hall⟩
    · exact .inl ⟨block, hin, hlen, hall⟩
  · rintro (⟨block, hin, hlen, hall⟩ | h)
    · exact ⟨block, hin.trans (List.prefix_append os [o]).isInfix, hlen, hall⟩
    · exact h.hasBlock

theorem not_hasBlock_nil (h : 1 ≤ n) : ¬ HasBlock n [] := by
  rintro ⟨block, hin, hlen, -⟩
  rw [List.infix_nil.1 hin] at hlen
  simp only [List.length_nil] at hlen
  omega

theorem endsInBlock_zero : EndsInBlock 0 os :=
  ⟨[], List.nil_suffix, rfl, fun _ h => by cases h⟩

theorem endsInBlock_succ_snoc : EndsInBlock (n + 1) (os ++ [o]) ↔ Ailing o ∧ EndsInBlock n os := by
  constructor
  · rintro ⟨block, hend, hlen, hall⟩
    rcases List.suffix_concat_iff.1 hend with rfl | ⟨front, rfl, hfront⟩
    · cases hlen
    · have hfrontlen : front.length = n := by simpa using hlen
      exact ⟨hall o (by simp), front, hfront, hfrontlen, fun p hp => hall p (by simp [hp])⟩
  · rintro ⟨hail, front, hfront, hlen, hall⟩
    refine ⟨front ++ [o], ?_, by simp [hlen], fun p hp => ?_⟩
    · obtain ⟨t, rfl⟩ := hfront
      exact ⟨t, by simp⟩
    · rcases List.mem_append.1 hp with hp | hp
      · exact hall p hp
      · rw [List.mem_singleton.1 hp]; exact hail

/-- **The count is enough**: it is at least `n` exactly if the last `n` outcomes are failures -/
theorem le_fatalTail_iff (n : Nat) (os : List Outcome) : n ≤ fatalTail os ↔ EndsInBlock n os := by
  -- from the end, where the last outcome decides on both sides
  induction os using List.reverseRecOn generalizing n with
  | nil =>
    constructor
    · intro h
      rw [Nat.le_zero.1 h]; exact endsInBlock_zero
    · rintro ⟨block, hend, rfl, -⟩
      rw [List.suffix_nil.1 hend]; exact Nat.le_refl 0
  | append_singleton os o ih =>
    cases n with
    | zero => exact ⟨fun _ => endsInBlock_zero, fun _ => Nat.zero_le _⟩
    | succ n =>
      rw [fatalTail_snoc, endsInBlock_succ_snoc, ← ih, ← isFatal_iff]
      cases o.kind.isFatal <;> simp

/-! ## A run that nobody else stops -/

variable {limit : Nat} {ops : List Op} {l : Lifecycle}

theorem over_of_carriesOn (hops : ∀ op ∈ ops, op.carriesOn = true) : ops.any Op.isFinish = false := by
  refine List.any_eq_false.2 fun op hop => ?_
  have h := hops op hop
  cases op with
  | finish => cases h
  | _ => exact Bool.false_ne_true

/-- what asks for a stop, if nobody else does: an outcome with which the list of them ends in a block -/
theorem Traced.asks?_of_carriesOn (h : Traced (some limit) ops l) (hlimit : 1 ≤ limit)
    (hops : ∀ op ∈ ops, op.carriesOn = true) {op : Op} (hop : op.carriesOn = true) :
    (l.asks? op).isSome = true ↔ ∃ o, op = .emit o ∧ EndsInBlock limit (outcomes ops ++ [o]) := by
  rw [h.asks?_eq]
  unfold stopRequest?
  rw [over_of_carriesOn hops]
  cases op with
  | start => simp
  | beginDrain => simp
  | emit o =>
    have hend : EndsInBlock limit (outcomes ops ++ [o]) ↔
        o.kind.isFatal = true ∧ limit ≤ fatalTail (outcomes ops) + 1 := by
      rw [← le_fatalTail_iff, fatalTail_snoc]
      cases o.kind.isFatal
      · simp only [Bool.false_eq_true, if_false, false_and, iff_false]; omega
      · simp
    cases hf : o.kind.isFatal <;> simp [hend, hf]
  | finish => cases hop
  | cancel reason => cases hop
  | abort reason => cases hop

/-- the reason names the limit: one failure less would not have been a block, so the count is not beyond it -/
theorem Traced.reason_of_carriesOn (h : Traced (some limit) ops l) (hops : ∀ op ∈ ops, op.carriesOn = true)
    {op : Op} (hop : op.carriesOn = true) (hno : ¬ HasBlock limit (outcomes ops)) :
    l.asks? op = none ∨ l.asks? op = some (streakReason limit) := by
  rw [h.asks?_eq]
  unfold stopRequest?
  rw [over_of_carriesOn hops]
  cases op with
  | start => exact .inl rfl
  | beginDrain => exact .inl rfl
  | emit o =>
    have hbelow : fatalTail (outcomes ops) < limit := by
      refine Nat.lt_of_not_le fun hle => hno ?_
      exact ((le_fatalTail_iff limit (outcomes ops)).1 hle).hasBlock
    cases hf : o.kind.isFatal with
    | false => simp [hf]
    | true =>
      by_cases hreach : limit ≤ fatalTail (outcomes ops) + 1
      · have heq : fatalTail (outcomes ops) + 1 = limit := by omega
        simp [hf, heq]
      · simp [hf, hreach]
  | finish => cases hop
  | cancel reason => cases hop
  | abort reason => cases hop

/-- every outcome is taken in, once, whatever else is called -/
theorem metrics_run (l : Lifecycle) (ops : List Op) :
    (l.run ops).metrics = l.metrics.run ((outcomes ops).map .outcome) := by
  induction ops generalizing l with
  | nil => rfl
  | cons op ops ih =>
    have hrest := ih (l.step op).1
    rw [step_eq] at hrest
    show ((l.step op).1.run ops).metrics = _
    rw [step_eq, hrest]
    cases op <;> rfl

theorem hasBlock_call (ops : List Op) (op : Op) :
    HasBlock n (outcomes (ops ++ [op])) ↔
      HasBlock n (outcomes ops) ∨ ∃ o, op = .emit o ∧ EndsInBlock n (outcomes ops ++ [o]) := by
  cases op with
  | emit o => simp [Op.outcome?, hasBlock_snoc]
  | _ => simp [Op.outcome?]

theorem stopped_run (seed : Nat) (hlimit : 1 ≤ limit) (hops : ∀ op ∈ ops, op.carriesOn = true) :
    (({ seed, failFast := some limit } : Lifecycle).run ops).stopped = true ↔ HasBlock limit (outcomes ops) := by
  induction ops using List.reverseRecOn with
  | nil => exact ⟨(fun h => by cases h), fun h => absurd h (not_hasBlock_nil hlimit)⟩
  | append_singleton ops op ih =>
    have hpast : ∀ op ∈ ops, op.carriesOn = true := fun op hop => hops op (List.mem_append_left _ hop)
    have hop : op.carriesOn = true := hops op (by simp)
    rw [run_snoc, stopped_step, Bool.or_eq_true, ih hpast, hasBlock_call,
      (traced_run seed (some limit) ops).asks?_of_carriesOn hlimit hpast hop]

theorem reason_run (seed : Nat) (hlimit : 1 ≤ limit) (hops : ∀ op ∈ ops, op.carriesOn = true) :
    let l := ({ seed, failFast := some limit } : Lifecycle).run ops
    l.reason = if l.stopped then some (streakReason limit) else none := by
  induction ops using List.reverseRecOn with
  | nil => rfl
  | append_singleton ops op ih =>
    intro l
    have hpast : ∀ op ∈ ops, op.carriesOn = true := fun op hop => hops op (List.mem_append_left _ hop)
    have hop : op.carriesOn = true := hops op (by simp)
    have hreason := ih hpast
    have hblock := stopped_run seed hlimit hpast
    have htraced := traced_run seed (some limit) ops
    have hlast : l = ((({ seed, failFast := some limit } : Lifecycle).run ops).step op).1 := run_snoc _ ops op
    rw [hlast, reason_step, stopped_step]
    generalize ({ seed, failFast := some limit } : Lifecycle).run ops = before at hreason hblock htraced ⊢
    simp only at hreason
    cases hs : before.stopped with
    | true => simp [hreason, hs]
    | false =>
      have hno : ¬ HasBlock limit (outcomes ops) := fun h => by rw [hblock.2 h] at hs; cases hs
      rcases htraced.reason_of_carriesOn hpast hop hno with hq | hq <;> simp [hreason, hs, hq]

/-- **A run stops itself exactly when it should.** Calls that neither end nor stop the run lead to a stop exactly if
their outcomes hold as many failures without a gap as the limit. It comes with the outcome that completes the first such
block and with no other call, its reason names the limit, and every outcome is taken in once, also after it. However
many responses there are that succeed or say that the request is at fault, they stop nothing. -/
theorem run_failFast (seed limit : Nat) (hlimit : 1 ≤ limit) (ops : List Op)
    (hops : ∀ op ∈ ops, op.carriesOn = true) :
    let fresh : Lifecycle := { seed, failFast := some limit }
    let l := fresh.run ops
    (l.stopped = true ↔ HasBlock limit (outcomes ops)) ∧
    (∀ past op future, ops = past ++ op :: future →
      (((fresh.run past).stopped = false ∧ (fresh.run (past ++ [op])).stopped = true) ↔
        ¬ HasBlock limit (outcomes past) ∧ ∃ o, op = .emit o ∧ EndsInBlock limit (outcomes past ++ [o]))) ∧
    l.reason = (if l.stopped then some (streakReason limit) else none) ∧
    l.metrics = ({} : Aggregate).run ((outcomes ops).map .outcome) ∧
    ((∀ o ∈ outcomes ops, o.kind = .successStatus ∨ o.kind = .clientErrorStatus) → l.stopped = false) := by
  intro fresh l
  have hstopped : l.stopped = true ↔ HasBlock limit (outcomes ops) := stopped_run seed hlimit hops
  refine ⟨hstopped, fun past op future hsplit => ?_, reason_run seed hlimit hops, metrics_run fresh ops,
    fun hmild => ?_⟩
  · have hpast : ∀ op ∈ past, op.carriesOn = true := fun op hop => hops op (by simp [hsplit, hop])
    have hnow : ∀ op' ∈ past ++ [op], op'.carriesOn = true := fun op' hop => hops op' (by
      rcases List.mem_append.1 hop with hop | hop
      · simp [hsplit, hop]
      · simp [hsplit, List.mem_singleton.1 hop])
    rw [stopped_run seed hlimit hnow, hasBlock_call, ← Bool.not_eq_true, stopped_run seed hlimit hpast]
    constructor
    · rintro ⟨hno, hyes | hend⟩
      · exact absurd hyes hno
      · exact ⟨hno, hend⟩
    · rintro ⟨hno, hend⟩
      exact ⟨hno, .inr hend⟩
  · refine Bool.eq_false_iff.2 fun hs => ?_
    obtain ⟨block, hin, hlen, hall⟩ := hstopped.1 hs
    have hne : block ≠ [] := List.ne_nil_of_length_pos (by omega)
    obtain ⟨o, ho⟩ := List.exists_mem_of_ne_nil block hne
    have hail := hall o ho
    unfold Ailing at hail
    rcases hmild o (hin.subset ho) with hk | hk <;> simp [hk] at hail

/-- two timeouts, a refusal that counts for nothing, three timeouts and a response after the end -/
def ailing : List Op :=
  let late := fun seq => Op.emit (.failure seq 0 .timeout "timeout" .zero (.ofMillis 1))
  [.start, late 0, late 1, .emit (.response 2 0 429 .zero .zero), late 3, late 4, late 5,
    .emit (.response 6 0 200 .zero .zero)]

/-- the general theorem at a limit of three -/
theorem run_failFast_thrice :
    (∀ op ∈ ailing, op.carriesOn = true) ∧ HasBlock 3 (outcomes ailing) ∧
      (({ seed := 0, failFast := some 3 } : Lifecycle).run ailing).reason = some "3 consecutive failed iterations" := by
  have hops : ∀ op ∈ ailing, op.carriesOn = true := by decide
  obtain ⟨hstopped, -, hreason, -, -⟩ := run_failFast 0 3 (by decide) ailing hops
  have hs : (({ seed := 0, failFast := some 3 } : Lifecycle).run ailing).stopped = true := by decide
  refine ⟨hops, hstopped.1 hs, ?_⟩
  rw [hreason, hs]
  rfl

end LoadGen.Lifecycle
