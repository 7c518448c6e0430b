/-
The search for the next arrival of a ramp, in exact arithmetic. Arrival `k` is due at the first instant that counts as
having `k + 1` arrivals: one by which there are as many, or the end of a stage that misses it by no more than the slack.
These are instants of the ramp as a whole. What the search carries from stage to stage says where in the ramp it is, and
that the next arrival is further on by more than the slack, so no end of a stage counts twice.

- `Counting`: the instants that count as having some number of arrivals.
- `Remains`, `Ready`: where in a ramp some stages begin, and what holds between two arrivals.
- `seek_finds`: the next arrival is at the first instant that counts, or none counts before the end.
- `yields_firsts`: so it is for all arrivals, and they end.
-/
import LoadGen.Proofs.Arrival.Solving

namespace LoadGen.RampingArrivals

open RateArithmetic Set

/-- seconds that some stages last together -/
noncomputable def span : List Stage → ℝ
  | [] => 0
  | s :: rest => s.duration.seconds + span rest

/-- the ends of all stages, in seconds from the start of the first -/
noncomputable def ends : List Stage → List ℝ
  | [] => []
  | s :: rest => s.duration.seconds :: (ends rest).map (s.duration.seconds + ·)

/-- the instants that count as having `m` arrivals: there are as many, or a stage ends and the slack makes up for the
rest -/
def Counting (u r₀ : ℝ) (stages : List Stage) (m : ℝ) : Set ℝ :=
  {t | 0 ≤ t ∧ t ≤ span stages ∧
    (m ≤ arrivalsBy u r₀ stages t ∨ t ∈ ends stages ∧ m ≤ arrivalsBy u r₀ stages t + slack)}

/-- after `start` seconds and `before` arrivals of a ramp, `rest` is what remains of it -/
structure Remains (u r₀ : ℝ) (stages : List Stage) (rate start before : ℝ) (rest : List Stage) : Prop where
  rate_nonneg : 0 ≤ rate
  start_nonneg : 0 ≤ start
  lasting : ∀ s ∈ rest, 0 < s.duration.nanos
  span_eq : span stages = start + span rest
  arrivals : ∀ x, 0 ≤ x → arrivalsBy u r₀ stages (start + x) = before + arrivalsBy u rate rest x
  ends_iff : ∀ x, 0 < x → (start + x ∈ ends stages ↔ x ∈ ends rest)

/-- what holds before arrival `k` is looked for -/
structure Ready (u r₀ : ℝ) (stages : List Stage) (total : Duration) (k : Nat) (a : RampingArrivals ℝ) : Prop where
  timeUnit : a.timeUnit = u
  total : a.total = total
  taken : a.taken = k
  remains : Remains u r₀ stages a.rate a.start a.before a.stages
  /-- the end of the stage before does not count -/
  missing : a.before + slack < ↑(k + 1)

/-- the offsets of all arrivals from arrival `k` on, each the first instant that counts -/
structure Firsts (u r₀ : ℝ) (stages : List Stage) (total : Duration) (k : Nat) (offsets : List ℝ) : Prop where
  first : ∀ i (hi : i < offsets.length), IsLeast (Counting u r₀ stages ↑(k + i + 1)) offsets[i]
  before : ∀ t ∈ offsets, t < total.seconds
  /-- for one more no instant counts before the end -/
  after : ∀ t ∈ Counting u r₀ stages ↑(k + offsets.length + 1), total.seconds ≤ t

variable {u r₀ rate start before m t x : ℝ} {s : Stage} {stages rest : List Stage} {total : Duration} {k : Nat}

/-! ## Stages -/

theorem span_nonneg (stages : List Stage) : 0 ≤ span stages := by
  induction stages with
  | nil => exact le_rfl
  | cons s rest ih => exact add_nonneg s.duration.seconds_nonneg ih

theorem mem_ends_cons : t ∈ ends (s :: rest) ↔ t = s.duration.seconds ∨ t - s.duration.seconds ∈ ends rest := by
  rw [ends, List.mem_cons, List.mem_map]
  constructor
  · rintro (rfl | ⟨e, he, rfl⟩)
    · exact .inl rfl
    · exact .inr (by rwa [add_sub_cancel_left])
  · rintro (rfl | he)
    · exact .inl rfl
    · exact .inr ⟨_, he, add_sub_cancel _ _⟩

/-- a stage ends within the ramp -/
theorem ends_bounds (ht : t ∈ ends stages) : 0 ≤ t ∧ t ≤ span stages := by
  induction stages generalizing t with
  | nil => cases ht
  | cons s rest ih =>
    have hd := s.duration.seconds_nonneg
    rw [span]
    rcases mem_ends_cons.1 ht with rfl | ht
    · exact ⟨hd, le_add_of_nonneg_right (span_nonneg rest)⟩
    · obtain ⟨hfrom, hto⟩ := ih ht
      constructor <;> linarith

theorem le_of_mem_ends (ht : t ∈ ends (s :: rest)) : s.duration.seconds ≤ t := by
  rcases mem_ends_cons.1 ht with rfl | ht
  · exact le_rfl
  · exact sub_nonneg.1 (ends_bounds ht).1

/-! ## Where the search is -/

theorem Remains.all (hr : 0 ≤ r₀) (h : ∀ s ∈ stages, 0 < s.duration.nanos) : Remains u r₀ stages r₀ 0 0 stages := by
  constructor
  case rate_nonneg => exact hr
  case start_nonneg => exact le_rfl
  case lasting => exact h
  case span_eq => exact (zero_add _).symm
  case arrivals => exact fun x _ => by rw [zero_add, zero_add]
  case ends_iff => exact fun x _ => by rw [zero_add]

/-- past a stage the others remain -/
theorem Remains.next (hu : 0 < u) (h : Remains u r₀ stages rate start before (s :: rest)) :
    Remains u r₀ stages s.target (start + s.duration.seconds)
      (before + stageTotal u rate s.target s.duration.seconds) rest := by
  have hd := Duration.seconds_pos (h.lasting s List.mem_cons_self)
  constructor
  case rate_nonneg => exact Nat.cast_nonneg _
  case start_nonneg => exact add_nonneg h.start_nonneg hd.le
  case lasting => exact fun s' hs' => h.lasting s' (List.mem_cons_of_mem s hs')
  case span_eq => rw [h.span_eq, span, add_assoc]
  case arrivals =>
    intro x hx
    rw [add_assoc, h.arrivals _ (add_nonneg hd.le hx), arrivalsBy_add hu h.lasting hx, add_assoc]
  case ends_iff =>
    intro x hx
    rw [add_assoc, h.ends_iff _ (add_pos hd hx), mem_ends_cons, add_sub_cancel_left]
    exact or_iff_right (by linarith)

theorem Remains.arrivals_start (h : Remains u r₀ stages rate start before rest) :
    arrivalsBy u r₀ stages start = before := by
  have hstart := h.arrivals 0 le_rfl
  rwa [add_zero, arrivalsBy_zero, add_zero] at hstart

/-! ## Offsets -/

theorem Firsts.nil (after : ∀ t ∈ Counting u r₀ stages ↑(k + 1), total.seconds ≤ t) :
    Firsts u r₀ stages total k [] := by
  constructor
  case first => exact fun i hi => absurd hi (Nat.not_lt_zero i)
  case before => exact fun t ht => absurd ht List.not_mem_nil
  case after => exact after

theorem Firsts.cons {offset : ℝ} {offsets : List ℝ} (first : IsLeast (Counting u r₀ stages ↑(k + 1)) offset)
    (before : offset < total.seconds) (h : Firsts u r₀ stages total (k + 1) offsets) :
    Firsts u r₀ stages total k (offset :: offsets) := by
  constructor
  case first =>
    intro i hi
    cases i with
    | zero => exact first
    | succ i =>
      have hlater := h.first i (Nat.lt_of_succ_lt_succ hi)
      rwa [Nat.add_right_comm k 1 i] at hlater
  case before =>
    intro t ht
    rcases List.mem_cons.1 ht with rfl | ht
    · exact before
    · exact h.before t ht
  case after =>
    have hafter := h.after
    rwa [Nat.add_right_comm k 1] at hafter

section

variable (hu : 0 < u) (hr : 0 ≤ r₀) (hstages : ∀ s ∈ stages, 0 < s.duration.nanos)

include hu hr hstages

/-! ## The next arrival -/

/-- an instant that counts as having `m` arrivals has as many but for the slack, and so has every later one -/
theorem le_of_mem_counting (ht : t ∈ Counting u r₀ stages m) (htx : t ≤ x) :
    m ≤ arrivalsBy u r₀ stages x + slack := by
  obtain ⟨hfrom, -, hcount⟩ := ht
  have hmono := arrivalsBy_mono hu hr hstages hfrom htx
  have hslack := slack_pos
  rcases hcount with hmany | ⟨-, hend⟩ <;> linarith

/-- nothing up to the start of what remains counts as having more arrivals than that, by more than the slack -/
theorem Remains.start_lt (h : Remains u r₀ stages rate start before rest) (hm : before + slack < m)
    (ht : t ∈ Counting u r₀ stages m) : start < t := by
  by_contra hle
  have hcount := le_of_mem_counting hu hr hstages ht (not_lt.1 hle)
  rw [h.arrivals_start] at hcount
  exact hcount.not_gt hm

/-- the first time in a stage is the first instant of the ramp that counts -/
theorem Remains.isLeast (h : Remains u r₀ stages rate start before (s :: rest)) (hm : before + slack < m)
    (hfirst : FirstIn (arrivalsIn u rate s.target s.duration.seconds) s.duration.seconds (m - before) t) :
    IsLeast (Counting u r₀ stages m) (start + t) := by
  have hd := Duration.seconds_pos (h.lasting s List.mem_cons_self)
  have hin (x : ℝ) (hx : 0 ≤ x) (hxd : x ≤ s.duration.seconds) :
      arrivalsBy u r₀ stages (start + x) = before + arrivalsIn u rate s.target s.duration.seconds x := by
    rw [h.arrivals x hx, arrivalsBy_within h.lasting hx hxd]
  constructor
  · have hspan := span_nonneg rest
    refine ⟨add_nonneg h.start_nonneg hfirst.nonneg, ?_, ?_⟩
    · rw [h.span_eq, span]
      linarith [hfirst.le_end]
    · rw [hin t hfirst.nonneg hfirst.le_end]
      rcases hfirst.reached with hmany | ⟨rfl, hend⟩
      · exact .inl (by linarith)
      · exact .inr ⟨(h.ends_iff _ hd).2 (mem_ends_cons.2 (.inl rfl)), by linarith⟩
  · intro t' ht'
    have hstart := h.start_lt hu hr hstages hm ht'
    obtain ⟨x, rfl⟩ : ∃ x, t' = start + x := ⟨t' - start, (add_sub_cancel _ _).symm⟩
    have hx : 0 < x := pos_of_lt_add_right hstart
    by_contra hlt
    have hxt : x < t := by linarith
    have hxd : x < s.duration.seconds := hxt.trans_le hfirst.le_end
    have hfew := hfirst.before x hx.le hxt
    obtain ⟨-, -, hmany | ⟨hend, -⟩⟩ := ht'
    · rw [hin x hx.le hxd.le] at hmany
      linarith
    · exact (le_of_mem_ends ((h.ends_iff x hx).1 hend)).not_gt hxd

/-- what the search for arrival `k` comes to: it is due at the first instant that counts, if that is before the end -/
inductive Finds (u r₀ : ℝ) (stages : List Stage) (total : Duration) (k : Nat) :
    NextArrival (RampingArrivals ℝ) ℝ → Prop
  | due {offset : ℝ} {next : RampingArrivals ℝ} (first : IsLeast (Counting u r₀ stages ↑(k + 1)) offset)
      (before : offset < total.seconds) (ready : Ready u r₀ stages total (k + 1) next) :
      Finds u r₀ stages total k (.due offset next)
  | finished {last : RampingArrivals ℝ} (after : ∀ t ∈ Counting u r₀ stages ↑(k + 1), total.seconds ≤ t) :
      Finds u r₀ stages total k (.finished last)

/-- **The search**, by induction on the stages that remain -/
theorem seek_finds {a : RampingArrivals ℝ} (hunit : a.timeUnit = u)
    (h : Remains u r₀ stages rate start before rest) (hmissing : before + slack < ↑(a.taken + 1)) :
    Finds u r₀ stages a.total a.taken (a.seek rest rate start before) := by
  subst hunit
  induction rest generalizing rate start before with
  | nil =>
    refine .finished fun t ht => ?_
    have hend := ht.2.1
    have hstart := h.start_lt hu hr hstages hmissing ht
    rw [h.span_eq, span, add_zero] at hend
    exact absurd hstart hend.not_gt
  | cons s rest ih =>
    have hd := Duration.seconds_pos (h.lasting s List.mem_cons_self)
    simp only [seek, ofNat_real, ofDuration_real]
    rcases lt_or_ge (stageTotal a.timeUnit rate s.target s.duration.seconds + slack) (↑(a.taken + 1) - before)
      with hmiss | hreach
    · rw [timeWithin?_eq_none hmiss]
      exact ih (by linarith) (h.next hu)
    · obtain ⟨t, hfound, hfirst⟩ :=
        timeWithin?_eq_some hu h.rate_nonneg (Nat.cast_nonneg s.target) hd (lt_sub_iff_add_lt'.2 hmissing) hreach
      have hleast := h.isLeast hu hr hstages hmissing hfirst
      have hoffset := toSpan?_real (add_nonneg h.start_nonneg hfirst.nonneg)
      simp only [hfound, hoffset]
      split
      case isTrue hover => exact .finished fun t' ht' => (isOver_real.1 hover).trans (hleast.2 ht')
      case isFalse hbefore =>
        refine .due hleast (not_le.1 fun hle => hbefore (isOver_real.2 hle)) ?_
        constructor
        case timeUnit => rfl
        case total => rfl
        case taken => rfl
        case remains => exact h
        case missing =>
          push_cast at hmissing ⊢
          linarith

theorem pop_finds {a : RampingArrivals ℝ} (h : Ready u r₀ stages total k a) :
    Finds u r₀ stages total k a.pop := by
  obtain ⟨rfl, rfl, rfl, hremains, hmissing⟩ := h
  rw [pop, ofNat_real, Nat.cast_zero, if_neg (by simpa using hu)]
  exact seek_finds hu hr hstages rfl hremains hmissing

/-! ## All arrivals -/

/-- **A run from arrival `k` to the end**, by induction on how many more the ramp has room for -/
theorem yields_firsts {n : Nat} {a : RampingArrivals ℝ} (h : Ready u r₀ stages total k a)
    (hroom : arrivalsBy u r₀ stages (span stages) + slack < ↑(k + n + 1)) :
    ∃ offsets, Yields pop a offsets ∧ Firsts u r₀ stages total k offsets := by
  induction n generalizing k a with
  | zero =>
    have hfinds := pop_finds hu hr hstages h
    generalize hpop : a.pop = result at hfinds
    cases hfinds with
    | due first before ready => exact absurd (le_of_mem_counting hu hr hstages first.1 first.1.2.1) hroom.not_ge
    | finished after => exact ⟨[], .finished hpop, .nil after⟩
  | succ n ih =>
    have hfinds := pop_finds hu hr hstages h
    generalize hpop : a.pop = result at hfinds
    cases hfinds with
    | due first before ready =>
      obtain ⟨offsets, hlater, hfirsts⟩ := ih ready (by rwa [Nat.add_right_comm k 1 n])
      exact ⟨_ :: offsets, .due hpop hlater, .cons first before hfirsts⟩
    | finished after => exact ⟨[], .finished hpop, .nil after⟩

end

end LoadGen.RampingArrivals
