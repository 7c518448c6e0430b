/-
The quota endpoint as a limiter. Its windows open at a client's own requests, so an interval of a minute may begin in
the middle of one; but the next window opens a minute after it at the earliest, so no more than two meet the interval,
and each lets no more than the limit through.

- `FixedWindow.admitted`: the hits within the limit of their windows.
- `countP_admitted_open`, `countP_admitted_before`: how many of them are in the last window, and how many before it in
  less than a minute.
- `countP_admitted_minute`: how many are in a minute, wherever it starts.
- `Server.serve`: what a server answers to requests in turn; `statuses_serve`: to those of one client.
- `quota_limits`: both of it for the quota endpoint, whatever other clients do and whenever windows are forgotten.
-/
import Mathlib.Data.List.Infix
import LoadGen.Proofs.Stub.Quota
import LoadGen.Proofs.Web.Form
import LoadGen.Stub.Server

namespace LoadGen.Stub

/-! ## Hits within a limit -/

namespace FixedWindow

variable {hits : List Duration} {now start : Duration} {limit : Nat}

/-- the hits that are not too many in their windows -/
def admitted (limit : Nat) (hits : List Duration) : List Duration :=
  (hits.inits.tail.filter fun seen => count seen ≤ limit).filterMap List.getLast?

theorem inits_tail_concat {α : Type} (l : List α) (a : α) : (l ++ [a]).inits.tail = l.inits.tail ++ [l ++ [a]] := by
  rw [List.inits_append]
  cases l <;> simp

theorem admitted_concat (limit : Nat) (hits : List Duration) (now : Duration) :
    admitted limit (hits ++ [now]) =
      admitted limit hits ++ if count (hits ++ [now]) ≤ limit then [now] else [] := by
  rw [admitted, inits_tail_concat, List.filter_append, List.filterMap_append, List.filter_singleton]
  by_cases hcount : count (hits ++ [now]) ≤ limit
  · simp [admitted, hcount]
  · simp [admitted, hcount]

theorem mem_of_mem_admitted {t : Duration} (h : t ∈ admitted limit hits) : t ∈ hits := by
  induction hits using List.reverseRecOn with
  | nil => simp [admitted] at h
  | append_singleton hits now ih =>
    rw [admitted_concat] at h
    rcases List.mem_append.1 h with h | h
    · exact List.mem_append_left _ (ih h)
    · split at h
      · exact List.mem_append_right _ h
      · cases h

theorem countP_admitted_concat (p : Duration → Bool) (limit : Nat) (hits : List Duration) (now : Duration) :
    (admitted limit (hits ++ [now])).countP p =
      (admitted limit hits).countP p + if count (hits ++ [now]) ≤ limit ∧ p now = true then 1 else 0 := by
  rw [admitted_concat, List.countP_append]
  by_cases hcount : count (hits ++ [now]) ≤ limit
  · simp [hcount, List.countP_singleton]
  · simp [hcount]

/-- a hit opens a window, after all that came before it, or is one more in the window that is open -/
theorem window_cases (hordered : (hits ++ [now]).Pairwise (· ≤ ·)) :
    (opened (hits ++ [now]) = now ∧ count (hits ++ [now]) = 1 ∧
      ∀ t ∈ hits, t < now ∧ windowLength ≤ now - opened hits) ∨
    (opened (hits ++ [now]) = opened hits ∧ count (hits ++ [now]) = count hits + 1 ∧ opened hits ≤ now) := by
  by_cases hnil : hits = []
  · subst hnil
    exact .inl ⟨rfl, count_singleton now, fun t ht => absurd ht List.not_mem_nil⟩
  · rw [opened_concat hnil, count_concat hnil hordered, reopen]
    split
    · rename_i hended
      refine .inl ⟨rfl, rfl, fun t ht => ⟨?_, hended⟩⟩
      have hopen := sub_opened_lt (List.pairwise_append.1 hordered).1 t ht
      simp only [Duration.le_iff, Duration.lt_iff, Duration.nanos_sub] at hopen hended ⊢
      omega
    · exact .inr ⟨rfl, rfl, le_of_ordered hordered _ (opened_mem hnil)⟩

/-- **The last window lets the limit through**: as many of its hits as there are, up to the limit -/
theorem countP_admitted_open (limit : Nat) (hordered : hits.Pairwise (· ≤ ·)) :
    (admitted limit hits).countP (fun t => opened hits ≤ t) = min (count hits) limit := by
  induction hits using List.reverseRecOn with
  | nil => simp [admitted, count]
  | append_singleton hits now ih =>
    rw [countP_admitted_concat]
    rcases window_cases hordered with ⟨hopened, hcount, hearlier⟩ | ⟨hopened, hcount, hsame⟩
    · -- the hits of earlier windows are all before it
      have hnone : (admitted limit hits).countP (fun t => decide (now ≤ t)) = 0 := by
        refine List.countP_eq_zero.2 fun t ht hge => ?_
        exact Nat.not_lt.2 (of_decide_eq_true hge) (hearlier t (mem_of_mem_admitted ht)).1
      have hnow : decide (now ≤ now) = true := decide_eq_true (Nat.le_refl _)
      simp only [hopened, hcount, hnone, hnow, and_true]
      split <;> omega
    · simp only [hopened, hcount, decide_eq_true hsame, and_true, ih (List.pairwise_append.1 hordered).1]
      split <;> omega

/-- **Before the last window, in less than a minute**, only the window before it can have let hits through -/
theorem countP_admitted_before (limit : Nat) (hordered : hits.Pairwise (· ≤ ·))
    (hstart : opened hits - start < windowLength) :
    (admitted limit hits).countP (fun t => start ≤ t ∧ t < opened hits) ≤ limit := by
  induction hits using List.reverseRecOn with
  | nil => simp [admitted]
  | append_singleton hits now ih =>
    have hbefore := (List.pairwise_append.1 hordered).1
    rw [countP_admitted_concat]
    rcases window_cases hordered with ⟨hopened, -, hearlier⟩ | ⟨hopened, -, hsame⟩
    · -- the window before opened a minute ago, before the interval starts
      have hlast : (admitted limit hits).countP (fun t => decide (start ≤ t ∧ t < now)) ≤
          (admitted limit hits).countP (fun t => decide (opened hits ≤ t)) := by
        refine List.countP_mono_left fun t ht hin => decide_eq_true ?_
        have hended := (hearlier t (mem_of_mem_admitted ht)).2
        have hin := (of_decide_eq_true hin).1
        rw [hopened] at hstart
        simp only [Duration.le_iff, Duration.lt_iff, Duration.nanos_sub] at hstart hended hin ⊢
        omega
      have hopen := countP_admitted_open limit hbefore
      have hnow : decide (start ≤ now ∧ now < now) = false := decide_eq_false fun h => Nat.lt_irrefl _ h.2
      simp only [hopened, hnow, Bool.false_eq_true, and_false, if_false]
      omega
    · have hnow : decide (start ≤ now ∧ now < opened hits) = false :=
        decide_eq_false fun h => Nat.not_lt.2 hsame h.2
      rw [hopened] at hstart
      simp only [hopened, hnow, Bool.false_eq_true, and_false, if_false]
      exact ih hbefore hstart

/-- a count is at most that of two properties of which every member has one -/
theorem countP_le_add {α : Type} {l : List α} {p q r : α → Bool}
    (h : ∀ a ∈ l, p a = true → q a = true ∨ r a = true) : l.countP p ≤ l.countP q + l.countP r := by
  rw [List.countP_eq_countP_filter_add l p q, List.countP_filter, List.countP_filter]
  refine Nat.add_le_add (List.countP_mono_left fun a _ hboth => ?_) (List.countP_mono_left fun a ha hboth => ?_)
  · exact (Bool.and_eq_true_iff.1 hboth).2
  · obtain ⟨hp, hq⟩ := Bool.and_eq_true_iff.1 hboth
    exact (h a ha hp).resolve_left fun hqa => by rw [hqa] at hq; cases hq

/-- **Twice the limit in a minute**, wherever it starts -/
theorem countP_admitted_minute (limit : Nat) (hordered : hits.Pairwise (· ≤ ·)) (start : Duration) :
    (admitted limit hits).countP (fun t => start ≤ t ∧ t - start < windowLength) ≤ 2 * limit := by
  induction hits using List.reverseRecOn with
  | nil => simp [admitted]
  | append_singleton hits now ih =>
    by_cases hin : now - start < windowLength
    · have hopened : opened (hits ++ [now]) ≤ now := by
        rcases window_cases hordered with ⟨hopened, -⟩ | ⟨hopened, -, hsame⟩
        · rw [hopened]
          exact Nat.le_refl _
        · rw [hopened]
          exact hsame
      have hstart : opened (hits ++ [now]) - start < windowLength :=
        Nat.lt_of_le_of_lt (Nat.sub_le_sub_right hopened _) hin
      have hbefore := countP_admitted_before limit hordered hstart
      have hopen := countP_admitted_open limit hordered
      refine Nat.le_trans (countP_le_add fun t _ ht => ?_) (Nat.le_trans (Nat.add_le_add hbefore (le_of_eq hopen)) ?_)
      · simp only [decide_eq_true_eq] at ht ⊢
        rcases Nat.lt_or_ge t.nanos (opened (hits ++ [now])).nanos with hlt | hge
        · exact .inl ⟨ht.1, hlt⟩
        · exact .inr hge
      · omega
    · have hnow : decide (start ≤ now ∧ now - start < windowLength) = false := decide_eq_false fun h => hin h.2
      rw [countP_admitted_concat, hnow]
      simp only [Bool.false_eq_true, and_false, if_false]
      exact ih (List.pairwise_append.1 hordered).1

end FixedWindow

/-! ## Requests in turn -/

/-- a request with its instant and what the server answers to it -/
structure Served where
  now : Duration
  request : Incoming
  answer : Answer
  deriving DecidableEq

/-- the quota endpoint is asked, with a limit of its own -/
structure Incoming.AsksQuota (r : Incoming) (limit : Nat) : Prop where
  method : r.method = "GET" ∨ r.method = "HEAD"
  path : r.path = Endpoint.quota.path
  query : r.query = s!"limit={limit}"

/-- the instants of the requests of one client -/
def instantsOf (client : String) (requests : List (Duration × Incoming)) : List Duration :=
  (requests.filter fun r => r.2.client = client).map Prod.fst

namespace Server

variable {s : Server} {r : Incoming} {now : Duration} {limit : Nat}

/-- the server after some requests -/
def run (s : Server) (requests : List (Duration × Incoming)) : Server :=
  requests.foldl (fun s r => (s.answer r.1 r.2).1) s

/-- what the server answers to some requests in turn -/
def serve (s : Server) : List (Duration × Incoming) → List Served
  | [] => []
  | (now, r) :: later => ⟨now, r, (s.answer now r).2⟩ :: (s.answer now r).1.serve later

theorem serve_concat (s : Server) (requests : List (Duration × Incoming)) (now : Duration) (r : Incoming) :
    s.serve (requests ++ [(now, r)]) = s.serve requests ++ [⟨now, r, ((s.run requests).answer now r).2⟩] := by
  induction requests generalizing s with
  | nil => rfl
  | cons first requests ih => exact congrArg _ (ih _)

theorem serve_requests (s : Server) (requests : List (Duration × Incoming)) :
    (s.serve requests).map (fun e => (e.now, e.request)) = requests := by
  induction requests generalizing s with
  | nil => rfl
  | cons first requests ih => exact congrArg _ (ih _)

/-- what a hit within the limit, or one too many, is answered -/
theorem quota_eq (s : Server) (now : Duration) (r : Incoming) (limit : Nat) :
    (s.quota now r limit).1.quotas = (s.quotas.hit ⟨r.client, r.path⟩ now).1 ∧
      (s.quota now r limit).2.status = if (s.quotas.hit ⟨r.client, r.path⟩ now).2 ≤ limit then 200 else 429 := by
  simp only [quota]
  split
  · rename_i hmany
    exact ⟨rfl, (if_neg (Nat.not_le.2 hmany)).symm⟩
  · rename_i hwithin
    exact ⟨rfl, (if_pos (Nat.le_of_not_lt hwithin)).symm⟩

/-- what is answered is what the endpoint answers, or the head of it -/
theorem answer_of_method {e : Endpoint} (s : Server) (now : Duration) (hpath : Endpoint.ofPath? r.path = some e)
    (hmethod : r.method = "GET" ∨ r.method = "HEAD") :
    (s.answer now r).1 = (s.reach now r e).1 ∧ (s.answer now r).2.status = (s.reach now r e).2.status := by
  unfold answer
  rw [hpath]
  dsimp only
  split
  · exact ⟨rfl, rfl⟩
  · rename_i hget
    rw [if_pos (hmethod.resolve_left hget)]
    exact ⟨rfl, rfl⟩

/-- a request for the quota is a hit of its client, whether for the whole answer or its head -/
theorem answer_quota (h : r.AsksQuota limit) (hlimit : limit ≤ Decimal.wordMax) (s : Server) (now : Duration) :
    (s.answer now r).1.quotas = (s.quotas.hit ⟨r.client, r.path⟩ now).1 ∧
      (s.answer now r).2.status = if (s.quotas.hit ⟨r.client, r.path⟩ now).2 ≤ limit then 200 else 429 := by
  have hname : ∀ c ∈ "limit".toList, c.isAlphanum = true := List.all_eq_true.1 (by decide)
  have hword : Web.Form.word? "limit" r.query = some (some limit) := h.query ▸ Web.Form.word?_written hname hlimit
  have hreach : s.reach now r .quota = { s with requests := s.requests + 1 }.quota now r limit := by
    simp only [reach, hword, Option.getD_some]
  have hendpoint : Endpoint.ofPath? r.path = some .quota := h.path ▸ by decide
  obtain ⟨hserver, hstatus⟩ := answer_of_method s now hendpoint h.method
  rw [hserver, hstatus, hreach]
  exact quota_eq { s with requests := s.requests + 1 } now r limit

/-- the hits that some requests for a quota are -/
def hits (requests : List (Duration × Incoming)) : List Quotas.Hit :=
  requests.map fun r => (⟨r.2.client, r.2.path⟩, r.1)

theorem run_quotas {requests : List (Duration × Incoming)} (hasks : ∀ r ∈ requests, r.2.AsksQuota limit)
    (hlimit : limit ≤ Decimal.wordMax) (s : Server) : (s.run requests).quotas = s.quotas.run (hits requests) := by
  induction requests generalizing s with
  | nil => rfl
  | cons first requests ih =>
    have hfirst := (answer_quota (hasks first List.mem_cons_self) hlimit s first.1).1
    have hrest := ih (fun r hr => hasks r (List.mem_cons_of_mem first hr)) (s.answer first.1 first.2).1
    rw [hfirst] at hrest
    exact hrest

theorem instants_hits {requests : List (Duration × Incoming)} (hasks : ∀ r ∈ requests, r.2.AsksQuota limit)
    (client : String) :
    Quotas.instants ⟨client, Endpoint.quota.path⟩ (hits requests) = instantsOf client requests := by
  rw [Quotas.instants, hits, instantsOf, List.filter_map, List.map_map]
  have hkeys : requests.filter ((fun h : Quotas.Hit => decide (h.1 = ⟨client, Endpoint.quota.path⟩)) ∘
      fun r => (⟨r.2.client, r.2.path⟩, r.1)) = requests.filter fun r => r.2.client = client := by
    refine List.filter_congr fun r hr => ?_
    simp [(hasks r hr).path]
  rw [hkeys]
  rfl

/-- no request comes before an earlier one -/
def InOrder (requests : List (Duration × Incoming)) : Prop :=
  requests.Pairwise fun a b => a.1 ≤ b.1

theorem instantsOf_concat (client : String) (requests : List (Duration × Incoming)) (now : Duration) (r : Incoming) :
    instantsOf client (requests ++ [(now, r)]) =
      if r.client = client then instantsOf client requests ++ [now] else instantsOf client requests := by
  by_cases hclient : r.client = client <;> simp [instantsOf, hclient]

/-- **A request for the quota is answered by the window of its client**, of which it is the last request -/
theorem status_answer {before : List (Duration × Incoming)} (hlimit : limit ≤ Decimal.wordMax)
    (hasks : ∀ e ∈ before ++ [(now, r)], e.2.AsksQuota limit) (hordered : InOrder (before ++ [(now, r)]))
    (pruneAt : Nat) :
    ((run { quotas := .empty pruneAt } before).answer now r).2.status =
      if FixedWindow.count (instantsOf r.client (before ++ [(now, r)])) ≤ limit then 200 else 429 := by
  have hr : r.AsksQuota limit := hasks (now, r) (by simp)
  have hbefore : ∀ e ∈ before, e.2.AsksQuota limit := fun e he => hasks e (List.mem_append_left _ he)
  have hhits : hits (before ++ [(now, r)]) = hits before ++ [(⟨r.client, r.path⟩, now)] := List.map_append
  have hinOrder : Quotas.InOrder (hits before ++ [(⟨r.client, r.path⟩, now)]) :=
    hhits ▸ List.pairwise_map.2 hordered
  have hown : instantsOf r.client (before ++ [(now, r)]) ≠ [] := by simp [instantsOf_concat]
  have hnext := Quotas.next_run pruneAt hinOrder
  rw [← hhits, hr.path, instants_hits hasks, FixedWindow.window?_of_ne_nil _ hown] at hnext
  have hhit : (((Quotas.empty pruneAt).run (hits before)).hit ⟨r.client, r.path⟩ now).2 =
      FixedWindow.count (instantsOf r.client (before ++ [(now, r)])) := by
    rw [Quotas.hit, Quotas.next_prune (Quotas.distinct_run pruneAt _), hr.path, Option.some.inj hnext]
  rw [(answer_quota hr hlimit _ now).2, run_quotas hbefore hlimit, hhit]

section

variable {requests : List (Duration × Incoming)} (hlimit : limit ≤ Decimal.wordMax)
  (hasks : ∀ e ∈ requests, e.2.AsksQuota limit) (hordered : InOrder requests) (pruneAt : Nat) (client : String)

include hlimit hasks hordered

/-- the answers to one client with their instants, told by its own requests alone -/
theorem filter_serve :
    ((serve { quotas := .empty pruneAt } requests).filter fun e => e.request.client = client).map
        (fun e => (some e.now, e.answer.status)) =
      (instantsOf client requests).inits.tail.map fun seen =>
        (seen.getLast?, if FixedWindow.count seen ≤ limit then 200 else 429) := by
  induction requests using List.reverseRecOn with
  | nil => rfl
  | append_singleton requests last ih =>
    obtain ⟨now, r⟩ := last
    have hbefore := ih (fun e he => hasks e (List.mem_append_left _ he)) (List.pairwise_append.1 hordered).1
    have hstatus := status_answer hlimit hasks hordered pruneAt
    rw [serve_concat, List.filter_append, List.map_append, hbefore, instantsOf_concat, List.filter_singleton]
    by_cases hclient : r.client = client
    · subst hclient
      rw [instantsOf_concat, if_pos rfl] at hstatus
      simp only [decide_true, cond_true, if_true, FixedWindow.inits_tail_concat, List.map_append, List.map_singleton,
        hstatus, List.getLast?_concat]
    · simp only [hclient, decide_false, cond_false, if_false, List.map_nil, List.append_nil]

/-- the first requests of a window are answered, all others in it refused -/
theorem statuses_serve :
    ((serve { quotas := .empty pruneAt } requests).filter fun e => e.request.client = client).map
        (fun e => e.answer.status) =
      (instantsOf client requests).inits.tail.map fun seen => if FixedWindow.count seen ≤ limit then 200 else 429 := by
  have hanswers := congrArg (List.map Prod.snd) (filter_serve hlimit hasks hordered pruneAt client)
  rwa [List.map_map, List.map_map] at hanswers

/-- the requests that are let through are those within the limit of their windows -/
theorem admitted_serve :
    (((serve { quotas := .empty pruneAt } requests).filter fun e => e.request.client = client).filter
        fun e => e.answer.status = 200).map Served.now =
      FixedWindow.admitted limit (instantsOf client requests) := by
  have hanswers := congrArg (fun l => (l.filter fun a => a.2 = 200).filterMap Prod.fst)
    (filter_serve hlimit hasks hordered pruneAt client)
  have hwithin (n : Nat) : decide ((if n ≤ limit then 200 else 429) = 200) = decide (n ≤ limit) := by
    by_cases hn : n ≤ limit <;> simp [hn]
  simp only [List.filter_map, List.filterMap_map, Function.comp_def, hwithin, List.filterMap_eq_map'] at hanswers
  exact hanswers

end

/-- **The quota endpoint is a limiter.** Of requests for a quota, none before an earlier one, each client has in each of
its windows the first ones up to the limit answered and all others refused; and in a minute, wherever it starts, at most
twice the limit is answered. Neither other clients nor the forgetting of windows have a part in it. -/
theorem quota_limits (hlimit : limit ≤ Decimal.wordMax) (pruneAt : Nat) (requests : List (Duration × Incoming))
    (hasks : ∀ e ∈ requests, e.2.AsksQuota limit) (hordered : InOrder requests) (client : String) :
    ((serve { quotas := .empty pruneAt } requests).map fun e => (e.now, e.request)) = requests ∧
    ((serve { quotas := .empty pruneAt } requests).filter fun e => e.request.client = client).map
        (fun e => e.answer.status) =
      (instantsOf client requests).inits.tail.map
        (fun seen => if FixedWindow.count seen ≤ limit then 200 else 429) ∧
    ∀ start, (serve { quotas := .empty pruneAt } requests).countP (fun e => e.request.client = client ∧
      e.answer.status = 200 ∧ start ≤ e.now ∧ e.now - start < windowLength) ≤ 2 * limit := by
  refine ⟨serve_requests _ _, statuses_serve hlimit hasks hordered pruneAt client, fun start => ?_⟩
  have hown : (instantsOf client requests).Pairwise (· ≤ ·) :=
    List.pairwise_map.2 (hordered.sublist List.filter_sublist)
  have hminute := FixedWindow.countP_admitted_minute limit hown start
  rw [← admitted_serve hlimit hasks hordered pruneAt client, List.countP_map, List.countP_filter, List.countP_filter]
    at hminute
  refine Nat.le_trans (le_of_eq (List.countP_congr fun e _ => ?_)) hminute
  simp only [Function.comp_apply, Bool.and_eq_true, decide_eq_true_eq]
  tauto

/-- two a minute: the window that opens at a minute lets two through although one was let through two seconds before -/
theorem quota_limits_twoClients :
    let ask (client : String) : Incoming := ⟨"GET", "/quota", "limit=2", none, client⟩
    let requests : List (Duration × Incoming) :=
      [(.zero, ask "a"), (.ofSecs 30, ask "b"), (.ofSecs 58, ask "a"), (.ofSecs 59, ask "a"), (.ofSecs 60, ask "a"),
        (.ofSecs 61, ask "a"), (.ofSecs 62, ask "a")]
    (∀ e ∈ requests, e.2.AsksQuota 2) ∧ InOrder requests ∧
      ((serve { quotas := .empty 1 } requests).filter fun e => e.request.client = "a").map
        (fun e => e.answer.status) = [200, 200, 429, 200, 200, 429] ∧
      (serve { quotas := .empty 1 } requests).countP (fun e => e.request.client = "a" ∧
        e.answer.status = 200 ∧ .ofSecs 58 ≤ e.now ∧ e.now - .ofSecs 58 < windowLength) ≤ 4 := by
  intro ask requests
  have hquery : "limit=2" = s!"limit={2}" := by decide
  have hask (client : String) : (ask client).AsksQuota 2 := ⟨.inl rfl, rfl, hquery⟩
  have hasks : ∀ e ∈ requests, e.2.AsksQuota 2 := by
    intro e he
    obtain ⟨client, hclient⟩ : ∃ client, e.2 = ask client := by
      simp only [requests, List.mem_cons, List.not_mem_nil, or_false] at he
      rcases he with rfl | rfl | rfl | rfl | rfl | rfl | rfl <;> exact ⟨_, rfl⟩
    exact hclient ▸ hask client
  have hordered : InOrder requests := by unfold InOrder; decide
  obtain ⟨-, hstatuses, hminute⟩ := quota_limits (by decide) 1 requests hasks hordered "a"
  exact ⟨hasks, hordered, hstatuses.trans (by decide), hminute (.ofSecs 58)⟩

end Server

end LoadGen.Stub
