/-
The counters of the stub server. Each endpoint counts what it handles; a request that is refused before it comes to an
endpoint is not counted. What the counters say agrees with what was answered.

- `Incoming.Reaches`, `Incoming.Refused`: a request comes to an endpoint, or is refused for its path, its method or its
  query; `Incoming.handler?` finds out which.
- `answer_of_refused`: a refusal leaves the whole server as it is.
- `counts_reach`: an endpoint counts a request once, and once more if it is answered as one too many.
- `counters_match`: after each of any requests the counters are the numbers of these answers.
-/
import LoadGen.Proofs.Stub.Limiter

namespace LoadGen.Stub

/-! ## Where requests go -/

/-- the endpoint can read the query -/
def Endpoint.takes (query : String) : Endpoint → Bool
  | .slow => (Web.Form.word? "ms" query).isSome
  | .quota => (Web.Form.word? "limit" query).isSome
  | .health | .limited | .fail => true

namespace Incoming

/-- the endpoint that handles a request -/
def handler? (r : Incoming) : Option Endpoint :=
  if r.method = "GET" ∨ r.method = "HEAD" then (Endpoint.ofPath? r.path).filter fun e => e.takes r.query else none

/-- a request comes to an endpoint -/
structure Reaches (r : Incoming) (e : Endpoint) : Prop where
  path : Endpoint.ofPath? r.path = some e
  method : r.method = "GET" ∨ r.method = "HEAD"
  query : e.takes r.query = true

/-- a request is refused before it comes to an endpoint, with a status -/
inductive Refused (r : Incoming) : Nat → Prop where
  /-- there is nothing at this path -/
  | path (unknown : Endpoint.ofPath? r.path = none) : Refused r 404
  /-- neither the answer nor its head is asked for -/
  | method {e : Endpoint} (path : Endpoint.ofPath? r.path = some e)
      (other : ¬(r.method = "GET" ∨ r.method = "HEAD")) : Refused r 405
  /-- the endpoint cannot read the query -/
  | query {e : Endpoint} (path : Endpoint.ofPath? r.path = some e) (method : r.method = "GET" ∨ r.method = "HEAD")
      (malformed : e.takes r.query = false) : Refused r 400

variable {r : Incoming} {e : Endpoint} {status : Nat}

theorem handler?_eq_some_iff : r.handler? = some e ↔ r.Reaches e := by
  unfold handler?
  split
  · rename_i hmethod
    rw [Option.filter_eq_some_iff]
    exact ⟨fun ⟨hpath, hquery⟩ => ⟨hpath, hmethod, hquery⟩, fun h => ⟨h.path, h.query⟩⟩
  · rename_i hother
    exact iff_of_false (fun h => by cases h) fun h => hother h.method

theorem Reaches.not_refused (h : r.Reaches e) : ¬r.Refused status := by
  intro hrefused
  cases hrefused with
  | path unknown =>
    rw [h.path] at unknown
    cases unknown
  | method _ other => exact other h.method
  | query path _ malformed =>
    rw [h.path] at path
    cases path
    rw [h.query] at malformed
    cases malformed

/-- a request is refused exactly if it comes to no endpoint -/
theorem handler?_eq_none_iff : r.handler? = none ↔ ∃ status, r.Refused status := by
  constructor
  · intro h
    cases hpath : Endpoint.ofPath? r.path with
    | none => exact ⟨404, .path hpath⟩
    | some e =>
      by_cases hmethod : r.method = "GET" ∨ r.method = "HEAD"
      · cases hquery : e.takes r.query with
        | false => exact ⟨400, .query hpath hmethod hquery⟩
        | true =>
          rw [handler?_eq_some_iff.2 ⟨hpath, hmethod, hquery⟩] at h
          cases h
      · exact ⟨405, .method hpath hmethod⟩
  · rintro ⟨status, hrefused⟩
    refine Option.eq_none_iff_forall_ne_some.2 fun e he => ?_
    exact (handler?_eq_some_iff.1 he).not_refused hrefused

end Incoming

namespace Server

open Incoming

variable {s : Server} {now : Duration} {r : Incoming} {e : Endpoint} {status : Nat}

/-! ## One request -/

/-- an endpoint that cannot read the query has not counted anything -/
theorem reach_malformed (s : Server) (now : Duration) (h : e.takes r.query = false) :
    s.reach now r e = (s, .badQuery) := by
  cases e with
  | slow =>
    have hword : Web.Form.word? "ms" r.query = none := Option.not_isSome_iff_eq_none.1 (Bool.eq_false_iff.1 h)
    simp only [reach, hword]
  | quota =>
    have hword : Web.Form.word? "limit" r.query = none := Option.not_isSome_iff_eq_none.1 (Bool.eq_false_iff.1 h)
    simp only [reach, hword]
  | health | limited | fail => cases h

/-- **A refusal leaves the server as it is**: its counters, and the windows of its quotas -/
theorem answer_of_refused (s : Server) (now : Duration) (h : r.Refused status) :
    (s.answer now r).1 = s ∧ (s.answer now r).2.status = status := by
  cases h with
  | path unknown =>
    unfold answer
    rw [unknown]
    exact ⟨rfl, rfl⟩
  | method path other =>
    unfold answer
    rw [path]
    dsimp only
    rw [if_neg fun h => other (.inl h), if_neg fun h => other (.inr h)]
    exact ⟨rfl, rfl⟩
  | query path method malformed =>
    have hanswer := answer_of_method s now path method
    rw [reach_malformed s now malformed] at hanswer
    exact hanswer

/-- one more request, which is one too many or not, by the status of its answer -/
structure Counts (s : Server) (result : Server × Answer) : Prop where
  requests : result.1.requests = s.requests + 1
  limited : result.1.limited = s.limited + if result.2.status = 429 then 1 else 0
  status : result.2.status = 200 ∨ result.2.status = 429 ∨ result.2.status = 500

theorem counts_quota (s : Server) (now : Duration) (r : Incoming) (limit : Nat) :
    s.Counts ({ s with requests := s.requests + 1 }.quota now r limit) := by
  unfold quota
  dsimp only
  split
  · exact ⟨rfl, rfl, .inr (.inl rfl)⟩
  · exact ⟨rfl, rfl, .inl rfl⟩

/-- **Every endpoint counts what it handles** -/
theorem counts_reach (s : Server) (now : Duration) (h : e.takes r.query = true) : s.Counts (s.reach now r e) := by
  cases e with
  | health => exact ⟨rfl, rfl, .inl rfl⟩
  | limited => exact ⟨rfl, rfl, .inr (.inl rfl)⟩
  | fail => exact ⟨rfl, rfl, .inr (.inr rfl)⟩
  | slow =>
    obtain ⟨millis, hword⟩ := Option.isSome_iff_exists.1 h
    simp only [reach, hword]
    exact ⟨rfl, rfl, .inl rfl⟩
  | quota =>
    obtain ⟨limit, hword⟩ := Option.isSome_iff_exists.1 h
    simp only [reach, hword]
    exact counts_quota s now r (limit.getD 60)

theorem counts_answer (s : Server) (now : Duration) (h : r.Reaches e) : s.Counts (s.answer now r) := by
  obtain ⟨hserver, hstatus⟩ := answer_of_method s now h.path h.method
  obtain ⟨hrequests, hlimited, hamong⟩ := counts_reach s now h.query
  exact ⟨hserver ▸ hrequests, by rw [hserver, hstatus, hlimited], hstatus ▸ hamong⟩

/-- what a request adds to the counters, and what kind of status tells whether it was handled -/
theorem counters_answer (s : Server) (now : Duration) (r : Incoming) :
    (s.answer now r).1.requests = s.requests + (if r.handler?.isSome then 1 else 0) ∧
    (s.answer now r).1.limited = s.limited + (if (s.answer now r).2.status = 429 then 1 else 0) ∧
    (r.handler?.isSome ↔ (s.answer now r).2.status ∈ [200, 429, 500]) := by
  cases hhandler : r.handler? with
  | some e =>
    obtain ⟨hrequests, hlimited, hstatus⟩ := counts_answer s now (handler?_eq_some_iff.1 hhandler)
    exact ⟨hrequests, hlimited, iff_of_true rfl (by simpa using hstatus)⟩
  | none =>
    obtain ⟨status, hrefused⟩ := handler?_eq_none_iff.1 hhandler
    obtain ⟨hserver, hstatus⟩ := answer_of_refused s now hrefused
    rw [hserver, hstatus]
    cases hrefused <;> simp

/-! ## Requests in turn -/

theorem counters_run (s : Server) (requests : List (Duration × Incoming)) :
    (s.run requests).requests = s.requests + (s.serve requests).countP (fun e => e.request.handler?.isSome) ∧
    (s.run requests).limited = s.limited + (s.serve requests).countP (fun e => e.answer.status = 429) := by
  induction requests generalizing s with
  | nil => exact ⟨rfl, rfl⟩
  | cons first requests ih =>
    obtain ⟨now, r⟩ := first
    obtain ⟨hrequests, hlimited, -⟩ := counters_answer s now r
    obtain ⟨ihrequests, ihlimited⟩ := ih (s.answer now r).1
    have hrun : s.run ((now, r) :: requests) = (s.answer now r).1.run requests := rfl
    rw [hrun, ihrequests, ihlimited, hrequests, hlimited]
    simp only [serve, List.countP_cons, decide_eq_true_eq]
    omega

theorem serve_take (s : Server) (requests : List (Duration × Incoming)) (k : Nat) :
    s.serve (requests.take k) = (s.serve requests).take k := by
  induction requests generalizing s k with
  | nil => simp [serve]
  | cons first requests ih =>
    cases k with
    | zero => rfl
    | succ k => exact congrArg _ (ih _ k)

theorem handled_iff_status {requests : List (Duration × Incoming)} {x : Served} (h : x ∈ s.serve requests) :
    x.request.handler?.isSome ↔ x.answer.status ∈ [200, 429, 500] := by
  induction requests generalizing s with
  | nil => cases h
  | cons first requests ih =>
    rcases List.mem_cons.1 h with rfl | h
    · exact (counters_answer s first.1 first.2).2.2
    · exact ih h

/-- **The counters match the answers.** Whatever a server is asked, after each request its counters are the number of
requests that an endpoint has handled and the number of those answered as too many; a request is handled exactly if the
answer is that of an endpoint, by its status, and if it is not refused. A request that is refused, for its path, its
method or its query, leaves any server as it is, both counters and all windows. -/
theorem counters_match (quotas : Quotas) (requests : List (Duration × Incoming)) :
    (∀ k, let s := run { quotas } (requests.take k)
      let answered := (serve { quotas } requests).take k
      s.requests = answered.countP (fun x => x.request.handler?.isSome) ∧
      s.limited = answered.countP (fun x => x.answer.status = 429)) ∧
    (∀ x ∈ serve { quotas } requests, x.request.handler?.isSome ↔ x.answer.status ∈ [200, 429, 500]) ∧
    (∀ r : Incoming, r.handler? = none ↔ ∃ status, r.Refused status) ∧
    ∀ (s : Server) now r status, r.Refused status → (s.answer now r).1 = s ∧ (s.answer now r).2.status = status := by
  refine ⟨fun k => ?_, fun x hx => handled_iff_status hx, fun r => handler?_eq_none_iff,
    fun s now r status h => answer_of_refused s now h⟩
  have hcounters := counters_run { quotas } (requests.take k)
  rw [serve_take] at hcounters
  simpa using hcounters

/-- both ways to be one too many, and all three ways to be refused, of which the last comes between two hits on a
quota -/
theorem counters_match_mixed :
    let post : Incoming := ⟨"POST", "/health", "", none, "a"⟩
    let malformed : Incoming := ⟨"GET", "/quota", "limit=x", none, "a"⟩
    let hit : Incoming := ⟨"GET", "/quota", "limit=1", none, "a"⟩
    let requests : List (Duration × Incoming) :=
      [(.zero, ⟨"HEAD", "/limited", "", none, "a"⟩), (.ofSecs 1, ⟨"GET", "/nowhere", "", none, "a"⟩), (.ofSecs 2, post),
        (.ofSecs 3, hit), (.ofSecs 4, malformed), (.ofSecs 5, hit), (.ofSecs 6, ⟨"GET", "/fail", "", none, "b"⟩)]
    (run {} requests).requests = 4 ∧ (run {} requests).limited = 2 ∧
      (serve {} requests).map (fun x => x.answer.status) = [429, 404, 405, 200, 400, 429, 500] ∧
      hit.handler?.isSome ∧ ∀ (s : Server) now, (s.answer now malformed).1 = s := by
  intro post malformed hit requests
  obtain ⟨hcounters, hstatuses, hhandled, hrefused⟩ := counters_match {} requests
  obtain ⟨hrequests, hlimited⟩ := hcounters 7
  have hserved : ⟨.ofSecs 3, hit, .text "ok"⟩ ∈ serve {} requests := by decide +kernel
  obtain ⟨status, hstatus⟩ := (hhandled malformed).1 (by decide +kernel)
  exact ⟨hrequests.trans (by decide +kernel), hlimited.trans (by decide +kernel), by decide +kernel,
    (hstatuses _ hserved).2 (by decide), fun s now => (hrefused s now malformed status hstatus).1⟩

end Server

end LoadGen.Stub
