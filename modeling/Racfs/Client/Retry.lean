/-
# Retries and the circuit breaker

`Client::send_with_retry` sends a request up to four times, with growing pauses, as long as the
errors are those of the connection or timeouts.  Calls that end in an error are counted; at five
the breaker opens, and for half a minute calls are refused without a request.  The first call
after that resets the breaker and sends again.

Here the calls do not overlap.  The clock only moves forward: a call is given by the time since
the one before it, and for each of its requests by how long it takes to leave and to be answered.
-/
import Racfs.Lib.Run
import Mathlib.Algebra.Group.Nat.Defs

namespace Racfs.Client

/-- A point of time of the monotonic clock, in nanoseconds. -/
abbrev Instant := ℕ

/-- The number of retries. -/
def DEFAULT_MAX_RETRIES : ℕ := 3

/-- The pause before the first retry, in milliseconds. -/
def DEFAULT_INITIAL_BACKOFF_MS : ℕ := 100

/-- The breaker opens after this many failures in a row, -/
def DEFAULT_CIRCUIT_FAILURE_THRESHOLD : UInt32 := 5

/-- and stays open for this time. -/
def DEFAULT_CIRCUIT_OPEN_DURATION_SECS : ℕ := 30

/-- An error of the HTTP library: only its two questions matter. -/
structure HttpError where
  isConnect : Bool
  isTimeout : Bool
deriving DecidableEq, Repr

/-- The errors of a call. -/
inductive SendError
  | Http (source : HttpError)
  | CircuitOpen
  | Internal (message : String)
deriving DecidableEq, Repr

/-- The state of the breaker. -/
structure CircuitState where
  failureCount : UInt32
  openUntil : Option Instant
deriving DecidableEq, Repr

namespace CircuitState

/-- A new breaker. -/
def new : CircuitState := ⟨0, none⟩

/-- The check at the start of a call: the breaker with which the call goes on, or none when the
call is refused. -/
def check (c : CircuitState) (now : Instant) : Option CircuitState :=
  match c.openUntil with
  | some openUntil =>
    if now < openUntil then none
    -- the cooldown is over
    else some { c with openUntil := none, failureCount := 0 }
  | none => some c

/-- A request got a response. -/
def recordSuccess (c : CircuitState) : CircuitState := { c with failureCount := 0 }

/-- A call ends in an error. -/
def recordCircuitFailure (c : CircuitState) (now : Instant) : CircuitState :=
  let c := { c with failureCount := c.failureCount + 1 }
  if c.failureCount ≥ DEFAULT_CIRCUIT_FAILURE_THRESHOLD then
    { c with openUntil := some (now + DEFAULT_CIRCUIT_OPEN_DURATION_SECS * 1000000000) }
  else c

lemma check_of_none {c : CircuitState} (h : c.openUntil = none) (now : Instant) :
    c.check now = some c := by
  simp [check, h]

lemma check_of_some {c : CircuitState} {u : Instant} (h : c.openUntil = some u) (now : Instant) :
    c.check now = if now < u then none else some new := by
  simp [check, h, new]

/-- A call is refused exactly while the breaker is open. -/
lemma check_eq_none_iff {c : CircuitState} {now : Instant} :
    c.check now = none ↔ ∃ u, c.openUntil = some u ∧ now < u := by
  cases h : c.openUntil with
  | none => simp [check_of_none h]
  | some u => simp [check_of_some h]

/-- A call that goes on finds the breaker closed, or closes it. -/
lemma openUntil_of_check {c c' : CircuitState} {now : Instant} (h : c.check now = some c') :
    c'.openUntil = none := by
  cases hu : c.openUntil with
  | none =>
    rw [check_of_none hu, Option.some.injEq] at h
    exact h ▸ hu
  | some u =>
    rw [check_of_some hu] at h
    split_ifs at h
    cases h
    rfl

end CircuitState

/-! ### One call -/

variable {R : Type*}

/-- What happens to the requests of a call, by the number of the attempt. -/
structure Network (R : Type*) where
  /-- The time until the request leaves, -/
  delay : ℕ → ℕ
  /-- and from there until its outcome is known. -/
  latency : ℕ → ℕ
  outcome : ℕ → Except HttpError R

/-- The end of a call. -/
structure CallEnd (R : Type*) where
  result : Except SendError R
  circuit : CircuitState
  finished : Instant
  /-- The times at which requests were sent. -/
  sent : List Instant

/-- `2u64.saturating_pow(attempt)`. -/
def saturatingPow (attempt : ℕ) : ℕ := min (2 ^ attempt) (2 ^ 64 - 1)

/-- The pause after an attempt. -/
def backoff (attempt : ℕ) : ℕ := DEFAULT_INITIAL_BACKOFF_MS * saturatingPow attempt * 1000000

/-- The loop of `send_with_retry` over the attempts that are left, from a point of time. -/
def retryLoop (net : Network R) (c : CircuitState) :
    List ℕ → Option HttpError → Instant → CallEnd R
  | [], some err, t => ⟨.error (.Http err), c.recordCircuitFailure t, t, []⟩
  | [], none, t =>
    ⟨.error (.Internal "retry loop exited without capturing error"), c, t, []⟩
  | attempt :: attempts, _, t =>
    let sentAt := t + net.delay attempt
    let known := sentAt + net.latency attempt
    match net.outcome attempt with
    | .ok r => ⟨.ok r, c.recordSuccess, known, [sentAt]⟩
    | .error e =>
      if (e.isConnect || e.isTimeout) && attempt < DEFAULT_MAX_RETRIES then
        let rest := retryLoop net c attempts (some e) (known + backoff attempt)
        { rest with sent := sentAt :: rest.sent }
      else ⟨.error (.Http e), c.recordCircuitFailure known, known, [sentAt]⟩

/-- Send a request with retries. -/
def sendWithRetry (net : Network R) (c : CircuitState) (now : Instant) : CallEnd R :=
  match c.check now with
  | none => ⟨.error .CircuitOpen, c, now, []⟩
  | some c' => retryLoop net c' (List.range (DEFAULT_MAX_RETRIES + 1)) none now

/-- Whether the loop goes on after the outcome of an attempt, if another one is left. -/
def isRetried : Except HttpError R → Bool
  | .ok _ => false
  | .error e => e.isConnect || e.isTimeout

/-- The end of a call whose last attempt is this one. -/
def attemptEnd (net : Network R) (c : CircuitState) (attempt : ℕ) (t : Instant) : CallEnd R where
  result := (net.outcome attempt).mapError .Http
  circuit :=
    if (net.outcome attempt).isOk then c.recordSuccess
    else c.recordCircuitFailure (t + net.delay attempt + net.latency attempt)
  finished := t + net.delay attempt + net.latency attempt
  sent := [t + net.delay attempt]

/-- The induction over the attempts that are left. The last one allowed is among them, so the loop
ends inside: with an attempt that is not retried, or after one that is. -/
theorem retryLoop_induction (net : Network R) (c : CircuitState)
    {P : ℕ → Instant → CallEnd R → Prop}
    (hlast : ∀ a t, a ≤ DEFAULT_MAX_RETRIES →
      (a = DEFAULT_MAX_RETRIES ∨ isRetried (net.outcome a) = false) → P a t (attemptEnd net c a t))
    (hretry : ∀ a t r, a < DEFAULT_MAX_RETRIES → isRetried (net.outcome a) = true →
      P (a + 1) (t + net.delay a + net.latency a + backoff a) r →
        P a t { r with sent := (t + net.delay a) :: r.sent })
    {n a : ℕ} (hn : n ≠ 0) (ha : a + n = DEFAULT_MAX_RETRIES + 1) (lastErr : Option HttpError)
    (t : Instant) : P a t (retryLoop net c (List.range' a n) lastErr t) := by
  induction n generalizing a lastErr t with
  | zero => exact absurd rfl hn
  | succ n ih =>
    have hle : a ≤ DEFAULT_MAX_RETRIES := by omega
    have hend := hlast a t hle
    have hnext := hretry a t
    rw [attemptEnd] at hend
    rw [List.range'_succ, retryLoop]
    cases hout : net.outcome a with
    | ok r =>
      rw [hout] at hend
      exact hend (.inr rfl)
    | error e =>
      rw [hout] at hend hnext
      by_cases hagain : ((e.isConnect || e.isTimeout) && decide (a < DEFAULT_MAX_RETRIES)) = true
      · simp only [if_pos hagain]
        rw [Bool.and_eq_true, decide_eq_true_eq] at hagain
        exact hnext _ hagain.2 hagain.1 (ih (by omega) (by omega) _ _)
      · simp only [if_neg hagain]
        refine hend ?_
        rw [Bool.and_eq_true, decide_eq_true_eq, not_and'] at hagain
        rcases Nat.eq_or_lt_of_le hle with heq | hlt
        · exact .inl heq
        · exact .inr (eq_false_of_ne_true (hagain hlt))

/-- What every end of the retry loop has in common: requests were sent, at most `n` of them and
none before `t`, and the breaker has been told the outcome once. -/
structure LoopEnd (c : CircuitState) (n : ℕ) (t : Instant) (r : CallEnd R) : Prop where
  nonempty : r.sent ≠ []
  length_le : r.sent.length ≤ n
  le_sent : ∀ x ∈ r.sent, t ≤ x
  outcome : (∃ a, r.result = .ok a ∧ r.circuit = c.recordSuccess) ∨
    ∃ e u, r.result = .error (.Http e) ∧ r.circuit = c.recordCircuitFailure u

lemma LoopEnd.cons {c : CircuitState} {n : ℕ} {t t' : Instant} {r : CallEnd R}
    (h : LoopEnd c n t' r) (ht : t ≤ t') {sentAt : Instant} (hs : t ≤ sentAt) :
    LoopEnd c (n + 1) t { r with sent := sentAt :: r.sent } where
  nonempty := by simp
  length_le := Nat.succ_le_succ h.length_le
  le_sent := by
    intro x hx
    rcases List.mem_cons.1 hx with rfl | hx
    · exact hs
    · exact Nat.le_trans ht (h.le_sent x hx)
  outcome := h.outcome

lemma loopEnd_attemptEnd (net : Network R) (c : CircuitState) (a : ℕ) {n : ℕ} (hn : 1 ≤ n)
    (t : Instant) : LoopEnd c n t (attemptEnd net c a t) where
  nonempty := by simp [attemptEnd]
  length_le := hn
  le_sent := by
    intro x hx
    rw [attemptEnd, List.mem_singleton] at hx
    exact hx ▸ Nat.le_add_right _ _
  outcome := by
    rw [attemptEnd]
    cases net.outcome a with
    | ok r => exact .inl ⟨r, rfl, rfl⟩
    | error e => exact .inr ⟨e, _, rfl, rfl⟩

/-- The loop over all attempts ends inside: there is no retry after the last attempt. -/
lemma loopEnd_retryLoop (net : Network R) (c : CircuitState) (lastErr : Option HttpError)
    (t : Instant) :
    LoopEnd c (DEFAULT_MAX_RETRIES + 1) t
      (retryLoop net c (List.range' 0 (DEFAULT_MAX_RETRIES + 1)) lastErr t) := by
  refine retryLoop_induction net c (P := fun a t r => LoopEnd c (DEFAULT_MAX_RETRIES + 1 - a) t r)
    (fun a t ha _ => loopEnd_attemptEnd net c a (by omega) t) (fun a t r ha _ ih => ?_)
    (n := DEFAULT_MAX_RETRIES + 1) (a := 0) (by decide) (by decide) lastErr t
  have hleft : DEFAULT_MAX_RETRIES + 1 - a = DEFAULT_MAX_RETRIES + 1 - (a + 1) + 1 := by omega
  have hsent : t ≤ t + net.delay a := Nat.le_add_right _ _
  have hstart : t ≤ t + net.delay a + net.latency a + backoff a :=
    Nat.le_trans hsent (Nat.le_trans (Nat.le_add_right _ _) (Nat.le_add_right _ _))
  rw [hleft]
  exact ih.cons hstart hsent

/-- A call is refused, or goes through the loop. -/
lemma sendWithRetry_cases (net : Network R) (c : CircuitState) (now : Instant) :
    (c.check now = none ∧ sendWithRetry net c now = ⟨.error .CircuitOpen, c, now, []⟩) ∨
    ∃ c', c.check now = some c' ∧
      LoopEnd c' (DEFAULT_MAX_RETRIES + 1) now (sendWithRetry net c now) := by
  unfold sendWithRetry
  cases hcheck : c.check now with
  | none => exact .inl ⟨rfl, rfl⟩
  | some c' =>
    refine .inr ⟨c', rfl, ?_⟩
    simp only [List.range_eq_range']
    exact loopEnd_retryLoop net c' none now

/-- The last attempt of the loop: the one whose outcome is not retried, or the last one allowed.
Its outcome is that of the call. -/
structure LastAttempt (net : Network R) (a b : ℕ) (r : CallEnd R) : Prop where
  le : a ≤ b
  le_max : b ≤ DEFAULT_MAX_RETRIES
  retried : ∀ x, a ≤ x → x < b → isRetried (net.outcome x) = true
  last : b = DEFAULT_MAX_RETRIES ∨ isRetried (net.outcome b) = false
  length_sent : r.sent.length = b - a + 1
  result : r.result = (net.outcome b).mapError .Http

/-- The loop ends with a last attempt. -/
lemma exists_lastAttempt (net : Network R) (c : CircuitState) (lastErr : Option HttpError)
    (t : Instant) :
    ∃ b, LastAttempt net 0 b
      (retryLoop net c (List.range' 0 (DEFAULT_MAX_RETRIES + 1)) lastErr t) := by
  refine retryLoop_induction net c (P := fun a _ r => ∃ b, LastAttempt net a b r)
    (fun a t ha hlast => ⟨a, ?_⟩) (fun a t r ha hretried ih => ?_) (by decide) (by decide) lastErr t
  · exact ⟨Nat.le_refl _, ha, fun x h h' => absurd h (by omega), hlast, by simp [attemptEnd], rfl⟩
  · obtain ⟨b, hb⟩ := ih
    have hle := hb.le
    refine ⟨b, by omega, hb.le_max, fun x hx hxb => ?_, hb.last, ?_, hb.result⟩
    · rcases Nat.eq_or_lt_of_le hx with rfl | hx
      · exact hretried
      · exact hb.retried x hx hxb
    · rw [List.length_cons, hb.length_sent]
      omega

/-- A call that is not refused ends with a last attempt. -/
lemma sendWithRetry_last (net : Network R) {c c' : CircuitState} {now : Instant}
    (h : c.check now = some c') : ∃ b, LastAttempt net 0 b (sendWithRetry net c now) := by
  rw [sendWithRetry, h]
  simp only [List.range_eq_range']
  exact exists_lastAttempt net c' none now

/-! ### Calls one after the other -/

/-- What is remembered of a call. -/
structure CallRecord (R : Type*) where
  /-- The time until which the breaker was open when the call came. -/
  openBefore : Option Instant
  sent : List Instant
  result : Except SendError R

namespace CallRecord

/-- Whether the call sent a request. -/
def reachedNetwork (r : CallRecord R) : Bool := !r.sent.isEmpty

/-- Whether the call succeeded. -/
def isOk (r : CallRecord R) : Bool := r.result.isOk

/-- Whether the call found the cooldown of the breaker over and reset it. -/
def isReset (r : CallRecord R) : Bool := r.openBefore.isSome && r.reachedNetwork

end CallRecord

/-- The client with its clock, and the calls so far, the last one first. -/
structure Session (R : Type*) where
  circuit : CircuitState
  clock : Instant
  calls : List (CallRecord R)

/-- A new client. -/
def Session.new (t : Instant) : Session R := ⟨.new, t, []⟩

/-- The next call: the time since the last one, and what happens to its requests. -/
def Session.call (s : Session R) (ev : ℕ × Network R) : Option (Session R) :=
  let now := s.clock + ev.1
  let r := sendWithRetry ev.2 s.circuit now
  some ⟨r.circuit, r.finished, ⟨s.circuit.openUntil, r.sent, r.result⟩ :: s.calls⟩

/-- The calls that reached the network since the last success or reset. -/
def sinceReset : List (CallRecord R) → List (CallRecord R)
  | [] => []
  | r :: older =>
    if !r.reachedNetwork then sinceReset older
    else if r.isOk then []
    else if r.isReset then [r]
    else r :: sinceReset older

/-- The last `n` calls that reached the network since the last success or reset are there, and
ended in an error. -/
def LastFailed (n : ℕ) (calls : List (CallRecord R)) : Prop :=
  n ≤ (sinceReset calls).length ∧ ∀ r ∈ (sinceReset calls).take n, r.isOk = false

lemma isOk_of_mem_sinceReset {calls : List (CallRecord R)} {r : CallRecord R}
    (h : r ∈ sinceReset calls) : r.isOk = false := by
  induction calls with
  | nil => cases h
  | cons r' older ih =>
    rw [sinceReset] at h
    split_ifs at h with hnet hok hreset
    · exact ih h
    · cases h
    · rw [List.mem_singleton] at h
      exact h ▸ eq_false_of_ne_true hok
    · rcases List.mem_cons.1 h with rfl | h
      · exact eq_false_of_ne_true hok
      · exact ih h

/-- After a success nothing counts. -/
lemma sinceReset_of_ok {r : CallRecord R} (hnet : r.reachedNetwork = true) (hok : r.isOk = true)
    (older : List (CallRecord R)) : sinceReset (r :: older) = [] := by
  simp [sinceReset, hnet, hok]

/-- A failure counts, and what was before it does unless it is a reset. -/
lemma length_sinceReset_of_error {r : CallRecord R} (hnet : r.reachedNetwork = true)
    (herr : r.isOk = false) (older : List (CallRecord R)) :
    (sinceReset (r :: older)).length =
      (if r.openBefore.isSome then 0 else (sinceReset older).length) + 1 := by
  cases hopen : r.openBefore <;> simp [sinceReset, CallRecord.isReset, hnet, herr, hopen]

lemma lastFailed_iff (n : ℕ) (calls : List (CallRecord R)) :
    LastFailed n calls ↔ n ≤ (sinceReset calls).length :=
  ⟨And.left, fun h => ⟨h, fun _ hr => isOk_of_mem_sinceReset (List.mem_of_mem_take hr)⟩⟩

/-- What is true of every call: it is refused without a request, or it sends one to four requests,
none before the breaker's time is over, and does not fall out of its loop. -/
structure CallOk (r : CallRecord R) : Prop where
  requests : (r.result = .error .CircuitOpen ∧ r.sent = []) ∨
    (r.result ≠ .error .CircuitOpen ∧ 1 ≤ r.sent.length ∧
      r.sent.length ≤ DEFAULT_MAX_RETRIES + 1)
  cooled : ∀ u, r.openBefore = some u → ∀ t ∈ r.sent, u ≤ t
  noInternal : ∀ message, r.result ≠ .error (.Internal message)

/-- The count of the breaker is the number of failures since the last success or reset, and it is
open when there are five of them. -/
structure SessionOk (s : Session R) : Prop where
  count : s.circuit.failureCount.toNat = (sinceReset s.calls).length
  count_le : (sinceReset s.calls).length ≤ DEFAULT_CIRCUIT_FAILURE_THRESHOLD.toNat
  isOpen : s.circuit.openUntil.isSome = true ↔
    (sinceReset s.calls).length = DEFAULT_CIRCUIT_FAILURE_THRESHOLD.toNat
  calls : ∀ r ∈ s.calls, CallOk r

/-- A record of a call that went through the loop. -/
lemma callOk_of_loopEnd {c c' : CircuitState} {now : Instant} {r : CallEnd R}
    (hcheck : c.check now = some c') (h : LoopEnd c' (DEFAULT_MAX_RETRIES + 1) now r) :
    CallOk ⟨c.openUntil, r.sent, r.result⟩ where
  requests := by
    refine .inr ⟨?_, List.length_pos_iff.2 h.nonempty, h.length_le⟩
    rcases h.outcome with ⟨a, ha, -⟩ | ⟨e, u, he, -⟩
    · simp [ha]
    · simp [he]
  cooled := by
    intro u hu t ht
    have hle : u ≤ now := by
      by_contra hlt
      have hnone := CircuitState.check_eq_none_iff.2 ⟨u, hu, Nat.lt_of_not_le hlt⟩
      rw [hnone] at hcheck
      cases hcheck
    exact Nat.le_trans hle (h.le_sent t ht)
  noInternal := by
    intro message
    rcases h.outcome with ⟨a, ha, -⟩ | ⟨e, u, he, -⟩
    · simp [ha]
    · simp [he]

lemma callOk_refused {c : CircuitState} :
    CallOk (R := R) ⟨c.openUntil, [], .error .CircuitOpen⟩ where
  requests := .inl ⟨rfl, rfl⟩
  cooled := by
    intro u _ t ht
    cases ht
  noInternal := by simp

/-- The failures that count for a call which goes on: none if it resets the breaker. -/
lemma count_of_check {s : Session R} (h : SessionOk s) {now : Instant} {c' : CircuitState}
    (hcheck : s.circuit.check now = some c') :
    c'.failureCount.toNat =
      (if s.circuit.openUntil.isSome then 0 else (sinceReset s.calls).length) ∧
    c'.failureCount.toNat < DEFAULT_CIRCUIT_FAILURE_THRESHOLD.toNat := by
  cases hu : s.circuit.openUntil with
  | none =>
    rw [CircuitState.check_of_none hu, Option.some.injEq] at hcheck
    subst hcheck
    have hne : (sinceReset s.calls).length ≠ DEFAULT_CIRCUIT_FAILURE_THRESHOLD.toNat := by
      intro heq
      have hopen := h.isOpen.2 heq
      rw [hu] at hopen
      cases hopen
    exact ⟨h.count, by rw [h.count]; exact Nat.lt_of_le_of_ne h.count_le hne⟩
  | some u =>
    rw [CircuitState.check_of_some hu] at hcheck
    split_ifs at hcheck
    cases hcheck
    exact ⟨rfl, by decide⟩

/-- One more failure counts, and the fifth one opens the breaker. -/
lemma recordCircuitFailure_spec {c : CircuitState} (hnone : c.openUntil = none)
    (hlt : c.failureCount.toNat < DEFAULT_CIRCUIT_FAILURE_THRESHOLD.toNat) (u : Instant) :
    (c.recordCircuitFailure u).failureCount.toNat = c.failureCount.toNat + 1 ∧
    ((c.recordCircuitFailure u).openUntil.isSome = true ↔
      c.failureCount.toNat + 1 = DEFAULT_CIRCUIT_FAILURE_THRESHOLD.toNat) := by
  have hfive : DEFAULT_CIRCUIT_FAILURE_THRESHOLD.toNat = 5 := rfl
  have hcount : (c.failureCount + 1).toNat = c.failureCount.toNat + 1 := by
    rw [UInt32.toNat_add]
    exact Nat.mod_eq_of_lt (by simp only [UInt32.reduceToNat]; omega)
  rw [CircuitState.recordCircuitFailure]
  simp only [ge_iff_le, UInt32.le_iff_toNat_le, hcount]
  split_ifs with hge
  · exact ⟨hcount, by simp only [Option.isSome_some, true_iff]; omega⟩
  · refine ⟨hcount, ?_⟩
    simp only [hnone, Option.isSome_none, Bool.false_eq_true, false_iff]
    omega

/-- A call keeps the count. -/
lemma sessionOk_call {s s' : Session R} (h : SessionOk s) (ev : ℕ × Network R)
    (hs : s.call ev = some s') : SessionOk s' := by
  obtain ⟨idle, net⟩ := ev
  cases hs
  rcases sendWithRetry_cases net s.circuit (s.clock + idle) with
    ⟨hcheck, heq⟩ | ⟨c', hcheck, hloop⟩
  · -- a refused call changes nothing
    simp only [heq]
    refine ⟨h.count, h.count_le, h.isOpen, ?_⟩
    intro r hr
    rcases List.mem_cons.1 hr with rfl | hr
    · exact callOk_refused
    · exact h.calls r hr
  · obtain ⟨hcount, hlt⟩ := count_of_check h hcheck
    have hnone := CircuitState.openUntil_of_check hcheck
    generalize hr : sendWithRetry net s.circuit (s.clock + idle) = r at hloop
    obtain ⟨x, hx⟩ : ∃ x : CallRecord R, x = ⟨s.circuit.openUntil, r.sent, r.result⟩ := ⟨_, rfl⟩
    have hnet : x.reachedNetwork = true := by
      rw [hx]
      simpa [CallRecord.reachedNetwork] using hloop.nonempty
    have hcalls : ∀ y ∈ x :: s.calls, CallOk y := by
      intro y hy
      rcases List.mem_cons.1 hy with rfl | hy
      · exact hx ▸ callOk_of_loopEnd hcheck hloop
      · exact h.calls y hy
    rw [← hx]
    rcases hloop.outcome with ⟨a, ha, hc⟩ | ⟨e, u, he, hc⟩
    · have hok : x.isOk = true := by rw [hx, CallRecord.isOk, ha]; rfl
      have hsince := sinceReset_of_ok hnet hok s.calls
      refine ⟨?_, ?_, ?_, hcalls⟩
      · simp [hsince, hc, CircuitState.recordSuccess]
      · simp [hsince]
      · simp [hsince, hc, CircuitState.recordSuccess, hnone, DEFAULT_CIRCUIT_FAILURE_THRESHOLD]
    · have herr : x.isOk = false := by rw [hx, CallRecord.isOk, he]; rfl
      have hsince := length_sinceReset_of_error hnet herr s.calls
      rw [hx, ← hcount, ← hx] at hsince
      obtain ⟨hcount', hopen'⟩ := recordCircuitFailure_spec hnone hlt u
      refine ⟨?_, ?_, ?_, hcalls⟩
      · rw [hsince, hc]
        exact hcount'
      · rw [hsince]
        exact hlt
      · rw [hsince, hc]
        exact hopen'

/-- **The breaker counts the failures in a row.**  After any calls one after the other, with any
outcomes of their requests: the breaker is open exactly when the last five calls that reached the
network since the last success or reset ended in an error; its count is at most five; every call
is refused without a request or sends one to four, none of them before the time until which the
breaker was open; and no call falls out of its loop. -/
theorem breaker_open_iff_last_failed (t : Instant) {s : Session R}
    (h : Reachable Session.call (Session.new t) s) :
    (s.circuit.openUntil.isSome = true ↔
      LastFailed DEFAULT_CIRCUIT_FAILURE_THRESHOLD.toNat s.calls) ∧
    s.circuit.failureCount ≤ DEFAULT_CIRCUIT_FAILURE_THRESHOLD ∧
    ∀ r ∈ s.calls, CallOk r := by
  have hok : SessionOk s := by
    refine h.invariant ?_ fun s ev s' hs hcall => sessionOk_call hs ev hcall
    refine ⟨rfl, Nat.zero_le _, ?_, by simp [Session.new]⟩
    simp [Session.new, CircuitState.new, sinceReset, DEFAULT_CIRCUIT_FAILURE_THRESHOLD]
  refine ⟨?_, ?_, hok.calls⟩
  · rw [hok.isOpen, lastFailed_iff]
    exact ⟨fun heq => Nat.le_of_eq heq.symm, fun hle => Nat.le_antisymm hok.count_le hle⟩
  · rw [UInt32.le_iff_toNat_le, hok.count]
    exact hok.count_le

/-- A network without connection. -/
def unreachable : Network Unit := ⟨fun _ => 0, fun _ => 1, fun _ => .error ⟨true, false⟩⟩

/-- Five calls without connection open the breaker, and the sixth is refused. -/
theorem breaker_open_after_five :
    ∃ s : Session Unit,
      Reachable Session.call (Session.new 0) s ∧ s.circuit.openUntil.isSome = true ∧
      s.calls.map (fun r => r.sent.length) = [0, 4, 4, 4, 4, 4] ∧
      LastFailed DEFAULT_CIRCUIT_FAILURE_THRESHOLD.toNat s.calls := by
  have hreach : Reachable Session.call (Session.new 0) _ :=
    ⟨List.replicate 6 (1, unreachable), rfl⟩
  have hopen := (breaker_open_iff_last_failed 0 hreach).1
  exact ⟨_, hreach, by decide +kernel, by decide +kernel, hopen.1 (by decide +kernel)⟩

end Racfs.Client
