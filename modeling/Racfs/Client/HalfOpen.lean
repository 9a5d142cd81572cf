/-
# Overlapping calls and the half-open breaker

The breaker of `Client` is shared by all calls.  A call takes the lock twice: for the check at its
start, and when its outcome is known.  Between the two it waits for its requests and pauses, and
other calls go on.  A call that finds the cooldown over resets the breaker; it is meant to be the
only one to try (a *probe*), and its outcome to decide whether the breaker opens again.

Neither is ensured.  After the reset the breaker is simply closed, so every call that comes before
the outcome of the probe is known starts as well; and the reset has set the count to zero, so the
failure of the probe alone is one failure out of five.  `OneProbe` says what is meant, and `Half`
what a step needs for it.
-/
import Mathlib.Logic.Function.Basic
import Racfs.Client.Retry

namespace Racfs.Client

variable {R : Type*}

/-- Where a call stands. -/
inductive Phase (R : Type*)
  | ready
  /-- Its request is under way. -/
  | sending (attempt : ℕ)
  /-- It pauses before the next attempt. -/
  | backingOff (attempt : ℕ) (lastErr : HttpError)
  /-- Its outcome is known, and not yet told to the breaker. -/
  | known (outcome : Except HttpError R)
  | ended (result : Except SendError R)

/-- The steps of a call. -/
inductive CallStep (R : Type*)
  | check
  /-- The response to the request or its error. -/
  | outcome (o : Except HttpError R)
  | wake
  | settle

/-- A step of one of the calls, some time after the last step of any of them. -/
structure Event (R : Type*) where
  call : ℕ
  elapsed : ℕ
  step : CallStep R

/-- The end of a probe: whether it succeeded, and whether the breaker was open then. -/
structure ProbeEnd where
  succeeded : Bool
  isOpen : Bool
deriving DecidableEq, Repr

/-- The client with its calls.  The last four fields are a record of what happens. -/
structure Pool (R : Type*) where
  circuit : CircuitState
  clock : Instant
  phases : ℕ → Phase R
  /-- The calls that reset the breaker, -/
  probes : List ℕ
  /-- and those of them whose outcome is not known. -/
  pending : List ℕ
  /-- Whether a call has started to send while a probe was pending. -/
  second : Bool
  ends : List ProbeEnd

namespace Pool

/-- A new client. -/
def new (t : Instant) : Pool R := ⟨.new, t, fun _ => .ready, [], [], false, []⟩

/-- What a call does with the outcome of an attempt. -/
def afterOutcome (attempt : ℕ) : Except HttpError R → Phase R
  | .ok r => .known (.ok r)
  | .error e =>
    if (e.isConnect || e.isTimeout) && attempt < DEFAULT_MAX_RETRIES then .backingOff attempt e
    else .known (.error e)

/-- What it does after a pause. -/
def afterPause (attempt : ℕ) (lastErr : HttpError) : Phase R :=
  if attempt < DEFAULT_MAX_RETRIES then .sending (attempt + 1) else .known (.error lastErr)

/-- A call gets to another phase by itself. -/
def moveTo (s : Pool R) (i : ℕ) (now : Instant) (phase : Phase R) : Pool R :=
  { s with
    clock := now
    phases := Function.update s.phases i phase
    pending := match phase with
      | .known _ => s.pending.filter fun j => j ≠ i
      | _ => s.pending }

/-- A call tells its outcome to the breaker. -/
def endWith (s : Pool R) (i : ℕ) (now : Instant) (circuit : CircuitState)
    (result : Except SendError R) : Pool R :=
  { s with
    circuit := circuit
    clock := now
    phases := Function.update s.phases i (.ended result)
    ends :=
      if i ∈ s.probes then ⟨result.isOk, circuit.openUntil.isSome⟩ :: s.ends else s.ends }

/-- The check at the start of a call. -/
def start (s : Pool R) (i : ℕ) (now : Instant) : Pool R :=
  match s.circuit.check now with
  | none =>
    { s with clock := now, phases := Function.update s.phases i (.ended (.error .CircuitOpen)) }
  | some circuit =>
    let probe := s.circuit.openUntil.isSome
    { s with
      circuit := circuit
      clock := now
      phases := Function.update s.phases i (.sending 0)
      probes := if probe then i :: s.probes else s.probes
      pending := if probe then i :: s.pending else s.pending
      second := s.second || !s.pending.isEmpty }

/-- A step of a call, if it is there. -/
def step (s : Pool R) (ev : Event R) : Option (Pool R) :=
  let now := s.clock + ev.elapsed
  match ev.step, s.phases ev.call with
  | .check, .ready => some (s.start ev.call now)
  | .outcome o, .sending attempt => some (s.moveTo ev.call now (afterOutcome attempt o))
  | .wake, .backingOff attempt lastErr =>
    some (s.moveTo ev.call now (afterPause attempt lastErr))
  | .settle, .known (.ok r) => some (s.endWith ev.call now s.circuit.recordSuccess (.ok r))
  | .settle, .known (.error e) =>
    some (s.endWith ev.call now (s.circuit.recordCircuitFailure now) (.error (.Http e)))
  | _, _ => none

end Pool

/-- No call has started while a probe was pending, and after the end of a probe the breaker was
open if it had failed and closed if it had succeeded. -/
structure OneProbe (s : Pool R) : Prop where
  single : s.second = false
  decided : ∀ e ∈ s.ends, e.isOpen = !e.succeeded

/-- The condition for a step.  While a probe is pending, a call may come only when the breaker has
opened again; a probe may fail only when the breaker is open or four failures are counted, and
succeed only when it is not open. -/
def Half (s : Pool R) (ev : Event R) : Prop :=
  match ev.step, s.phases ev.call with
  | .check, .ready =>
    s.pending = [] ∨ ∃ u, s.circuit.openUntil = some u ∧ s.clock + ev.elapsed < u
  | .settle, .known (.ok _) => ev.call ∈ s.probes → s.circuit.openUntil = none
  | .settle, .known (.error _) => ev.call ∈ s.probes →
    s.circuit.openUntil.isSome = true ∨
      DEFAULT_CIRCUIT_FAILURE_THRESHOLD ≤ s.circuit.failureCount + 1
  | _, _ => True

section Steps

variable {s : Pool R} (h : OneProbe s)
include h

lemma oneProbe_start_iff (i : ℕ) (now : Instant) :
    OneProbe (s.start i now) ↔
      s.pending = [] ∨ ∃ u, s.circuit.openUntil = some u ∧ now < u := by
  rw [← CircuitState.check_eq_none_iff]
  unfold Pool.start
  cases s.circuit.check now with
  | none => exact iff_of_true ⟨h.single, h.decided⟩ (.inr rfl)
  | some c =>
    constructor
    · intro h'
      left
      simpa [h.single] using h'.single
    · rintro (hnone | hnone)
      · exact ⟨by simp [h.single, hnone], h.decided⟩
      · cases hnone

lemma oneProbe_moveTo (i : ℕ) (now : Instant) (phase : Phase R) :
    OneProbe (s.moveTo i now phase) :=
  ⟨h.single, h.decided⟩

lemma oneProbe_endWith_iff (i : ℕ) (now : Instant) (c : CircuitState)
    (result : Except SendError R) :
    OneProbe (s.endWith i now c result) ↔
      (i ∈ s.probes → c.openUntil.isSome = !result.isOk) := by
  constructor
  · intro h' hi
    refine h'.decided ⟨result.isOk, c.openUntil.isSome⟩ ?_
    simp [Pool.endWith, hi]
  · intro hend
    refine ⟨h.single, fun e he => ?_⟩
    by_cases hi : i ∈ s.probes
    · simp only [Pool.endWith, hi, if_true, List.mem_cons] at he
      rcases he with rfl | he
      · exact hend hi
      · exact h.decided e he
    · simp only [Pool.endWith, hi, if_false] at he
      exact h.decided e he

end Steps

/-- A failure leaves the breaker open if it was open, or is the fifth. -/
lemma isSome_recordCircuitFailure (c : CircuitState) (now : Instant) :
    (c.recordCircuitFailure now).openUntil.isSome = true ↔
      c.openUntil.isSome = true ∨ DEFAULT_CIRCUIT_FAILURE_THRESHOLD ≤ c.failureCount + 1 := by
  rw [CircuitState.recordCircuitFailure]
  simp only [ge_iff_le]
  split_ifs with hge
  · simp [hge]
  · simp [hge]

/-- A step out of a good state leads to a good one exactly under the condition. -/
lemma oneProbe_step_iff {s s' : Pool R} {ev : Event R} (h : OneProbe s)
    (hstep : s.step ev = some s') : OneProbe s' ↔ Half s ev := by
  obtain ⟨i, dt, l⟩ := ev
  unfold Pool.step at hstep
  unfold Half
  simp only at hstep ⊢
  split at hstep
  · next hphase =>
    cases hstep
    simp only [hphase]
    exact oneProbe_start_iff h i _
  · next o attempt hphase =>
    cases hstep
    simp only [iff_true]
    exact oneProbe_moveTo h i _ _
  · next attempt lastErr hphase =>
    cases hstep
    simp only [iff_true]
    exact oneProbe_moveTo h i _ _
  · next r hphase =>
    cases hstep
    simp only [hphase]
    rw [oneProbe_endWith_iff h]
    simp [CircuitState.recordSuccess, Except.isOk, Except.toBool]
  · next e hphase =>
    cases hstep
    simp only [hphase]
    rw [oneProbe_endWith_iff h, ← isSome_recordCircuitFailure _ (s.clock + dt)]
    simp [Except.isOk, Except.toBool]
  · cases hstep

/-- **When a half-open breaker lets one probe through.**  In a run of overlapping calls, at most
one call starts until the outcome of a probe is known, and that outcome decides whether the breaker
is open, exactly if every step meets the condition. -/
theorem oneProbe_iff_half (t : Instant) (evs : List (Event R)) :
    StatesMeet Pool.step OneProbe (Pool.new t) evs ↔
      StepsMeet Pool.step Half (Pool.new t) evs := by
  refine statesMeet_iff_stepsMeet (A := fun _ => True) (fun _ _ _ _ _ => trivial) ?_ trivial ?_
  · intro s ev s' _ h hstep
    exact oneProbe_step_iff h hstep
  · exact ⟨rfl, by simp [Pool.new]⟩

/-- A client that fails with an error which is not worth a retry. -/
def refusedCall (i elapsed : ℕ) : List (Event Unit) :=
  [⟨i, elapsed, .check⟩, ⟨i, 0, .outcome (.error ⟨false, false⟩)⟩, ⟨i, 0, .settle⟩]

/-- Five calls that fail open the breaker. -/
def openBreaker : List (Event Unit) := (List.range 5).flatMap fun i => refusedCall i 0

/-- After the cooldown two calls start, and a probe that fails leaves the breaker closed. -/
theorem not_oneProbe :
    (∃ s, run Pool.step (Pool.new 0)
        (openBreaker ++ [⟨5, 30000000000, .check⟩, ⟨6, 0, .check⟩]) = some s ∧ ¬ OneProbe s) ∧
    ∃ s, run Pool.step (Pool.new 0) (openBreaker ++ refusedCall 5 30000000000) = some s ∧
      s.circuit.openUntil = none ∧ ¬ OneProbe s := by
  have hsecond : (run Pool.step (Pool.new 0)
      (openBreaker ++ [⟨5, 30000000000, .check⟩, ⟨6, 0, .check⟩])).map Pool.second =
        some true := by
    decide +kernel
  have hfailed : (run Pool.step (Pool.new 0)
      (openBreaker ++ refusedCall 5 30000000000)).map (fun s => (s.circuit.openUntil, s.ends)) =
        some (none, [⟨false, false⟩]) := by
    decide +kernel
  obtain ⟨s, hrun, hs⟩ := Option.map_eq_some_iff.1 hsecond
  obtain ⟨s', hrun', hs'⟩ := Option.map_eq_some_iff.1 hfailed
  obtain ⟨hopen, hends⟩ := Prod.mk.inj hs'
  refine ⟨⟨s, hrun, fun h => ?_⟩, s', hrun', hopen, fun h => ?_⟩
  · have hsingle := h.single
    rw [hs] at hsingle
    cases hsingle
  · have hdecided := h.decided ⟨false, false⟩ (by simp [hends])
    cases hdecided

/-! ### A call by itself -/

/-- The steps of a call from an attempt on, when no other call comes in between. -/
def attemptSteps (net : Network R) (i : ℕ) : List ℕ → List (Event R)
  | [] => [⟨i, 0, .settle⟩]
  | attempt :: attempts =>
    let response := ⟨i, net.delay attempt + net.latency attempt, .outcome (net.outcome attempt)⟩
    match net.outcome attempt with
    | .ok _ => [response, ⟨i, 0, .settle⟩]
    | .error e =>
      if (e.isConnect || e.isTimeout) && attempt < DEFAULT_MAX_RETRIES then
        response :: ⟨i, backoff attempt, .wake⟩ :: attemptSteps net i attempts
      else [response, ⟨i, 0, .settle⟩]

/-- The steps of a whole call. -/
def callSteps (net : Network R) (i idle : ℕ) (c : CircuitState) (now : Instant) :
    List (Event R) :=
  ⟨i, idle, .check⟩ ::
    match c.check now with
    | none => []
    | some _ => attemptSteps net i (List.range (DEFAULT_MAX_RETRIES + 1))

/-- A call has ended as the function says. -/
structure EndsAs (s : Pool R) (i : ℕ) (r : CallEnd R) : Prop where
  circuit : s.circuit = r.circuit
  clock : s.clock = r.finished
  phase : s.phases i = .ended r.result

lemma Pool.step_outcome {s : Pool R} {i a : ℕ} (hphase : s.phases i = .sending a) (elapsed : ℕ)
    (o : Except HttpError R) :
    s.step ⟨i, elapsed, .outcome o⟩ = some (s.moveTo i (s.clock + elapsed) (afterOutcome a o)) := by
  simp [Pool.step, hphase]

lemma Pool.step_wake {s : Pool R} {i a : ℕ} {e : HttpError} (hphase : s.phases i = .backingOff a e)
    (elapsed : ℕ) :
    s.step ⟨i, elapsed, .wake⟩ = some (s.moveTo i (s.clock + elapsed) (afterPause a e)) := by
  simp [Pool.step, hphase]

@[simp] lemma Pool.phases_moveTo (s : Pool R) (i : ℕ) (now : Instant) (phase : Phase R) :
    (s.moveTo i now phase).phases i = phase := by
  simp [Pool.moveTo]

lemma Pool.circuit_moveTo (s : Pool R) (i : ℕ) (now : Instant) (phase : Phase R) :
    (s.moveTo i now phase).circuit = s.circuit := rfl

lemma Pool.clock_moveTo (s : Pool R) (i : ℕ) (now : Instant) (phase : Phase R) :
    (s.moveTo i now phase).clock = now := rfl

lemma EndsAs.withSent {s : Pool R} {i : ℕ} {r : CallEnd R} (h : EndsAs s i r)
    (sent : List Instant) : EndsAs s i { r with sent := sent } :=
  ⟨h.circuit, h.clock, h.phase⟩

/-- The call ends when its outcome is known. -/
lemma run_settle {s : Pool R} {i : ℕ} {o : Except HttpError R} (hphase : s.phases i = .known o)
    (sent : List Instant) :
    ∃ s', run Pool.step s [⟨i, 0, .settle⟩] = some s' ∧ EndsAs s' i
      (match o with
        | .ok r => ⟨.ok r, s.circuit.recordSuccess, s.clock, sent⟩
        | .error e =>
          ⟨.error (.Http e), s.circuit.recordCircuitFailure s.clock, s.clock, sent⟩) := by
  cases o with
  | ok r =>
    refine ⟨s.endWith i s.clock s.circuit.recordSuccess (.ok r), ?_, rfl, rfl, ?_⟩
    · simp [run, Pool.step, hphase]
    · simp [Pool.endWith]
  | error e =>
    refine ⟨s.endWith i s.clock (s.circuit.recordCircuitFailure s.clock) (.error (.Http e)), ?_,
      rfl, rfl, ?_⟩
    · simp [run, Pool.step, hphase]
    · simp [Pool.endWith]

/-- The attempts of a call that no other comes in between of do what the loop does. -/
lemma run_attemptSteps (net : Network R) (i : ℕ) {n a : ℕ} (hn : n ≠ 0)
    (ha : a + n = DEFAULT_MAX_RETRIES + 1) (lastErr : Option HttpError) {s : Pool R}
    (hphase : s.phases i = .sending a) :
    ∃ s', run Pool.step s (attemptSteps net i (List.range' a n)) = some s' ∧
      EndsAs s' i (retryLoop net s.circuit (List.range' a n) lastErr s.clock) := by
  induction n generalizing a lastErr s with
  | zero => exact absurd rfl hn
  | succ n ih =>
    have hstep := Pool.step_outcome hphase (net.delay a + net.latency a) (net.outcome a)
    rw [← Nat.add_assoc] at hstep
    rw [List.range'_succ, attemptSteps, retryLoop]
    cases hout : net.outcome a with
    | ok r =>
      rw [hout] at hstep
      simp only
      rw [run, hstep]
      exact run_settle (Pool.phases_moveTo ..) _
    | error e =>
      rw [hout] at hstep
      by_cases hretry : ((e.isConnect || e.isTimeout) && decide (a < DEFAULT_MAX_RETRIES)) = true
      · have hlt : a < DEFAULT_MAX_RETRIES := by
          rw [Bool.and_eq_true, decide_eq_true_eq] at hretry
          exact hretry.2
        simp only [if_pos hretry]
        rw [Pool.afterOutcome, if_pos hretry] at hstep
        -- the states after the response and after the pause
        obtain ⟨s₁, hs₁⟩ : ∃ s₁, s₁ = s.moveTo i (s.clock + net.delay a + net.latency a)
          (.backingOff a e) := ⟨_, rfl⟩
        obtain ⟨s₂, hs₂⟩ : ∃ s₂, s₂ = s₁.moveTo i (s₁.clock + backoff a) (.sending (a + 1)) :=
          ⟨_, rfl⟩
        have hphase₁ : s₁.phases i = .backingOff a e := by rw [hs₁, Pool.phases_moveTo]
        have hphase₂ : s₂.phases i = .sending (a + 1) := by rw [hs₂, Pool.phases_moveTo]
        have hwake : s₁.step ⟨i, backoff a, .wake⟩ = some s₂ := by
          rw [Pool.step_wake hphase₁, Pool.afterPause, if_pos hlt, hs₂]
        have hcircuit : s₂.circuit = s.circuit := by
          rw [hs₂, Pool.circuit_moveTo, hs₁, Pool.circuit_moveTo]
        have hclock : s₂.clock = s.clock + net.delay a + net.latency a + backoff a := by
          rw [hs₂, Pool.clock_moveTo, hs₁, Pool.clock_moveTo]
        have hnext : a + 1 + n = DEFAULT_MAX_RETRIES + 1 := by omega
        obtain ⟨s', hrun, hend⟩ := ih (by omega) hnext (some e) hphase₂
        rw [hcircuit, hclock] at hend
        refine ⟨s', ?_, hend.withSent _⟩
        rw [run, hstep, Option.bind_some, ← hs₁, run, hwake, Option.bind_some, hrun]
      · simp only [if_neg hretry]
        rw [Pool.afterOutcome, if_neg hretry] at hstep
        rw [run, hstep]
        exact run_settle (Pool.phases_moveTo ..) _

/-- A call whose steps follow each other is a call of `sendWithRetry`: it has the same result and
leaves the breaker in the same state. -/
theorem run_callSteps (net : Network R) {s : Pool R} {i : ℕ} (hphase : s.phases i = .ready)
    (idle : ℕ) :
    ∃ s', run Pool.step s (callSteps net i idle s.circuit (s.clock + idle)) = some s' ∧
      EndsAs s' i (sendWithRetry net s.circuit (s.clock + idle)) := by
  have hstep : s.step ⟨i, idle, .check⟩ = some (s.start i (s.clock + idle)) := by
    simp [Pool.step, hphase]
  rw [callSteps, run, hstep, Option.bind_some, sendWithRetry, Pool.start]
  cases s.circuit.check (s.clock + idle) with
  | none => exact ⟨_, rfl, rfl, rfl, by simp⟩
  | some c =>
    simp only [List.range_eq_range']
    exact run_attemptSteps net i (by decide) (by decide) none (by simp)

end Racfs.Client
