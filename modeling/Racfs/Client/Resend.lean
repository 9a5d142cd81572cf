/-
# Requests that are sent again

A timeout does not tell the client whether its request was carried out: the server may have
applied it and the response may have been lost.  The client sends the same request again, and the
server, which does not know that it is the same one, applies it again.

This is about any handler.  `Resent` and `AnsweredAfterLoss` are the patterns of losses that
matter.  A request is *spent* (`Spends`) if it fails in every state that follows its first
delivery; the client then reports the failure of its own retry exactly when a response was lost
and a later request was answered.
-/
import Mathlib.Data.Nat.Count
import Mathlib.Data.Nat.Find
import Racfs.Client
import Racfs.Client.Retry

namespace Racfs.Client

open Server

/-- What happens to a request: the server applies it and the response arrives, the server applies
it and the response is lost, or it does not get to the server. -/
inductive Delivery
  | answered
  | responseLost
  | requestLost (e : HttpError)
deriving DecidableEq

namespace Delivery

/-- Whether the server applies the request. -/
def reaches : Delivery → Bool
  | requestLost _ => false
  | _ => true

/-- Whether the client sends the request again, if an attempt is left.  A lost response is
reported as a timeout. -/
def isRetried : Delivery → Bool
  | answered => false
  | responseLost => true
  | requestLost e => e.isConnect || e.isTimeout

end Delivery

/-- The first `b` requests are all sent again. -/
def Reached (pattern : ℕ → Delivery) (b : ℕ) : Prop :=
  b ≤ DEFAULT_MAX_RETRIES ∧ ∀ x < b, (pattern x).isRetried = true

/-- A request that gets to the server and is sent again has lost its response. -/
lemma Reached.responseLost {pattern : ℕ → Delivery} {a b : ℕ} (h : Reached pattern b)
    (hab : a < b) (hreach : (pattern a).reaches = true) : pattern a = .responseLost := by
  have hretried := h.2 a hab
  cases hp : pattern a with
  | answered => simp [hp, Delivery.isRetried] at hretried
  | responseLost => rfl
  | requestLost e => simp [hp, Delivery.reaches] at hreach

/-- A request is applied after one whose response was lost. -/
def Resent (pattern : ℕ → Delivery) : Prop :=
  ∃ a b, a < b ∧ Reached pattern b ∧ pattern a = .responseLost ∧ (pattern b).reaches = true

/-- A request is answered after one whose response was lost. -/
def AnsweredAfterLoss (pattern : ℕ → Delivery) : Prop :=
  ∃ a b, a < b ∧ Reached pattern b ∧ pattern a = .responseLost ∧ pattern b = .answered

/-! ### One call over a network that loses responses -/

section Calls

variable {S A : Type*} (handle : ℕ → S → Response A × S) (pattern : ℕ → Delivery) (s : S)

/-- The server after the first requests of a call. -/
def serverAfter : ℕ → S
  | 0 => s
  | a + 1 => if (pattern a).reaches then (handle a (serverAfter a)).2 else serverAfter a

/-- What the HTTP library makes of the end of a handler: after a panic the connection is closed
without a response. -/
def arrived : Response A → Except HttpError (Response A)
  | .panic => .error ⟨false, false⟩
  | r => .ok r

/-- The network between the client and the server. -/
def lossyNetwork (delay latency : ℕ → ℕ) : Network (Response A) where
  delay := delay
  latency := latency
  outcome a :=
    match pattern a with
    | .answered => arrived (handle a (serverAfter handle pattern s a)).1
    | .responseLost => .error ⟨false, true⟩
    | .requestLost e => .error e

/-- A call of the client: its result, and the number of requests it sends. -/
structure ClientCall (A : Type*) where
  result : Except SendError (Except Error A)
  requests : ℕ

/-- A call, sent with `send_with_retry` and read with `handle_response`. -/
def clientCall (delay latency : ℕ → ℕ) (c : CircuitState) (now : Instant) : ClientCall A :=
  let r := sendWithRetry (lossyNetwork handle pattern s delay latency) c now
  ⟨r.result.map handleResponse, r.sent.length⟩

variable {handle pattern s} {delay latency : ℕ → ℕ} {c : CircuitState} {now : Instant}

variable (handle pattern s delay latency) in
lemma isRetried_outcome (a : ℕ) :
    Client.isRetried ((lossyNetwork handle pattern s delay latency).outcome a) =
      (pattern a).isRetried := by
  simp only [lossyNetwork]
  cases pattern a with
  | answered =>
    simp only [Delivery.isRetried]
    cases (handle a (serverAfter handle pattern s a)).1 <;> rfl
  | responseLost => rfl
  | requestLost e => rfl

variable (handle pattern s delay latency) in
/-- The last request of a call that is let through. -/
lemma exists_last_request {c' : CircuitState} (hcheck : c.check now = some c') :
    ∃ b, Reached pattern b ∧ (b = DEFAULT_MAX_RETRIES ∨ (pattern b).isRetried = false) ∧
      clientCall handle pattern s delay latency c now =
        ⟨(((lossyNetwork handle pattern s delay latency).outcome b).mapError .Http).map
          handleResponse, b + 1⟩ := by
  obtain ⟨b, hb⟩ := sendWithRetry_last (lossyNetwork handle pattern s delay latency) hcheck
  refine ⟨b, ⟨hb.le_max, fun x hx => ?_⟩, ?_, ?_⟩
  · rw [← isRetried_outcome handle pattern s delay latency]
    exact hb.retried x (Nat.zero_le _) hx
  · rw [← isRetried_outcome handle pattern s delay latency]
    exact hb.last
  · rw [clientCall, hb.result, hb.length_sent, Nat.sub_zero]

/-- Only the last request is not followed by another one. -/
lemma Reached.le_last {b last : ℕ} (h : Reached pattern b)
    (hlast : last = DEFAULT_MAX_RETRIES ∨ (pattern last).isRetried = false) : b ≤ last := by
  by_contra hlt
  rcases hlast with heq | hstop
  · have hle := h.1
    omega
  · rw [h.2 last (by omega)] at hstop
    cases hstop

/-- A call that is let through sends its request number `b` exactly if all before it are sent
again. -/
lemma lt_requests_iff {c' : CircuitState} (hcheck : c.check now = some c') (b : ℕ) :
    b < (clientCall handle pattern s delay latency c now).requests ↔ Reached pattern b := by
  obtain ⟨last, hreached, hlast, heq⟩ :=
    exists_last_request handle pattern s delay latency hcheck
  rw [heq]
  constructor
  · intro hb
    have hle : b ≤ last := Nat.le_of_lt_succ hb
    exact ⟨Nat.le_trans hle hreached.1, fun x hx => hreached.2 x (by omega)⟩
  · intro h
    exact Nat.lt_succ_of_le (h.le_last hlast)

lemma clientCall_of_refused (hcheck : c.check now = none) :
    clientCall handle pattern s delay latency c now = ⟨.error .CircuitOpen, 0⟩ := by
  simp [clientCall, sendWithRetry, hcheck, Except.map]

variable (handle pattern s delay latency c now) in
lemma requests_le :
    (clientCall handle pattern s delay latency c now).requests ≤ DEFAULT_MAX_RETRIES + 1 := by
  cases hcheck : c.check now with
  | none =>
    rw [clientCall_of_refused hcheck]
    exact Nat.zero_le _
  | some c' =>
    obtain ⟨b, hb, -, heq⟩ := exists_last_request handle pattern s delay latency hcheck
    rw [heq]
    exact Nat.succ_le_succ hb.1

/-- The client reports an error of the server if that is the response to its last request. -/
lemma result_eq_api_iff {c' : CircuitState} (hcheck : c.check now = some c')
    (e : HttpErrorResponse) :
    (clientCall handle pattern s delay latency c now).result =
        .ok (.error (.Api e.code e.message e.detail)) ↔
      ∃ b, Reached pattern b ∧ pattern b = .answered ∧
        (handle b (serverAfter handle pattern s b)).1 = .error e := by
  obtain ⟨last, hreached, hlast, heq⟩ :=
    exists_last_request handle pattern s delay latency hcheck
  rw [heq]
  constructor
  · intro hresult
    simp only [lossyNetwork] at hresult
    cases hp : pattern last with
    | answered =>
      refine ⟨last, hreached, hp, ?_⟩
      simp only [hp] at hresult
      cases hr : (handle last (serverAfter handle pattern s last)).1 with
      | ok body => simp [hr, arrived, Except.mapError, Except.map, handleResponse] at hresult
      | error e' =>
        simp only [hr, arrived, Except.mapError, Except.map, handleResponse, Except.ok.injEq,
          Except.error.injEq, Error.Api.injEq] at hresult
        obtain ⟨hcode, hmessage, hdetail⟩ := hresult
        cases e
        cases e'
        simp_all
      | panic => simp [hr, arrived, Except.mapError, Except.map] at hresult
    | responseLost => simp [hp, Except.mapError, Except.map] at hresult
    | requestLost e => simp [hp, Except.mapError, Except.map] at hresult
  · rintro ⟨b, hb, hp, hr⟩
    -- an answered request is the last one
    have hle := hb.le_last hlast
    have hbl : b = last := by
      rcases Nat.eq_or_lt_of_le hle with h | hlt
      · exact h
      · have hretried := hreached.2 b hlt
        rw [hp] at hretried
        cases hretried
    subst hbl
    simp [lossyNetwork, hp, hr, arrived, Except.mapError, Except.map, handleResponse]

/-- The number of the first `n` requests that get to the server. -/
def deliveries (pattern : ℕ → Delivery) (n : ℕ) : ℕ :=
  Nat.count (fun a => (pattern a).reaches = true) n

/-- A call that is let through is applied more than once exactly if its request is applied after
one whose response was lost. -/
lemma one_lt_deliveries_iff {c' : CircuitState} (hcheck : c.check now = some c') :
    1 < deliveries pattern (clientCall handle pattern s delay latency c now).requests ↔
      Resent pattern := by
  rw [deliveries, Nat.count_eq_card_filter_range, Finset.one_lt_card]
  simp only [Finset.mem_filter, Finset.mem_range, lt_requests_iff hcheck]
  constructor
  · rintro ⟨a, ⟨ha, hreach⟩, b, ⟨hb, hreach'⟩, hne⟩
    rcases Nat.lt_or_gt_of_ne hne with hlt | hlt
    · exact ⟨a, b, hlt, hb, hb.responseLost hlt hreach, hreach'⟩
    · exact ⟨b, a, hlt, ha, ha.responseLost hlt hreach', hreach⟩
  · rintro ⟨a, b, hab, hb, hlost, hreach⟩
    have hmax := hb.1
    refine ⟨a, ⟨⟨by omega, fun x hx => hb.2 x (by omega)⟩, ?_⟩, b, ⟨hb, hreach⟩, by omega⟩
    rw [hlost]
    rfl

end Calls

/-! ### Requests that are spent -/

section Spent

variable {S A : Type*}

/-- Whether the server has done what it was asked for. -/
def isApplied : Response A → Bool
  | .ok _ => true
  | _ => false

/-- Some request of a call has been applied. -/
def Applied (handle : ℕ → S → Response A × S) (pattern : ℕ → Delivery) (s : S) (n : ℕ) : Prop :=
  ∃ a < n, (pattern a).reaches = true ∧
    isApplied (handle a (serverAfter handle pattern s a)).1 = true

/-- The call was applied, and its result is an error response of the server to a later request of
its own. -/
def FailedByRetry (handle : ℕ → S → Response A × S) (pattern : ℕ → Delivery) (s : S)
    (call : ClientCall A) : Prop :=
  Applied handle pattern s call.requests ∧
    ∃ e : HttpErrorResponse, call.result = .ok (.error (.Api e.code e.message e.detail))

/-- A request that fails from its second delivery on: `done` holds after the first, and under it
the server answers with an error. -/
structure Spends (handle : ℕ → S → Response A × S) (s : S) (done : S → Prop) : Prop where
  first : ∀ a, done (handle a s).2
  again : ∀ a s', done s' → done (handle a s').2
  /-- There is no success any more, -/
  fails : ∀ a s', done s' → isApplied (handle a s').1 = false
  /-- and if there was one, no panic. -/
  error : ∀ a s', isApplied (handle 0 s).1 = true → done s' → ∃ e, (handle a s').1 = .error e
  /-- The success of the first delivery does not depend on the time. -/
  time : ∀ a, isApplied (handle a s).1 = isApplied (handle 0 s).1

/-- A request that keeps succeeding if it does once. -/
structure Repeats (handle : ℕ → S → Response A × S) (s : S) (good : S → Prop) : Prop where
  start : good s
  keeps : ∀ a s', good s' → good (handle a s').2
  succeeds : ∀ a s', good s' → isApplied (handle a s').1 = true

variable {handle : ℕ → S → Response A × S} {pattern : ℕ → Delivery} {s : S}
  {delay latency : ℕ → ℕ} {c : CircuitState} {now : Instant}

/-- Before the first delivery the server is as it was, and after it the request is spent. -/
lemma Spends.serverAfter {done : S → Prop} (h : Spends handle s done) (n : ℕ) :
    ((∀ a < n, (pattern a).reaches = false) ∧ serverAfter handle pattern s n = s) ∨
    ((∃ a < n, (pattern a).reaches = true) ∧ done (serverAfter handle pattern s n)) := by
  induction n with
  | zero => exact .inl ⟨fun a ha => absurd ha (Nat.not_lt_zero a), rfl⟩
  | succ n ih =>
    rw [Client.serverAfter]
    by_cases hn : (pattern n).reaches = true
    · rw [if_pos hn]
      refine .inr ⟨⟨n, Nat.lt_succ_self n, hn⟩, ?_⟩
      rcases ih with ⟨-, heq⟩ | ⟨-, hdone⟩
      · rw [heq]
        exact h.first n
      · exact h.again n _ hdone
    · rw [if_neg hn]
      rcases ih with ⟨hnone, heq⟩ | ⟨⟨a, ha, hreach⟩, hdone⟩
      · refine .inl ⟨fun a ha => ?_, heq⟩
        rcases Nat.eq_or_lt_of_le (Nat.le_of_lt_succ ha) with rfl | hlt
        · exact eq_false_of_ne_true hn
        · exact hnone a hlt
      · exact .inr ⟨⟨a, Nat.lt_succ_of_lt ha, hreach⟩, hdone⟩

/-- The first request that gets to the server is applied. -/
lemma Spends.exists_applied {done : S → Prop} (h : Spends handle s done)
    (happlied : isApplied (handle 0 s).1 = true) {a : ℕ} (ha : (pattern a).reaches = true) :
    ∃ x ≤ a, (pattern x).reaches = true ∧
      isApplied (handle x (Client.serverAfter handle pattern s x)).1 = true := by
  have hex : ∃ x, (pattern x).reaches = true := ⟨a, ha⟩
  refine ⟨Nat.find hex, Nat.find_min' hex ha, Nat.find_spec hex, ?_⟩
  rcases h.serverAfter (Nat.find hex) with ⟨-, heq⟩ | ⟨⟨y, hy, hreach⟩, -⟩
  · rw [heq, h.time]
    exact happlied
  · exact absurd hreach (Nat.find_min hex hy)

/-- The failure of its own retry is reported exactly if the request would be applied, and a
response is lost before another request is answered. -/
lemma Spends.failedByRetry_iff {done : S → Prop} (h : Spends handle s done) :
    FailedByRetry handle pattern s (clientCall handle pattern s delay latency c now) ↔
      isApplied (handle 0 s).1 = true ∧ (c.check now).isSome = true ∧
        AnsweredAfterLoss pattern := by
  cases hcheck : c.check now with
  | none =>
    rw [clientCall_of_refused hcheck]
    simp [FailedByRetry, Applied]
  | some c' =>
    constructor
    · rintro ⟨⟨a, ha, hreach, happlied⟩, e, hresult⟩
      obtain ⟨b, hb, hp, hr⟩ := (result_eq_api_iff hcheck e).1 hresult
      have hra := (lt_requests_iff hcheck a).1 ha
      have hab : a ≠ b := by
        rintro rfl
        rw [hr] at happlied
        cases happlied
      have hle : a < b := by
        by_contra hlt
        have hretried := hra.2 b (by omega)
        rw [hp] at hretried
        cases hretried
      refine ⟨?_, rfl, a, b, hle, hb, hb.responseLost hle hreach, hp⟩
      rcases h.serverAfter a with ⟨-, heq⟩ | ⟨-, hdone⟩
      · rw [heq, h.time] at happlied
        exact happlied
      · rw [h.fails a _ hdone] at happlied
        cases happlied
    · rintro ⟨happlied, -, a, b, hab, hb, hlost, hp⟩
      have hreaches : (pattern a).reaches = true := by rw [hlost]; rfl
      obtain ⟨x, hxa, hreach, happ⟩ := h.exists_applied happlied hreaches
      have hdone : done (Client.serverAfter handle pattern s b) := by
        rcases h.serverAfter b with ⟨hnone, -⟩ | ⟨-, hdone⟩
        · rw [hnone a hab] at hreaches
          cases hreaches
        · exact hdone
      obtain ⟨e, he⟩ := h.error b _ happlied hdone
      refine ⟨⟨x, ?_, hreach, happ⟩, e, (result_eq_api_iff hcheck e).2 ⟨b, hb, hp, he⟩⟩
      have hmax := hb.1
      exact (lt_requests_iff hcheck x).2 ⟨by omega, fun y hy => hb.2 y (by omega)⟩

/-- A request that keeps succeeding does not fail by its own retry. -/
lemma Repeats.not_failedByRetry {good : S → Prop} (h : Repeats handle s good) :
    ¬ FailedByRetry handle pattern s (clientCall handle pattern s delay latency c now) := by
  have hgood : ∀ n, good (Client.serverAfter handle pattern s n) := by
    intro n
    induction n with
    | zero => exact h.start
    | succ n ih =>
      rw [Client.serverAfter]
      split
      · exact h.keeps n _ ih
      · exact ih
  rintro ⟨-, e, hresult⟩
  cases hcheck : c.check now with
  | none =>
    rw [clientCall_of_refused hcheck] at hresult
    cases hresult
  | some c' =>
    obtain ⟨b, -, -, hr⟩ := (result_eq_api_iff hcheck e).1 hresult
    have happ := h.succeeds b _ (hgood b)
    rw [hr] at happ
    cases happ

end Spent

end Racfs.Client
