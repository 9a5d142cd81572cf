/-
# Requests that are denied

`rate_limit_middleware` (`racfs-server/src/ratelimit.rs`) stands before all handlers of the
server.  It asks the rate limiter, runs the handler, and turns the response into an error when
the limiter has denied the request.  The handler and the state of the server are arbitrary here.

A request that is denied should not reach the handler, and should leave everything as it is
(`Blocked`).  The handler is run before the answer of the limiter is looked at, so that no
request that is denied is blocked.  The number of requests of a client that reach the handler in
a window is within the limit exactly if none of them is denied (`blocked_iff`).
-/
import Racfs.Lib.Decimal
import Racfs.Server.Api
import Racfs.Server.RateLimit

namespace Racfs.Server

open RateLimiter

/-! ### Requests and responses -/

/-- A request: what identifies the client, and the rest. -/
structure Request (P : Type*) where
  /-- The names are in lower case. -/
  headers : AssocMap Bytes Bytes
  /-- The text of the address that the request comes from. -/
  remoteIp : Option Bytes
  rest : P

structure HttpResponse where
  status : ℕ
  headers : AssocMap Bytes Bytes
  body : Bytes

/-- The text of the value of a header: only visible characters and tabs. -/
def headerText (value : Bytes) : Option Bytes :=
  if value.all fun b => (32 ≤ b && b < 127) || b == 9 then some value else none

def TOO_MANY_REQUESTS : ℕ := 429

namespace RateLimiter

variable {P : Type*} (hash : Bytes → UInt64)

/-- The text of the hash of a key. -/
def clientIdApikey (key : Bytes) : Bytes := ascii "apikey:" ++ decimal (hash key).toNat

def clientIdUser (auth : Bytes) : Bytes := ascii "user:" ++ decimal (hash auth).toNat

/-- The client of a request: its key, its user, or its address. -/
def getClientId (request : Request P) : Bytes :=
  match (request.headers.get? (ascii "x-api-key")).bind headerText with
  | some key => clientIdApikey hash key
  | none =>
    match (request.headers.get? (ascii "authorization")).bind headerText with
    | some auth => clientIdUser hash auth
    | none =>
      match request.remoteIp with
      | some ip => ascii "ip:" ++ ip
      | none => ascii "default"

/-- Set a header if it is wanted. -/
def addHeader (wanted : Bool) (name value : Bytes) (headers : AssocMap Bytes Bytes) :
    AssocMap Bytes Bytes :=
  if wanted then headers.insert name value else headers

/-- Add the headers of the limit to a response. -/
def addHeaders (l : RateLimiter) (response : HttpResponse) (remaining : UInt32) (reset : ℕ) :
    HttpResponse :=
  let headers := addHeader l.config.headers.limit (ascii "x-rate-limit-limit")
    (decimal l.config.maxRequests.toNat) response.headers
  let headers := addHeader l.config.headers.remaining (ascii "x-rate-limit-remaining")
    (decimal remaining.toNat) headers
  let headers := addHeader l.config.headers.reset (ascii "x-rate-limit-reset")
    (decimal reset) headers
  { response with headers }

end RateLimiter

/-- The body of the response for a request that is denied. -/
def rateLimitErrorResponse (reset : ℕ) : Bytes :=
  ascii "\x7b\"code\":\"RateLimitExceeded\",\"message\":\"Rate limit exceeded. Try again in " ++
    decimal reset ++ ascii " seconds.\"\x7d"

/-! ### The middleware -/

section Middleware

variable {P σ : Type*} (hash : Bytes → UInt64) (next : Request P → σ → HttpResponse × σ)

/-- The server behind the middleware, with the requests that have reached a handler. -/
structure Served (P σ : Type*) where
  limiter : Option RateLimiter
  state : σ
  reached : List (Request P × ℕ)

/-- The handler is run. -/
def Served.run (s : Served P σ) (request : Request P) (now : ℕ) : HttpResponse × Served P σ :=
  let r := next request s.state
  (r.1, { s with state := r.2, reached := s.reached ++ [(request, now)] })

def rateLimitMiddleware (s : Served P σ) (request : Request P) (now : ℕ) :
    HttpResponse × Served P σ :=
  match s.limiter with
  | none => s.run next request now
  | some limiter =>
    let c := limiter.check (getClientId hash request) now
    let limiter := c.2
    let (allowed, remaining, reset) := c.1
    let (response, s) := { s with limiter := some limiter }.run next request now
    if allowed then (limiter.addHeaders response remaining reset, s)
    else
      let response := { response with status := TOO_MANY_REQUESTS }
      let response := limiter.addHeaders response 0 reset
      ({ response with body := rateLimitErrorResponse reset }, s)

/-- The server after requests. -/
def serve (s : Served P σ) (requests : List (Request P × ℕ)) : Served P σ :=
  requests.foldl (fun s r => (rateLimitMiddleware hash next s r.1 r.2).2) s

/-- The limiter lets the request through. -/
def Allowed (limiter : RateLimiter) (request : Request P) (now : ℕ) : Prop :=
  (limiter.check (getClientId hash request) now).1.1 = true

instance (limiter : RateLimiter) (request : Request P) (now : ℕ) :
    Decidable (Allowed hash limiter request now) :=
  inferInstanceAs (Decidable (_ = true))

/-- A request that is denied does not reach the handler, and changes nothing. -/
def Blocked (s : Served P σ) (limiter : RateLimiter) (request : Request P) (now : ℕ) : Prop :=
  ¬ Allowed hash limiter request now →
    (rateLimitMiddleware hash next s request now).2.reached = s.reached ∧
      (rateLimitMiddleware hash next s request now).2.state = s.state

/-- The calls of the limiter for requests. -/
def checks (requests : List (Request P × ℕ)) : List Check :=
  requests.map fun r => (getClientId hash r.1, r.2)

/-- In every window of every client, no more requests than the limit reach the handler. -/
def Within (config : RateLimitConfig) (requests reached : List (Request P × ℕ)) : Prop :=
  ∀ client, ∀ r ∈ ofClient client (records (new config) (checks hash requests)),
    reached.countP (fun x => getClientId hash x.1 = client ∧ r.windowStart ≤ x.2 ∧
      x.2 < r.windowStart + config.window) ≤ config.maxRequests.toNat

variable {hash next}

/-- What the middleware does to the server: the handler is always run. -/
lemma rateLimitMiddleware_snd (s : Served P σ) {limiter : RateLimiter}
    (hlimiter : s.limiter = some limiter) (request : Request P) (now : ℕ) :
    (rateLimitMiddleware hash next s request now).2 =
      ⟨some (limiter.check (getClientId hash request) now).2, (next request s.state).2,
        s.reached ++ [(request, now)]⟩ := by
  rw [rateLimitMiddleware, hlimiter]
  simp only [Served.run]
  split <;> rfl

/-- All requests reach the handler. -/
lemma reached_serve (s : Served P σ) {limiter : RateLimiter} (hlimiter : s.limiter = some limiter)
    (requests : List (Request P × ℕ)) :
    (serve hash next s requests).reached = s.reached ++ requests := by
  induction requests generalizing s limiter with
  | nil => simp [serve]
  | cons r requests ih =>
    have hstep := @rateLimitMiddleware_snd P σ hash next s limiter hlimiter r.1 r.2
    have hrest := ih (rateLimitMiddleware hash next s r.1 r.2).2 (by rw [hstep])
    rw [serve, List.foldl_cons]
    rw [serve] at hrest
    rw [hrest, hstep]
    simp

/-- The requests of a client in a window, by the records of their checks. -/
lemma countP_window {config : RateLimitConfig} (hwindow : 0 < config.window)
    {requests : List (Request P × ℕ)} (hsorted : requests.Pairwise fun r r' => r.2 ≤ r'.2)
    {client : Bytes} {r : Record}
    (hr : r ∈ userRecords config none (ofClient client (checks hash requests))) :
    requests.countP (fun x => getClientId hash x.1 = client ∧ r.windowStart ≤ x.2 ∧
        x.2 < r.windowStart + config.window) =
      (userRecords config none (ofClient client (checks hash requests))).countP
        fun r' => r'.windowStart = r.windowStart := by
  have hsteady : Steady config none (ofClient client (checks hash requests)) :=
    steady_new config (List.pairwise_map.2 hsorted) client
  have htimes := map_now_userRecords config none (ofClient client (checks hash requests))
  calc requests.countP (fun x => getClientId hash x.1 = client ∧ r.windowStart ≤ x.2 ∧
        x.2 < r.windowStart + config.window)
      = (ofClient client (checks hash requests)).countP fun t =>
          r.windowStart ≤ t ∧ t < r.windowStart + config.window := by
        rw [ofClient, checks, List.countP_map, List.countP_filter, List.countP_map]
        refine List.countP_congr fun x _ => ?_
        simp only [decide_eq_true_eq, Function.comp, Bool.and_eq_true, beq_iff_eq]
        exact and_comm
    _ = (userRecords config none (ofClient client (checks hash requests))).countP fun r' =>
          r.windowStart ≤ r'.now ∧ r'.now < r.windowStart + config.window := by
        conv_lhs => rw [← htimes, List.countP_map]
        rfl
    _ = _ := by
        refine List.countP_congr fun r' hr' => ?_
        simp only [decide_eq_true_eq]
        exact (hsteady.spaced hwindow).mem_window_iff hr hr'

/-- All requests reach the handler, so they are within the limit if none is denied. -/
lemma within_iff {config : RateLimitConfig} (hwindow : 0 < config.window)
    {requests : List (Request P × ℕ)} (hsorted : requests.Pairwise fun r r' => r.2 ≤ r'.2) :
    Within hash config requests requests ↔
      ∀ x ∈ records (new config) (checks hash requests), x.2.allowed = true := by
  have hown : ∀ client, ofClient client (records (new config) (checks hash requests)) =
      userRecords config none (ofClient client (checks hash requests)) :=
    fun client => (ofClient_records (new config) client _).1
  have hsteady : ∀ client, Steady config none (ofClient client (checks hash requests)) :=
    fun client => steady_new config (List.pairwise_map.2 hsorted) client
  constructor
  · intro hwithin x hx
    by_contra hdenied
    have hmem : x.2 ∈ ofClient x.1 (records (new config) (checks hash requests)) :=
      List.mem_map.2 ⟨x, List.mem_filter.2 ⟨hx, BEq.refl x.1⟩, rfl⟩
    have hle := hwithin x.1 x.2 hmem
    rw [hown] at hmem
    rw [countP_window hwindow hsorted hmem] at hle
    obtain ⟨pre, post, hsplit⟩ := List.append_of_mem hmem
    -- the window is full before the request
    have hfull := (hsteady x.1).of_denied hwindow hsplit (Bool.eq_false_iff.2 hdenied)
    have hpre : pre.countP (Record.counts x.2.windowStart) ≤
        pre.countP fun r' => r'.windowStart = x.2.windowStart :=
      List.countP_mono_left fun r' _ hr' => (Bool.and_eq_true_iff.1 hr').2
    rw [hsplit, List.countP_append, List.countP_cons_of_pos (by simp)] at hle
    rw [counted] at hfull
    omega
  · intro hallowed client r hr
    rw [hown] at hr
    rw [countP_window hwindow hsorted hr]
    refine Nat.le_trans (List.countP_mono_left fun r' hr' hstart => ?_)
      ((hsteady client).countP_counts hwindow r.windowStart)
    rw [← hown] at hr'
    obtain ⟨x, hx, rfl⟩ := List.mem_map.1 hr'
    have hx := hallowed x (List.mem_filter.1 hx).1
    rw [Record.counts, hx]
    exact hstart

/-- No request that is denied is blocked.  The requests of each client that reach the handler
are within the limit in every window exactly if no request is denied. -/
theorem blocked_iff (hash : Bytes → UInt64) (next : Request P → σ → HttpResponse × σ) :
    (∀ (s : Served P σ) limiter, s.limiter = some limiter → ∀ request now,
      (Blocked hash next s limiter request now ↔ Allowed hash limiter request now)) ∧
    ∀ config : RateLimitConfig, 0 < config.window → ∀ state requests,
      requests.Pairwise (fun r r' => r.2 ≤ r'.2) →
      (Within hash config requests
          (serve hash next ⟨some (new config), state, []⟩ requests).reached ↔
        ∀ x ∈ records (new config) (checks hash requests), x.2.allowed = true) := by
  constructor
  · intro s limiter hlimiter request now
    constructor
    · intro hblocked
      by_contra hdenied
      have hreached := (hblocked hdenied).1
      rw [rateLimitMiddleware_snd s hlimiter] at hreached
      simp at hreached
    · exact fun hallowed hdenied => absurd hallowed hdenied
  · intro config hwindow state requests hsorted
    rw [reached_serve ⟨some (new config), state, []⟩ rfl requests]
    exact within_iff hwindow hsorted

end Middleware

/-! ### A handler that creates files -/

/-- The handler for the creation of a file; the request has the path. -/
def createHandler (request : Request Bytes) (s : ServerState Unit) :
    HttpResponse × ServerState Unit :=
  (⟨200, ∅, []⟩, (s.createFile request.rest).2)

/-- A request of a client without a name. -/
def createRequest (path : String) : Request Bytes := ⟨∅, none, ascii path⟩

/-- One request in a minute. -/
def oneRequest : RateLimitConfig := { maxRequests := 1 }

/-- A server with an empty in-memory filesystem. -/
def emptyServer : ServerState Unit where
  app := ⟨(Vfs.MountableFS.new.mount ⟨[]⟩ ()).2, fun _ => MemFs.MemFS.new 0⟩
  statCache := ⟨∅, 2⟩
  clock := 0

/-- One request is let through, and is within the limit. -/
theorem blocked_iff_one_request :
    Blocked (fun _ => 0) createHandler ⟨some (new oneRequest), emptyServer, []⟩ (new oneRequest)
        (createRequest "/a") 0 ∧
      Within (fun _ => 0) oneRequest [(createRequest "/a", 0)]
        (serve (fun _ => 0) createHandler ⟨some (new oneRequest), emptyServer, []⟩
          [(createRequest "/a", 0)]).reached := by
  obtain ⟨hblocked, hwithin⟩ := blocked_iff (fun _ => 0) createHandler
  have hallowed : Allowed (fun _ => 0) (new oneRequest) (createRequest "/a") 0 := by decide
  refine ⟨(hblocked ⟨some (new oneRequest), emptyServer, []⟩ (new oneRequest) rfl _ 0).2 hallowed,
    (hwithin oneRequest (by decide) emptyServer [(createRequest "/a", 0)] (by simp)).2 ?_⟩
  decide

/-- The second request is denied, and creates its file. -/
theorem not_blocked_second_request :
    let s := serve (fun _ => 0) createHandler ⟨some (new oneRequest), emptyServer, []⟩
      [(createRequest "/a", 0)]
    let r := rateLimitMiddleware (fun _ => 0) createHandler s (createRequest "/b") 1
    r.1.status = 429 ∧
      (s.state.app.backend ()).files.contains ⟨ascii "/b"⟩ = false ∧
      (r.2.state.app.backend ()).files.contains ⟨ascii "/b"⟩ = true ∧
      r.2.reached.length = 2 ∧
      ∃ limiter, s.limiter = some limiter ∧
        ¬ Blocked (fun _ => 0) createHandler s limiter (createRequest "/b") 1 := by
  intro s r
  refine ⟨by decide, by decide, by decide, by decide, _, rfl, fun h => ?_⟩
  have hreached := (h (by decide)).1
  exact absurd (congrArg List.length hreached) (by decide)

end Racfs.Server
