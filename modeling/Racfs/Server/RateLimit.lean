/-
# The rate limiter

`RateLimiter` (`racfs-server/src/ratelimit.rs`) counts the requests of each client in a window of
time.  A window begins with the first request of the client, and after its end again with the
first request that follows.  `check` is called under the lock on all clients and takes the time
there, so the calls come one after the other and their times do not decrease.

The calls of a run are recorded with the answer and with the beginning of the window that they
are in.  A client sees only its own calls (`ofClient_records`), so that all that is said about a
run is said about the calls of one client.  `check_bounds` has the results.

Times are in nanoseconds.  The configuration does not change during a run.
-/
import Racfs.Lib.AssocMap
import Racfs.Lib.Bytes
import Racfs.Lib.Window

namespace Racfs.Server

/-- Which headers a response gets. -/
structure RateLimitHeaders where
  limit : Bool := true
  remaining : Bool := true
  reset : Bool := true

structure RateLimitConfig where
  /-- The number of requests in a window. -/
  maxRequests : UInt32 := 100
  /-- The length of a window. -/
  window : ℕ := 60 * 10 ^ 9
  headers : RateLimitHeaders := {}

/-- The requests of a client in its window. -/
structure UserRateLimit where
  count : UInt32
  windowStart : ℕ

structure RateLimiter where
  users : AssocMap Bytes UserRateLimit
  config : RateLimitConfig

namespace RateLimiter

def new (config : RateLimitConfig) : RateLimiter := ⟨∅, config⟩

/-- The window of a client: a new one for a new client or if the last one has expired. -/
def renew (config : RateLimitConfig) (user : Option UserRateLimit) (now : ℕ) : UserRateLimit :=
  let user := user.getD ⟨0, now⟩
  if now - user.windowStart ≥ config.window then ⟨0, now⟩ else user

/-- Whether the limit is reached, what remained before the request, and the seconds to the end
of the window; with the window after the request. -/
def countRequest (config : RateLimitConfig) (user : UserRateLimit) (now : ℕ) :
    (Bool × UInt32 × ℕ) × UserRateLimit :=
  let remaining := if user.count ≤ config.maxRequests then config.maxRequests - user.count else 0
  let allowed := decide (user.count < config.maxRequests)
  let user := if allowed then { user with count := user.count + 1 } else user
  let elapsed := now - user.windowStart
  ((allowed, remaining, (config.window - elapsed) / 10 ^ 9), user)

/-- Check the limit for a client. -/
def check (l : RateLimiter) (clientId : Bytes) (now : ℕ) : (Bool × UInt32 × ℕ) × RateLimiter :=
  let r := countRequest l.config (renew l.config (l.users.get? clientId) now) now
  (r.1, { l with users := l.users.insert clientId r.2 })

end RateLimiter

open RateLimiter

/-! ### Records of calls -/

/-- A call of `check`. -/
structure Record where
  now : ℕ
  answer : Bool × UInt32 × ℕ
  /-- The beginning of the window that the call is in. -/
  windowStart : ℕ
  /-- The window begins with the call. -/
  resets : Bool

/-- The request is let through. -/
def Record.allowed (r : Record) : Bool := r.answer.1

/-- The window begins with the call. -/
def Resets (config : RateLimitConfig) (user : Option UserRateLimit) (now : ℕ) : Bool :=
  match user with
  | none => true
  | some u => now - u.windowStart ≥ config.window

/-- The record of a call of a client with the given window. -/
def record (config : RateLimitConfig) (user : Option UserRateLimit) (now : ℕ) : Record where
  now := now
  answer := (countRequest config (renew config user now) now).1
  windowStart := (renew config user now).windowStart
  resets := Resets config user now

/-- The window of a client after a call. -/
def afterCheck (config : RateLimitConfig) (user : Option UserRateLimit) (now : ℕ) :
    UserRateLimit := (countRequest config (renew config user now) now).2

/-- The calls of one client. -/
def userRecords (config : RateLimitConfig) : Option UserRateLimit → List ℕ → List Record
  | _, [] => []
  | user, now :: times =>
    record config user now :: userRecords config (some (afterCheck config user now)) times

/-- The window of a client after its calls. -/
def userAfter (config : RateLimitConfig) (user : Option UserRateLimit) (times : List ℕ) :
    Option UserRateLimit :=
  times.foldl (fun user now => some (afterCheck config user now)) user

/-- A call for a client at a time. -/
abbrev Check := Bytes × ℕ

/-- The calls of all clients. -/
def records (l : RateLimiter) : List Check → List (Bytes × Record)
  | [] => []
  | (client, now) :: calls =>
    (client, record l.config (l.users.get? client) now) :: records (l.check client now).2 calls

/-- The limiter after calls. -/
def afterChecks (l : RateLimiter) (calls : List Check) : RateLimiter :=
  calls.foldl (fun l c => (l.check c.1 c.2).2) l

/-- What is of one client. -/
def ofClient {A : Type*} (client : Bytes) (l : List (Bytes × A)) : List A :=
  (l.filter fun x => x.1 == client).map Prod.snd

lemma check_eq (l : RateLimiter) (client : Bytes) (now : ℕ) :
    l.check client now = ((record l.config (l.users.get? client) now).answer,
      { l with users := l.users.insert client (afterCheck l.config (l.users.get? client) now) }) :=
  rfl

section OfClient

variable {A : Type*} {client : Bytes} {c : Bytes} {a : A} {l : List (Bytes × A)}

lemma ofClient_cons_self : ofClient client ((client, a) :: l) = a :: ofClient client l := by
  simp [ofClient]

lemma ofClient_cons_of_ne (h : c ≠ client) :
    ofClient client ((c, a) :: l) = ofClient client l := by
  simp [ofClient, h]

end OfClient

/-- The records of a client are those of its own calls. -/
lemma ofClient_records (l : RateLimiter) (client : Bytes) (calls : List Check) :
    ofClient client (records l calls) =
        userRecords l.config (l.users.get? client) (ofClient client calls) ∧
      (afterChecks l calls).users.get? client =
        userAfter l.config (l.users.get? client) (ofClient client calls) := by
  induction calls generalizing l with
  | nil => exact ⟨rfl, rfl⟩
  | cons c calls ih =>
    obtain ⟨c, now⟩ := c
    obtain ⟨hrecords, hafter⟩ := ih (l.check c now).2
    rw [check_eq] at hrecords hafter
    simp only [AssocMap.get?_insert] at hrecords hafter
    by_cases heq : c = client
    · subst heq
      rw [if_pos (BEq.refl c)] at hrecords hafter
      rw [records, ofClient_cons_self, ofClient_cons_self, userRecords]
      exact ⟨congrArg _ hrecords, hafter⟩
    · rw [if_neg (by simpa using heq)] at hrecords hafter
      rw [records, ofClient_cons_of_ne heq, ofClient_cons_of_ne heq]
      exact ⟨hrecords, hafter⟩

/-! ### One call -/

section Call

variable {config : RateLimitConfig} {user : Option UserRateLimit} {now : ℕ}

/-- The window of a call is that of the last one, or it begins with the call. -/
lemma renew_cases (config : RateLimitConfig) (hle : ∀ u, user = some u → u.windowStart ≤ now) :
    (∃ u, user = some u ∧ now < u.windowStart + config.window ∧
      Resets config user now = false ∧ renew config user now = u) ∨
    ((∀ u, user = some u → u.windowStart + config.window ≤ now) ∧
      Resets config user now = true ∧ renew config user now = ⟨0, now⟩) := by
  cases user with
  | none =>
    refine Or.inr ⟨nofun, rfl, ?_⟩
    simp [renew]
  | some u =>
    have hle := hle u rfl
    by_cases hexpired : now - u.windowStart ≥ config.window
    · refine Or.inr ⟨fun v hv => ?_, ?_, ?_⟩
      · cases hv
        omega
      · simp [Resets, hexpired]
      · simp [renew, hexpired]
    · refine Or.inl ⟨u, rfl, by omega, ?_, ?_⟩
      · simp [Resets, hexpired]
      · simp [renew, hexpired]

/-- A request is let through and counted, or it is not. -/
lemma countRequest_cases (config : RateLimitConfig) (u : UserRateLimit) (now : ℕ) :
    ((countRequest config u now).1.1 = true ∧ u.count < config.maxRequests ∧
      (countRequest config u now).2.windowStart = u.windowStart ∧
      (countRequest config u now).2.count.toNat = u.count.toNat + 1) ∨
    ((countRequest config u now).1.1 = false ∧ ¬ u.count < config.maxRequests ∧
      (countRequest config u now).2 = u) := by
  by_cases hlt : u.count < config.maxRequests
  · refine Or.inl ⟨by simp [countRequest, hlt], hlt, by simp [countRequest, hlt], ?_⟩
    -- below the limit, the counter does not overflow
    have hnat : u.count.toNat < config.maxRequests.toNat := hlt
    have hmax := config.maxRequests.toNat_lt
    simp only [countRequest, hlt, decide_true, if_true, UInt32.toNat_add, UInt32.toNat_one]
    exact Nat.mod_eq_of_lt (by omega)
  · exact Or.inr ⟨by simp [countRequest, hlt], hlt, by simp [countRequest, hlt]⟩

lemma windowStart_afterCheck :
    (afterCheck config user now).windowStart = (record config user now).windowStart := by
  rcases countRequest_cases config (renew config user now) now with ⟨-, -, heq, -⟩ | ⟨-, -, heq⟩
  · exact heq
  · exact congrArg UserRateLimit.windowStart heq

/-- The requests that a window of the client has counted, for the window that begins at `s`. -/
def counted (user : Option UserRateLimit) (s : ℕ) : ℕ :=
  match user with
  | none => 0
  | some u => if u.windowStart = s then u.count.toNat else 0

/-- The call is let through, in the window that begins at `s`. -/
def Record.counts (s : ℕ) (r : Record) : Bool := r.allowed && decide (r.windowStart = s)

/-- A call is counted once, in its window. -/
lemma counted_afterCheck (hwindow : 0 < config.window)
    (hle : ∀ u, user = some u → u.windowStart ≤ now) {s : ℕ}
    (hs : (record config user now).windowStart ≤ s) :
    counted (some (afterCheck config user now)) s =
      counted user s + if (record config user now).counts s then 1 else 0 := by
  have hstart : (afterCheck config user now).windowStart =
      (record config user now).windowStart := windowStart_afterCheck
  -- what was counted before in the window
  have hbefore : counted user s =
      if (record config user now).windowStart = s then (renew config user now).count.toNat
      else 0 := by
    rcases renew_cases config hle with ⟨u, rfl, -, -, heq⟩ | ⟨hexpired, -, heq⟩
    · rw [record, heq]
      rfl
    · rw [record, heq] at hs ⊢
      cases user with
      | none => simp [counted]
      | some u =>
        have hend := hexpired u rfl
        have hne : u.windowStart ≠ s := by
          simp only at hs
          omega
        simp [counted, hne]
  rw [hbefore]
  rcases countRequest_cases config (renew config user now) now with
    ⟨hallowed, -, -, hcount⟩ | ⟨hdenied, -, heq⟩
  · have hr : (record config user now).allowed = true := hallowed
    simp only [counted, hstart, Record.counts, hr, Bool.true_and, decide_eq_true_eq]
    split_ifs
    · exact hcount
    · rfl
  · have hr : (record config user now).allowed = false := hdenied
    simp only [counted, hstart, Record.counts, hr, Bool.false_and]
    rw [if_neg Bool.false_ne_true, Nat.add_zero, afterCheck, heq]

/-- The window of the call is the last one, or it begins after the end of that. -/
lemma windowStart_record (hle : ∀ u, user = some u → u.windowStart ≤ now) {u : UserRateLimit}
    (hu : user = some u) : (record config user now).windowStart = u.windowStart ∨
      u.windowStart + config.window ≤ (record config user now).windowStart := by
  rcases renew_cases config hle with ⟨v, hv, -, -, heq⟩ | ⟨hexpired, -, heq⟩
  · rw [record, heq, Option.some.inj (hv.symm.trans hu)]
    exact Or.inl rfl
  · rw [record, heq]
    exact Or.inr (hexpired u hu)

/-- The call is in its window. -/
lemma record_inWindow (hwindow : 0 < config.window)
    (hle : ∀ u, user = some u → u.windowStart ≤ now) :
    (record config user now).windowStart ≤ now ∧
      now < (record config user now).windowStart + config.window := by
  rcases renew_cases config hle with ⟨u, hu, hlt, -, heq⟩ | ⟨-, -, heq⟩
  · rw [record, heq]
    exact ⟨hle u hu, hlt⟩
  · rw [record, heq]
    exact ⟨le_refl now, by simp only; omega⟩

end Call

/-! ### The calls of one client -/

/-- The times of the calls do not decrease, and the window has not begun after them nor counted
more than the limit. -/
structure Steady (config : RateLimitConfig) (user : Option UserRateLimit) (times : List ℕ) :
    Prop where
  sorted : times.Pairwise (· ≤ ·)
  started : ∀ u, user = some u → ∀ t ∈ times, u.windowStart ≤ t
  count_le : ∀ u, user = some u → u.count ≤ config.maxRequests

section Calls

variable {config : RateLimitConfig} {user : Option UserRateLimit} {now : ℕ} {times : List ℕ}

lemma Steady.le (h : Steady config user (now :: times)) :
    ∀ u, user = some u → u.windowStart ≤ now :=
  fun u hu => h.started u hu now List.mem_cons_self

/-- After a call. -/
lemma Steady.tail (hwindow : 0 < config.window) (h : Steady config user (now :: times)) :
    Steady config (some (afterCheck config user now)) times := by
  obtain ⟨hnow, hsorted⟩ := List.pairwise_cons.1 h.sorted
  refine ⟨hsorted, fun u hu t ht => ?_, fun u hu => ?_⟩
  · cases hu
    rw [windowStart_afterCheck]
    exact Nat.le_trans (record_inWindow hwindow h.le).1 (hnow t ht)
  · cases hu
    show (afterCheck config user now).count.toNat ≤ config.maxRequests.toNat
    rcases countRequest_cases config (renew config user now) now with
      ⟨-, hlt, -, hcount⟩ | ⟨-, -, heq⟩
    · have hlt : (renew config user now).count.toNat < config.maxRequests.toNat := hlt
      rw [afterCheck, hcount]
      omega
    · rw [afterCheck, heq]
      rcases renew_cases config h.le with ⟨v, hv, -, -, heq⟩ | ⟨-, -, heq⟩
      · rw [heq]
        exact h.count_le v hv
      · rw [heq]
        exact Nat.zero_le _

lemma mem_userRecords_cons {r : Record} :
    r ∈ userRecords config user (now :: times) ↔ r = record config user now ∨
      r ∈ userRecords config (some (afterCheck config user now)) times := by
  rw [userRecords, List.mem_cons]

lemma map_now_userRecords (config : RateLimitConfig) (user : Option UserRateLimit)
    (times : List ℕ) : (userRecords config user times).map Record.now = times := by
  induction times generalizing user with
  | nil => rfl
  | cons now times ih =>
    rw [userRecords, List.map_cons, ih]
    rfl

/-- Where the windows of calls begin. -/
lemma Steady.windowStart_mem (hwindow : 0 < config.window) (h : Steady config user times)
    {u : UserRateLimit} (hu : user = some u) {r : Record} (hr : r ∈ userRecords config user times) :
    r.windowStart = u.windowStart ∨ u.windowStart + config.window ≤ r.windowStart := by
  induction times generalizing user u with
  | nil => cases hr
  | cons now times ih =>
    have hhead := @windowStart_record config user now h.le u hu
    rcases mem_userRecords_cons.1 hr with rfl | hr
    · exact hhead
    · have htail := ih (h.tail hwindow) rfl hr
      rw [windowStart_afterCheck] at htail
      omega

/-- The windows do not overlap. -/
lemma Steady.spaced (hwindow : 0 < config.window) (h : Steady config user times) :
    Window.Spaced Record.now Record.windowStart config.window
      (userRecords config user times) := by
  induction times generalizing user with
  | nil => exact ⟨nofun, nofun, nofun⟩
  | cons now times ih =>
    have htail := ih (h.tail hwindow)
    obtain ⟨hle, hlt⟩ := record_inWindow hwindow h.le
    have hapart : ∀ r ∈ userRecords config (some (afterCheck config user now)) times,
        r.windowStart = (record config user now).windowStart ∨
          (record config user now).windowStart + config.window ≤ r.windowStart := by
      intro r hr
      have hstart := (h.tail hwindow).windowStart_mem hwindow rfl hr
      rwa [windowStart_afterCheck] at hstart
    refine ⟨fun r hr => ?_, fun r hr => ?_, fun r hr r' hr' => ?_⟩
    · rcases mem_userRecords_cons.1 hr with rfl | hr
      · exact hle
      · exact htail.start_le r hr
    · rcases mem_userRecords_cons.1 hr with rfl | hr
      · exact hlt
      · exact htail.lt_end r hr
    · rcases mem_userRecords_cons.1 hr with rfl | hr
      · rcases mem_userRecords_cons.1 hr' with rfl | hr'
        · exact Or.inl rfl
        · have hne := hapart r' hr'
          omega
      · rcases mem_userRecords_cons.1 hr' with rfl | hr'
        · have hne := hapart r hr
          omega
        · exact htail.apart r hr r' hr'

/-- A window counts no more calls than the limit. -/
lemma Steady.countP_counts_le (hwindow : 0 < config.window) (h : Steady config user times) {s : ℕ}
    (hs : ∀ u, user = some u → u.windowStart ≤ s) :
    (userRecords config user times).countP (Record.counts s) + counted user s ≤
      config.maxRequests.toNat := by
  have hcounted : counted user s ≤ config.maxRequests.toNat := by
    cases user with
    | none => exact Nat.zero_le _
    | some u =>
      rw [counted]
      split_ifs
      · exact h.count_le u rfl
      · exact Nat.zero_le _
  induction times generalizing user with
  | nil => simpa [userRecords] using hcounted
  | cons now times ih =>
    by_cases hstart : (record config user now).windowStart ≤ s
    · have hafter := counted_afterCheck hwindow h.le hstart
      have hrest := ih (h.tail hwindow) (fun u hu => ?_) ?_
      · rw [userRecords, List.countP_cons]
        omega
      · cases hu
        rwa [windowStart_afterCheck]
      · rw [counted]
        split_ifs
        · exact (h.tail hwindow).count_le _ rfl
        · exact Nat.zero_le _
    · -- all calls from now on are in later windows
      have hzero : (userRecords config user (now :: times)).countP (Record.counts s) = 0 := by
        refine List.countP_eq_zero.2 fun r hr => ?_
        have hlater : (record config user now).windowStart ≤ r.windowStart := by
          rcases mem_userRecords_cons.1 hr with rfl | hr
          · exact Nat.le_refl _
          · have hmem := (h.tail hwindow).windowStart_mem hwindow rfl hr
            rw [windowStart_afterCheck] at hmem
            omega
        have hne : r.windowStart ≠ s := by omega
        simp [Record.counts, hne]
      rw [hzero, Nat.zero_add]
      exact hcounted

/-- The counter is the number of calls that were let through in the window. -/
lemma Steady.count_eq (hwindow : 0 < config.window) (h : Steady config user times)
    {v : UserRateLimit} (hv : userAfter config user times = some v) :
    (∀ u, user = some u → u.windowStart ≤ v.windowStart) ∧ v.count ≤ config.maxRequests ∧
      v.count.toNat = (userRecords config user times).countP (Record.counts v.windowStart) +
        counted user v.windowStart := by
  induction times generalizing user with
  | nil =>
    obtain rfl : user = some v := hv
    refine ⟨fun u hu => ?_, h.count_le v rfl, ?_⟩
    · cases hu
      exact Nat.le_refl _
    · simp [userRecords, counted]
  | cons now times ih =>
    obtain ⟨hstart, hle, hcount⟩ := ih (h.tail hwindow) hv
    have hstart := hstart _ rfl
    rw [windowStart_afterCheck] at hstart
    refine ⟨fun u hu => ?_, hle, ?_⟩
    · have hrecord := @windowStart_record config user now h.le u hu
      omega
    · have hafter := counted_afterCheck hwindow h.le hstart
      rw [userRecords, List.countP_cons]
      omega

/-- Before a call that is denied, its window has let through as many calls as the limit. -/
lemma Steady.of_denied (hwindow : 0 < config.window) (h : Steady config user times)
    {pre post : List Record} {r : Record}
    (heq : userRecords config user times = pre ++ r :: post) (hdenied : r.allowed = false) :
    config.maxRequests.toNat ≤
      pre.countP (Record.counts r.windowStart) + counted user r.windowStart := by
  induction times generalizing user pre with
  | nil => simp [userRecords] at heq
  | cons now times ih =>
    rw [userRecords] at heq
    cases pre with
    | nil =>
      obtain ⟨rfl, -⟩ := List.cons.inj heq
      have hfull : ¬ (renew config user now).count < config.maxRequests := by
        rcases countRequest_cases config (renew config user now) now with
          ⟨hallowed, -⟩ | ⟨-, hfull, -⟩
        · exact absurd (hallowed.symm.trans hdenied) (by decide)
        · exact hfull
      have hfull : config.maxRequests.toNat ≤ (renew config user now).count.toNat :=
        Nat.le_of_not_lt hfull
      rw [record]
      rcases renew_cases config h.le with ⟨u, rfl, -, -, hrenew⟩ | ⟨-, -, hrenew⟩
      · rw [hrenew] at hfull ⊢
        simpa [counted] using hfull
      · rw [hrenew] at hfull
        exact Nat.le_trans hfull (Nat.zero_le _)
    | cons r₀ pre =>
      obtain ⟨rfl, htail⟩ := List.cons.inj heq
      have hmem : r ∈ userRecords config (some (afterCheck config user now)) times := by
        rw [htail]
        simp
      have hstart := (h.tail hwindow).windowStart_mem hwindow rfl hmem
      rw [windowStart_afterCheck] at hstart
      have hafter := counted_afterCheck hwindow h.le
        (show (record config user now).windowStart ≤ r.windowStart by omega)
      have hrest := ih (h.tail hwindow) htail
      rw [List.countP_cons]
      omega

/-- Calls that begin no window are in the one that there is. -/
lemma Steady.windowStart_of_not_resets (hwindow : 0 < config.window) {u : UserRateLimit}
    (h : Steady config (some u) times) {mid post : List Record}
    (heq : userRecords config (some u) times = mid ++ post)
    (hresets : ∀ r ∈ mid, r.resets = false) : ∀ r ∈ mid, r.windowStart = u.windowStart := by
  induction times generalizing u mid with
  | nil =>
    obtain ⟨rfl, -⟩ := List.append_eq_nil_iff.1 heq.symm
    exact nofun
  | cons now times ih =>
    cases mid with
    | nil => exact nofun
    | cons r₀ mid =>
      obtain ⟨rfl, htail⟩ := List.cons.inj heq
      have hsame : (record config (some u) now).windowStart = u.windowStart := by
        have hno := hresets _ List.mem_cons_self
        rcases renew_cases config h.le with ⟨v, hv, -, -, hrenew⟩ | ⟨-, hyes, -⟩
        · rw [record, hrenew, Option.some.inj hv]
        · exact absurd (hno.symm.trans hyes) (by decide)
      have hrest := ih (h.tail hwindow) htail fun r hr => hresets r (List.mem_cons_of_mem _ hr)
      rw [windowStart_afterCheck, hsame] at hrest
      intro r hr
      rcases List.mem_cons.1 hr with rfl | hr
      · exact hsame
      · exact hrest r hr

/-- A call and the calls that follow it up to the next beginning of a window. -/
lemma Steady.windowStart_eq (hwindow : 0 < config.window) (h : Steady config user times)
    {pre mid post : List Record} {r : Record}
    (heq : userRecords config user times = pre ++ r :: (mid ++ post))
    (hresets : ∀ r' ∈ mid, r'.resets = false) :
    ∀ r' ∈ r :: mid, r'.windowStart = r.windowStart := by
  induction times generalizing user pre with
  | nil => simp [userRecords] at heq
  | cons now times ih =>
    rw [userRecords] at heq
    cases pre with
    | nil =>
      obtain ⟨rfl, htail⟩ := List.cons.inj heq
      have hrest := (h.tail hwindow).windowStart_of_not_resets hwindow htail hresets
      rw [windowStart_afterCheck] at hrest
      intro r' hr'
      rcases List.mem_cons.1 hr' with rfl | hr'
      · rfl
      · exact hrest r' hr'
    | cons r₀ pre => exact ih (h.tail hwindow) (List.cons.inj heq).2

/-- In a window, as many calls are let through as the limit. -/
lemma Steady.countP_counts (hwindow : 0 < config.window) (h : Steady config none times) (s : ℕ) :
    (userRecords config none times).countP (Record.counts s) ≤ config.maxRequests.toNat :=
  h.countP_counts_le hwindow nofun

/-- Between two beginnings of a window. -/
lemma Steady.countP_allowed_le (hwindow : 0 < config.window) (h : Steady config none times)
    {pre mid post : List Record} {r : Record}
    (heq : userRecords config none times = pre ++ r :: (mid ++ post))
    (hresets : ∀ r' ∈ mid, r'.resets = false) :
    (r :: mid).countP Record.allowed ≤ config.maxRequests.toNat := by
  have hstart := h.windowStart_eq hwindow heq hresets
  calc (r :: mid).countP Record.allowed
      ≤ (r :: mid).countP (Record.counts r.windowStart) :=
        List.countP_mono_left fun r' hr' hallowed => by
          simp [Record.counts, hallowed, hstart r' hr']
    _ ≤ (userRecords config none times).countP (Record.counts r.windowStart) := by
        rw [heq, List.countP_append, ← List.cons_append, List.countP_append]
        omega
    _ ≤ config.maxRequests.toNat := h.countP_counts hwindow _

/-- In an interval that is not longer than a window. -/
lemma Steady.countP_interval_le (hwindow : 0 < config.window) (h : Steady config none times)
    {a b : ℕ} (hab : b ≤ a + config.window) :
    (userRecords config none times).countP (fun r => r.allowed ∧ a ≤ r.now ∧ r.now ≤ b) ≤
      2 * config.maxRequests.toNat := by
  have hspaced := (h.spaced hwindow).filter Record.allowed
  have hle := hspaced.countP_interval_le (k := config.maxRequests.toNat) (fun s => ?_) hab
  · rw [List.countP_filter] at hle
    refine Nat.le_trans (List.countP_mono_left fun r _ hr => ?_) hle
    simp only [decide_eq_true_eq] at hr
    simp [hr.1, hr.2]
  · rw [List.countP_filter]
    refine Nat.le_trans (List.countP_mono_left fun r _ hr => ?_) (h.countP_counts hwindow s)
    simp only [Bool.and_eq_true, decide_eq_true_eq] at hr
    simp [Record.counts, hr.1, hr.2]

/-- The calls before one that is denied. -/
lemma Steady.le_countP_of_denied (hwindow : 0 < config.window) (h : Steady config none times)
    {pre post : List Record} {r : Record}
    (heq : userRecords config none times = pre ++ r :: post) (hdenied : r.allowed = false) :
    config.maxRequests.toNat ≤
      pre.countP fun r' => r'.allowed ∧ r.now < r'.now + config.window := by
  have hspaced := h.spaced hwindow
  have hlt := hspaced.lt_end r (by rw [heq]; simp)
  refine Nat.le_trans (h.of_denied hwindow heq hdenied) (List.countP_mono_left fun r' hr' hr => ?_)
  have hle := hspaced.start_le r' (by rw [heq]; simp [hr'])
  simp only [Record.counts, Bool.and_eq_true, decide_eq_true_eq] at hr
  simp only [decide_eq_true_eq]
  exact ⟨hr.1, by omega⟩

end Calls

/-! ### All calls -/

lemma fst_of_mem_records {l : RateLimiter} {calls : List Check} {x : Bytes × Record}
    (h : x ∈ records l calls) : ∃ now, (x.1, now) ∈ calls := by
  induction calls generalizing l with
  | nil => cases h
  | cons c calls ih =>
    obtain ⟨c, now⟩ := c
    rcases List.mem_cons.1 h with rfl | h
    · exact ⟨now, List.mem_cons_self⟩
    · obtain ⟨now', hmem⟩ := ih h
      exact ⟨now', List.mem_cons_of_mem _ hmem⟩

/-- The calls of the others change nothing. -/
lemma ofClient_records_filter (config : RateLimitConfig) (calls : List Check) (client : Bytes) :
    ofClient client (records (new config) calls) =
      (records (new config) (calls.filter fun c => c.1 == client)).map Prod.snd := by
  have hown : ofClient client (records (new config) (calls.filter fun c => c.1 == client)) =
      (records (new config) (calls.filter fun c => c.1 == client)).map Prod.snd := by
    rw [ofClient, List.filter_eq_self.2]
    intro x hx
    obtain ⟨now, hmem⟩ := fst_of_mem_records hx
    exact (List.mem_filter.1 hmem).2
  have htimes : ofClient client (calls.filter fun c => c.1 == client) = ofClient client calls := by
    rw [ofClient, List.filter_filter, ofClient]
    simp
  rw [← hown, (ofClient_records _ _ _).1, (ofClient_records _ _ _).1, htimes]

lemma steady_new (config : RateLimitConfig) {calls : List Check}
    (hsorted : calls.Pairwise fun c c' => c.2 ≤ c'.2) (client : Bytes) :
    Steady config none (ofClient client calls) :=
  ⟨List.pairwise_map.2 (hsorted.filter _), nofun, nofun⟩

end Racfs.Server
