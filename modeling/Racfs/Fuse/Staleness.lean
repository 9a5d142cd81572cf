/-
# The age of attributes and listings

Any number of operations of the FUSE client that need metadata (`lookup_async`, `getattr_async`)
or a listing (`readdir_async`) run interleaved (`racfs-fuse/src/async_fs.rs`), while operations
that change something drop what is cached.  The server at the other end is the one of
`StatExpiry`: its filesystem changes at any time, and its stat endpoint has a cache of its own.

An operation looks into the cache, calls the server, and puts the answer into the cache.  When the
server is not reached, a cached value would do although it has expired.  The look-up has removed
the value, so it can only be one that another operation has put there since.

What an operation has was true on the server at most so long before the operation started
(`replies_recent`): the time to live in the client and the longest duration of an operation, and
for metadata the same once more for the server.
-/
import Racfs.Fuse.AsyncFs
import Racfs.Server.StatExpiry

namespace Racfs.Fuse.Staleness

open Server Vfs Expiring

/-! ### The two tables of the cache -/

/-- What the server is asked for. -/
inductive Ask
  | stat
  | readDir

/-- What it answers. -/
inductive Reply
  | metadata (metadata : MetadataResponse)
  | listing (list : List DirectoryEntry)

/-- What was asked for. -/
def Reply.ask : Reply → Ask
  | metadata _ => .stat
  | listing _ => .readDir

/-- The cache of the client. -/
abbrev Cache := FuseCache MetadataResponse (List DirectoryEntry)

/-- `get_stat` and `get_readdir`. -/
def get (c : Cache) (path : PathBuf) (now : DateTime) : Ask → Option Reply × Cache
  | .stat => ((c.getStat path now).1.map .metadata, (c.getStat path now).2)
  | .readDir => ((c.getReaddir path now).1.map .listing, (c.getReaddir path now).2)

/-- `get_stat_stale` and `get_readdir_stale`. -/
def getStale (c : Cache) (path : PathBuf) : Ask → Option Reply
  | .stat => (c.getStatStale path).map .metadata
  | .readDir => (c.getReaddirStale path).map .listing

/-- `put_stat` and `put_readdir`. -/
def put (c : Cache) (path : PathBuf) (expiresAt : DateTime) : Reply → Cache
  | .metadata metadata => c.putStat path metadata expiresAt
  | .listing list => c.putReaddir path list expiresAt

/-- What is cached, with the time at which it expires. -/
def entry (c : Cache) (k : Ask × PathBuf) : Option (Reply × ℤ) :=
  match k.1 with
  | .stat => (c.statCache.get? k.2).map fun e => (.metadata e.value, e.expiresAt)
  | .readDir => (c.readdirCache.get? k.2).map fun e => (.listing e.value, e.expiresAt)

lemma getStale_eq (c : Cache) (path : PathBuf) (ask : Ask) :
    getStale c path ask = (entry c (ask, path)).map Prod.fst := by
  cases ask with
  | stat =>
    rw [getStale, entry, FuseCache.getStatStale, Option.map_map, Option.map_map]
    rfl
  | readDir =>
    rw [getStale, entry, FuseCache.getReaddirStale, Option.map_map, Option.map_map]
    rfl

/-- A reply that has not expired is found as it is; otherwise there is none afterwards. -/
lemma get_cases (c : Cache) (path : PathBuf) (now : DateTime) (ask : Ask) :
    (∃ reply expires, entry c (ask, path) = some (reply, expires) ∧ now < expires ∧
      get c path now ask = (some reply, c)) ∨
    ((get c path now ask).1 = none ∧ entry (get c path now ask).2 (ask, path) = none ∧
      ∀ k e, entry (get c path now ask).2 k = some e → entry c k = some e) := by
  cases ask with
  | stat =>
    rcases c.getStat_cases path now with ⟨e, hget, hvalid, heq⟩ | ⟨-, hnone, hgone, hless⟩
    · refine Or.inl ⟨.metadata e.value, e.expiresAt, ?_, of_decide_eq_true hvalid, ?_⟩
      · rw [entry, hget]
        rfl
      · rw [get, heq]
        rfl
    · refine Or.inr ⟨by rw [get, hnone]; rfl, by rw [get, entry, hgone]; rfl, ?_⟩
      rintro ⟨_ | _, q⟩ e he
      · obtain ⟨e', he', rfl⟩ := Option.map_eq_some_iff.1 he
        exact Option.map_eq_some_iff.2 ⟨e', hless q e' he', rfl⟩
      · exact he
  | readDir =>
    rcases getValid_cases c.readdirCache path now with
      ⟨e, hget, hvalid, heq⟩ | ⟨-, hnone, hgone, hless⟩
    · refine Or.inl ⟨.listing e.value, e.expiresAt, ?_, of_decide_eq_true hvalid, ?_⟩
      · rw [entry, hget]
        rfl
      · rw [get, FuseCache.getReaddir, heq]
        rfl
    · refine Or.inr ⟨?_, ?_, ?_⟩
      · rw [get, FuseCache.getReaddir, hnone]
        rfl
      · rw [get, entry, FuseCache.getReaddir, hgone]
        rfl
      rintro ⟨_ | _, q⟩ e he
      · exact he
      · obtain ⟨e', he', rfl⟩ := Option.map_eq_some_iff.1 he
        exact Option.map_eq_some_iff.2 ⟨e', hless q e' he', rfl⟩

/-- What is cached after a reply has been put there. -/
lemma entry_put (c : Cache) (path : PathBuf) (expiresAt : DateTime) (reply : Reply)
    (k : Ask × PathBuf) {e : Reply × ℤ} (h : entry (put c path expiresAt reply) k = some e) :
    entry c k = some e ∨
      k.1 = reply.ask ∧ (path == k.2) = true ∧ e = (reply, expiresAt) := by
  obtain ⟨ask, q⟩ := k
  cases reply with
  | metadata metadata =>
    cases ask with
    | stat =>
      simp only [put, entry, FuseCache.putStat, AssocMap.get?_insert] at h
      split_ifs at h with heq
      · exact Or.inr ⟨rfl, heq, (Option.some.inj h).symm⟩
      · exact Or.inl h
    | readDir => exact Or.inl h
  | listing list =>
    cases ask with
    | stat => exact Or.inl h
    | readDir =>
      simp only [put, entry, FuseCache.putReaddir, AssocMap.get?_insert] at h
      split_ifs at h with heq
      · exact Or.inr ⟨rfl, heq, (Option.some.inj h).symm⟩
      · exact Or.inl h

lemma entry_invalidate {c : Cache} {path : PathBuf} {k : Ask × PathBuf} {e : Reply × ℤ}
    (h : entry (c.invalidate path) k = some e) : entry c k = some e := by
  obtain ⟨_ | _, q⟩ := k
  · obtain ⟨e', he', rfl⟩ := Option.map_eq_some_iff.1 h
    exact Option.map_eq_some_iff.2 ⟨e', AssocMap.get?_of_get?_erase he', rfl⟩
  · obtain ⟨e', he', rfl⟩ := Option.map_eq_some_iff.1 h
    exact Option.map_eq_some_iff.2 ⟨e', FuseCache.of_getReaddir_invalidate he', rfl⟩

lemma entry_invalidateRename {c : Cache} {oldPath newPath : PathBuf} {k : Ask × PathBuf}
    {e : Reply × ℤ} (h : entry (c.invalidateRename oldPath newPath) k = some e) :
    entry c k = some e := by
  obtain ⟨_ | _, q⟩ := k
  · obtain ⟨e', he', rfl⟩ := Option.map_eq_some_iff.1 h
    exact Option.map_eq_some_iff.2 ⟨e', (FuseCache.of_getStat_invalidateRename he').2.2, rfl⟩
  · obtain ⟨e', he', rfl⟩ := Option.map_eq_some_iff.1 h
    exact Option.map_eq_some_iff.2 ⟨e', FuseCache.of_getReaddir_invalidateRename he', rfl⟩

/-! ### States -/

/-- An operation that waits, with the time at which it has started. -/
inductive Task
  /-- It has found nothing in the cache, and waits for the server. -/
  | waiting (since : DateTime) (ask : Ask) (path : PathBuf)
  | answered (since : DateTime) (path : PathBuf) (reply : Reply)

/-- What an operation has got, with the times of its start and its end. -/
structure Answer where
  path : PathBuf
  since : DateTime
  time : DateTime
  reply : Reply

/-- The server and the cache, the operations that wait, and the record of what has happened. -/
structure State (S : Type*) where
  server : StatExpiry.State S
  cache : Cache
  ttl : ℕ
  tasks : AssocMap ℕ Task
  answers : List Answer

namespace State

variable {S : Type*} (fs : FileSystem S) (format : DateTime → String) (s : State S)

/-- Nothing has happened yet. -/
def new (ttl : ℕ) (server : StatExpiry.State S) : State S := ⟨server, .new, ttl, ∅, []⟩

/-- The operation waits. -/
def await (t : ℕ) (task : Task) : State S := { s with tasks := s.tasks.insert t task }

/-- The operation has ended. -/
def finish (t : ℕ) : State S := { s with tasks := s.tasks.erase t }

/-- An operation has what it needs. -/
def answer (path : PathBuf) (since : DateTime) (reply : Reply) : State S :=
  { s with answers := ⟨path, since, s.server.clock, reply⟩ :: s.answers }

/-! ### Steps -/

/-- An operation up to its call: the look-up. -/
def start (t : ℕ) (ask : Ask) (path : PathBuf) : State S :=
  let hit := get s.cache path s.server.clock ask
  let s := { s with cache := hit.2 }
  match hit.1 with
  | some reply => s.answer path s.server.clock reply
  | none => s.await t (.waiting s.server.clock ask path)

/-- The call is answered: by the end of a request to the stat endpoint that has started after the
operation, or by the listing of the directory. -/
def served (t i : ℕ) (since : DateTime) (path : PathBuf) : Ask → Option (State S)
  | .stat =>
    match s.server.answers[i]? with
    | some a =>
      if a.path.bytes = path.toStringLossy ∧ since ≤ a.since then
        some (s.await t (.answered since path (.metadata (.ofMetadata format a.metadata))))
      else none
    | none => none
  | .readDir =>
    match validatePath path.toStringLossy, fs.readDir s.server.vfs ⟨path.toStringLossy⟩ with
    | none, .ok entries =>
      some (s.await t
        (.answered since path (.listing (entries.map (DirectoryEntry.ofMetadata format)))))
    | _, _ => none

/-- The call fails.  When the server was not reached, the cache is asked again. -/
def failed (t : ℕ) (unreachable : Bool) (since : DateTime) (ask : Ask) (path : PathBuf) :
    State S :=
  match if unreachable then getStale s.cache path ask else none with
  | some reply => (s.answer path since reply).finish t
  | none => s.finish t

/-- The end of an operation that was answered: the insertion. -/
def conclude (t : ℕ) (since : DateTime) (path : PathBuf) (reply : Reply) : State S :=
  ({ s with cache := put s.cache path (s.server.clock + s.ttl) reply }.answer path since
    reply).finish t

end State

/-- What can happen.  An operation that starts gets a number that is free. -/
inductive Event (S : Type*)
  | server (e : StatExpiry.Event S)
  | start (t : ℕ) (ask : Ask) (path : PathBuf)
  /-- The call is answered; for metadata, by the `i`-th answer of the stat endpoint. -/
  | served (t i : ℕ)
  | failed (t : ℕ) (unreachable : Bool)
  | conclude (t : ℕ)
  /-- The end of an operation that has changed a path. -/
  | invalidate (path : PathBuf)
  | invalidateRename (oldPath newPath : PathBuf)

variable {S : Type*} (fs : FileSystem S) (format : DateTime → String)

/-- One step. -/
def step (s : State S) : Event S → Option (State S)
  | .server e => (StatExpiry.step fs s.server e).map fun server => { s with server := server }
  | .start t ask path => if s.tasks.contains t then none else some (s.start t ask path)
  | .served t i =>
    match s.tasks.get? t with
    | some (.waiting since ask path) => s.served fs format t i since path ask
    | _ => none
  | .failed t unreachable =>
    match s.tasks.get? t with
    | some (.waiting since ask path) => some (s.failed t unreachable since ask path)
    | _ => none
  | .conclude t =>
    match s.tasks.get? t with
    | some (.answered since path reply) => some (s.conclude t since path reply)
    | _ => none
  | .invalidate path => some { s with cache := s.cache.invalidate path }
  | .invalidateRename oldPath newPath =>
    some { s with cache := s.cache.invalidateRename oldPath newPath }

/-! ### The age of a reply -/

/-- The reply was right at the time `τ`, for a spelling of the path. -/
def Held (past : List (DateTime × S)) (path : PathBuf) (τ : DateTime) : Reply → Prop
  | .metadata metadata => ∃ m, StatExpiry.Held fs past ⟨path.toStringLossy⟩ τ m ∧
      metadata = .ofMetadata format m
  | .listing list => ∃ p vfs entries, (p == path) = true ∧ (τ, vfs) ∈ past ∧
      fs.readDir vfs ⟨p.toStringLossy⟩ = .ok entries ∧
      list = entries.map (DirectoryEntry.ofMetadata format)

/-- How old a reply may be when the server sends it. -/
def Reply.slack (age : ℕ) : Reply → ℤ
  | metadata _ => age
  | listing _ => 0

/-- No reply is from the future, nor older than `age`, and for metadata `serverAge` more, when
its operation starts. -/
def Recent (age serverAge : ℕ) (s : State S) : Prop :=
  ∀ a ∈ s.answers, ∃ τ, Held fs format s.server.past a.path τ a.reply ∧ τ ≤ a.time ∧
    a.since ≤ τ + (age + a.reply.slack serverAge)

/-- The bounds of the server are kept, and no operation takes longer than `delay` until it
inserts its reply. -/
def StepOk (longest serverDelay delay : ℕ) (s : State S) : Event S → Prop
  | .server e => StatExpiry.StepOk longest serverDelay s.server e
  | .conclude t => ∀ since path reply, s.tasks.get? t = some (.answered since path reply) →
      s.server.clock ≤ since + delay
  | _ => True

/-- What an entry of the cache may come from. -/
def Sighted (serverAge : ℕ) (server : StatExpiry.State S) (k : Ask × PathBuf) (τ : DateTime)
    (reply : Reply) : Prop :=
  reply.ask = k.1 ∧ ∃ τ', Held fs format server.past k.2 τ' reply ∧ τ' ≤ server.clock ∧
    τ ≤ τ' + reply.slack serverAge

/-- What is known of a waiting operation.  Whatever is cached for it has been put there since it
started. -/
def TaskOk (serverAge : ℕ) (s : State S) : Task → Prop
  | .waiting since ask path => since ≤ s.server.clock ∧
      ∀ reply expires, entry s.cache (ask, path) = some (reply, expires) → since + s.ttl ≤ expires
  | .answered since path reply =>
      ∃ τ, Sighted fs format serverAge s.server (reply.ask, path) τ reply ∧ since ≤ τ

/-- The invariant. -/
structure Inv (longest serverDelay ttl delay : ℕ) (s : State S) : Prop where
  ttl_eq : s.ttl = ttl
  server : StatExpiry.Inv fs longest serverDelay s.server
  recent : Recent fs format (ttl + delay) (longest + serverDelay) s
  backed : Backed (Sighted fs format (longest + serverDelay) s.server) (ttl + delay)
    (entry s.cache)
  tasks : ∀ t task, s.tasks.get? t = some task → TaskOk fs format (longest + serverDelay) s task

variable {fs format} {longest serverDelay ttl delay : ℕ} {s : State S}

lemma Held.mono {past past' : List (DateTime × S)} (hsub : past ⊆ past') {path : PathBuf}
    {τ : DateTime} {reply : Reply} (h : Held fs format past path τ reply) :
    Held fs format past' path τ reply := by
  cases reply with
  | metadata metadata =>
    obtain ⟨m, hm, heq⟩ := h
    exact ⟨m, hm.mono hsub, heq⟩
  | listing list =>
    obtain ⟨p, vfs, entries, hp, hmem, hlist⟩ := h
    exact ⟨p, vfs, entries, hp, hsub hmem, hlist⟩

lemma Held.congr {past : List (DateTime × S)} {path path' : PathBuf}
    (heq : (path == path') = true) {τ : DateTime} {reply : Reply}
    (h : Held fs format past path τ reply) : Held fs format past path' τ reply := by
  cases reply with
  | metadata metadata =>
    obtain ⟨m, hm, hmeta⟩ := h
    refine ⟨m, hm.congr ?_, hmeta⟩
    rw [PathBuf.beq_iff] at heq ⊢
    rw [PathBuf.components_toStringLossy, PathBuf.components_toStringLossy, heq]
  | listing list =>
    obtain ⟨p, vfs, entries, hp, hmem, hlist⟩ := h
    exact ⟨p, vfs, entries, BEq.trans hp heq, hmem, hlist⟩

lemma Sighted.mono {serverAge : ℕ} {server server' : StatExpiry.State S}
    (hclock : server.clock ≤ server'.clock) (hsub : server.past ⊆ server'.past)
    {k : Ask × PathBuf} {τ : DateTime} {reply : Reply}
    (h : Sighted fs format serverAge server k τ reply) :
    Sighted fs format serverAge server' k τ reply := by
  obtain ⟨hask, τ', hheld, hle, hslack⟩ := h
  exact ⟨hask, τ', hheld.mono hsub, hle.trans hclock, hslack⟩

lemma Sighted.of_ask {serverAge : ℕ} {server : StatExpiry.State S} {ask : Ask} {path : PathBuf}
    {τ : DateTime} {reply : Reply} (h : Sighted fs format serverAge server (ask, path) τ reply) :
    Sighted fs format serverAge server (reply.ask, path) τ reply :=
  ⟨rfl, h.2⟩

lemma le_add_slack {since τ τ' slack : ℤ} (hage : since ≤ τ + (ttl + delay))
    (hslack : τ ≤ τ' + slack) : since ≤ τ' + ((ttl + delay : ℕ) + slack) := by
  omega

namespace Inv

lemma new {server : StatExpiry.State S} (hserver : StatExpiry.Inv fs longest serverDelay server) :
    Inv fs format longest serverDelay ttl delay (State.new ttl server) where
  ttl_eq := rfl
  server := hserver
  recent a ha := by cases ha
  backed k v expires hk := by
    obtain ⟨_ | _, q⟩ := k
    all_goals cases hk
  tasks t task ht := by cases ht

lemma await (h : Inv fs format longest serverDelay ttl delay s) (t : ℕ) (task : Task)
    (htask : TaskOk fs format (longest + serverDelay) s task) :
    Inv fs format longest serverDelay ttl delay (s.await t task) where
  ttl_eq := h.ttl_eq
  server := h.server
  recent := h.recent
  backed := h.backed
  tasks t' task' ht' := by
    rw [State.await, AssocMap.get?_insert] at ht'
    split_ifs at ht' with heq
    · cases ht'
      cases task <;> exact htask
    · have hknown := h.tasks t' task' ht'
      cases task' <;> exact hknown

lemma finish (h : Inv fs format longest serverDelay ttl delay s) (t : ℕ) :
    Inv fs format longest serverDelay ttl delay (s.finish t) where
  ttl_eq := h.ttl_eq
  server := h.server
  recent := h.recent
  backed := h.backed
  tasks t' task' ht' := by
    have hknown := h.tasks t' task' (AssocMap.get?_of_get?_erase ht')
    cases task' <;> exact hknown

/-- A reply is sighted at the age of an operation. -/
lemma answer (h : Inv fs format longest serverDelay ttl delay s) {path : PathBuf}
    {since τ : DateTime} {reply : Reply}
    (hτ : Sighted fs format (longest + serverDelay) s.server (reply.ask, path) τ reply)
    (hage : since ≤ τ + (ttl + delay)) :
    Inv fs format longest serverDelay ttl delay (s.answer path since reply) where
  ttl_eq := h.ttl_eq
  server := h.server
  recent a ha := by
    rcases List.mem_cons.1 ha with rfl | ha
    · obtain ⟨-, τ', hheld, hle, hslack⟩ := hτ
      exact ⟨τ', hheld, hle, le_add_slack hage hslack⟩
    · exact h.recent a ha
  backed := h.backed
  tasks t task ht := by
    have hknown := h.tasks t task ht
    cases task <;> exact hknown

/-- Entries of the cache are taken out. -/
lemma drop (h : Inv fs format longest serverDelay ttl delay s) {cache : Cache}
    (hsub : ∀ k e, entry cache k = some e → entry s.cache k = some e) :
    Inv fs format longest serverDelay ttl delay { s with cache := cache } where
  ttl_eq := h.ttl_eq
  server := h.server
  recent := h.recent
  backed := h.backed.of_subset hsub
  tasks t task ht := by
    have hknown := h.tasks t task ht
    cases task with
    | waiting since ask path =>
      exact ⟨hknown.1, fun reply expires he => hknown.2 reply expires (hsub _ _ he)⟩
    | answered since path reply => exact hknown

/-- The server goes on. -/
lemma later (h : Inv fs format longest serverDelay ttl delay s) {server : StatExpiry.State S}
    (hserver : StatExpiry.Inv fs longest serverDelay server)
    (hclock : s.server.clock ≤ server.clock) (hpast : s.server.past ⊆ server.past) :
    Inv fs format longest serverDelay ttl delay { s with server := server } where
  ttl_eq := h.ttl_eq
  server := hserver
  recent a ha := by
    obtain ⟨τ, hheld, hle, hage⟩ := h.recent a ha
    exact ⟨τ, hheld.mono hpast, hle, hage⟩
  backed := h.backed.mono (fun k τ reply hk => hk.mono hclock hpast) (Int.le_refl _)
  tasks t task ht := by
    have hknown := h.tasks t task ht
    cases task with
    | waiting since ask path => exact ⟨hknown.1.trans hclock, hknown.2⟩
    | answered since path reply =>
      obtain ⟨τ, hτ, hle⟩ := hknown
      exact ⟨τ, hτ.mono hclock hpast, hle⟩

/-! ### The steps of an operation -/

lemma start (h : Inv fs format longest serverDelay ttl delay s) (t : ℕ) (ask : Ask)
    (path : PathBuf) : Inv fs format longest serverDelay ttl delay (s.start t ask path) := by
  rw [State.start]
  rcases get_cases s.cache path s.server.clock ask with
    ⟨reply, expires, hentry, hvalid, heq⟩ | ⟨hnone, hgone, hless⟩
  · rw [heq]
    obtain ⟨τ, hτ, hage⟩ := h.backed.hit hentry hvalid
    exact h.answer hτ.of_ask hage.le
  · simp only [hnone]
    refine (h.drop hless).await t _ ⟨Int.le_refl _, fun reply expires he => ?_⟩
    exact absurd (hgone.symm.trans he) (by simp)

/-- A request to the stat endpoint that has started after the operation answers with what was
right then, or was in the cache of the server. -/
lemma served {s' : State S} (h : Inv fs format longest serverDelay ttl delay s) {t i : ℕ}
    {since : DateTime} {ask : Ask} {path : PathBuf} (hsince : since ≤ s.server.clock)
    (hs' : s.served fs format t i since path ask = some s') :
    Inv fs format longest serverDelay ttl delay s' := by
  cases ask with
  | stat =>
    rw [State.served] at hs'
    cases ha : s.server.answers[i]? with
    | none =>
      rw [ha] at hs'
      cases hs'
    | some a =>
      rw [ha] at hs'
      obtain ⟨⟨hpath, hafter⟩, hs'⟩ := Option.ite_none_right_eq_some.1 hs'
      have hmem := List.mem_of_getElem? ha
      obtain ⟨τ, hheld, hle, hage⟩ := h.server.recent a hmem
      have hspelled : a.path = ⟨path.toStringLossy⟩ := congrArg PathBuf.mk hpath
      rw [hspelled] at hheld
      rw [← Option.some.inj hs']
      exact h.await t _ ⟨a.since, ⟨rfl, τ, ⟨a.metadata, hheld, rfl⟩,
        hle.trans (h.server.ended a hmem), hage⟩, hafter⟩
  | readDir =>
    rw [State.served] at hs'
    split at hs'
    · next entries hvalid hlist =>
      rw [← Option.some.inj hs']
      exact h.await t _ ⟨s.server.clock, ⟨rfl, s.server.clock,
        ⟨path, s.server.vfs, entries, BEq.rfl, h.server.present, hlist, rfl⟩, Int.le_refl _,
        Int.le_add_of_nonneg_right (Int.le_refl _)⟩, hsince⟩
    · cases hs'

/-- What is found after a failed call has been put there since the operation started. -/
lemma failed (h : Inv fs format longest serverDelay ttl delay s) (t : ℕ) (unreachable : Bool)
    {since : DateTime} {ask : Ask} {path : PathBuf}
    (hwaits : TaskOk fs format (longest + serverDelay) s (.waiting since ask path)) :
    Inv fs format longest serverDelay ttl delay (s.failed t unreachable since ask path) := by
  rw [State.failed]
  split
  · next reply hstale =>
    have hfound : getStale s.cache path ask = some reply := by
      rw [← hstale]
      split_ifs at hstale ⊢
      rfl
    rw [getStale_eq] at hfound
    obtain ⟨⟨_, expires⟩, hentry, rfl⟩ := Option.map_eq_some_iff.1 hfound
    have hmade := hwaits.2 _ expires hentry
    rw [h.ttl_eq] at hmade
    obtain ⟨τ, hτ, hage⟩ := h.backed.hit_of_le hentry hmade
    refine (h.answer hτ.of_ask ?_).finish t
    exact hage.trans (Int.add_le_add_left (Int.le_add_of_nonneg_left (Int.natCast_nonneg ttl)) τ)
  · exact h.finish t

/-- What is inserted was sighted after the operation had started, and this is at most `delay`
ago. -/
lemma conclude (h : Inv fs format longest serverDelay ttl delay s) (t : ℕ) {since : DateTime}
    {path : PathBuf} {reply : Reply}
    (hknown : TaskOk fs format (longest + serverDelay) s (.answered since path reply))
    (hdelay : s.server.clock ≤ since + delay) :
    Inv fs format longest serverDelay ttl delay (s.conclude t since path reply) := by
  obtain ⟨τ, hτ, hsince⟩ := hknown
  have hput : Inv fs format longest serverDelay ttl delay
      { s with cache := put s.cache path (s.server.clock + s.ttl) reply } := by
    refine ⟨h.ttl_eq, h.server, h.recent, ?_, fun t' task ht' => ?_⟩
    · refine @Backed.put _ _ _ _ _ _ h.backed s.server.clock ttl delay (Int.le_refl _) ?_
      intro k v expires hk
      rcases entry_put _ _ _ _ _ hk with hk | ⟨hask, heq, hv⟩
      · exact Or.inl hk
      · cases hv
        obtain ⟨-, τ', hheld, hle, hslack⟩ := hτ
        refine Or.inr ⟨by rw [h.ttl_eq], τ, ⟨hask.symm, τ', hheld.congr heq, hle, hslack⟩, ?_⟩
        exact hdelay.trans (Int.add_le_add_right hsince _)
    · have hother := h.tasks t' task ht'
      cases task with
      | waiting since' ask path' =>
        refine ⟨hother.1, fun reply' expires he => ?_⟩
        rcases entry_put _ _ _ _ _ he with he | ⟨-, -, hv⟩
        · exact hother.2 reply' expires he
        · cases hv
          exact Int.add_le_add_right hother.1 _
      | answered since' path' reply' => exact hother
  refine (hput.answer hτ ?_).finish t
  exact hsince.trans (StatExpiry.le_add_natCast τ ttl delay)

end Inv

/-! ### Runs -/

lemma inv_step {s' : State S} {e : Event S} (h : Inv fs format longest serverDelay ttl delay s)
    (hok : StepOk longest serverDelay delay s e) (hs' : step fs format s e = some s') :
    Inv fs format longest serverDelay ttl delay s' := by
  cases e with
  | server e =>
    obtain ⟨server, hserver, rfl⟩ := Option.map_eq_some_iff.1 hs'
    obtain ⟨hclock, hpast⟩ := StatExpiry.step_later hserver
    exact h.later (StatExpiry.inv_step h.server hok hserver) hclock hpast
  | start t ask path =>
    obtain ⟨-, hs'⟩ := Option.ite_none_left_eq_some.1 hs'
    rw [← Option.some.inj hs']
    exact h.start t ask path
  | served t i =>
    rw [step] at hs'
    split at hs'
    · next since ask path htask => exact h.served (h.tasks t _ htask).1 hs'
    · cases hs'
  | failed t unreachable =>
    rw [step] at hs'
    split at hs'
    · next since ask path htask =>
      rw [← Option.some.inj hs']
      exact h.failed t unreachable (h.tasks t _ htask)
    · cases hs'
  | conclude t =>
    rw [step] at hs'
    split at hs'
    · next since path reply htask =>
      rw [← Option.some.inj hs']
      exact h.conclude t (h.tasks t _ htask) (hok since path reply htask)
    · cases hs'
  | invalidate path =>
    cases hs'
    exact h.drop fun k e hk => entry_invalidate hk
  | invalidateRename oldPath newPath =>
    cases hs'
    exact h.drop fun k e hk => entry_invalidateRename hk

/-- **Bounded staleness of the client.**  However the operations, the requests at the server and
the changes of its filesystem interleave, and whichever calls fail: what an operation has got was
right on the server, at most the age of an entry of the client, and for metadata of an entry of
the server too, before the operation started. -/
theorem replies_recent (fs : FileSystem S) (format : DateTime → String)
    {longest : ℕ} {serverTtl : ℤ} (hserverTtl : serverTtl ≤ longest) (serverDelay ttl delay : ℕ)
    (vfs : S) (now : DateTime) (evs : List (Event S))
    (hok : StepsMeet (step fs format) (StepOk longest serverDelay delay)
      (State.new ttl (.new serverTtl vfs now)) evs) :
    StatesMeet (step fs format) (Recent fs format (ttl + delay) (longest + serverDelay))
      (State.new ttl (.new serverTtl vfs now)) evs :=
  (statesMeet_of_stepsMeet (fun _ _ _ h hok hs' => inv_step h hok hs')
    (Inv.new (StatExpiry.inv_new hserverTtl vfs now)) hok).imp fun _ h => h.recent

/-- A look-up is answered with metadata that the server has had from before a write, and another
one finds it in the cache. -/
def lookups : List (Event MemFs.MemFS) :=
  [.start 0 .stat ⟨ascii "/f"⟩, .server (.stat 0 (ascii "/f")), .server (.resume 0),
    .server (.change StatExpiry.oneByte), .server (.pass 1), .server (.resume 0), .served 0 0,
    .conclude 0, .start 1 .stat ⟨ascii "/f"⟩]

theorem replies_recent_lookups :
    (∃ s, run (step memFileSystem fun _ => "")
        (State.new 1 (.new 2 StatExpiry.emptyFile 0)) lookups = some s ∧
      s.answers.map (fun a => (a.since, a.time)) = [(1, 1), (0, 1)]) ∧
    StatesMeet (step memFileSystem fun _ => "") (Recent memFileSystem (fun _ => "") (1 + 1) (2 + 1))
      (State.new 1 (.new 2 StatExpiry.emptyFile 0)) lookups := by
  refine ⟨⟨_, rfl, rfl⟩,
    @replies_recent _ memFileSystem (fun _ => "") 2 2 (by decide) 1 1 1 _ 0 _ ?_⟩
  refine stepsMeet_cons rfl trivial (stepsMeet_cons rfl trivial (stepsMeet_cons rfl ?_
    (stepsMeet_cons rfl trivial (stepsMeet_cons rfl trivial (stepsMeet_cons rfl ?_
      (stepsMeet_cons rfl trivial (stepsMeet_cons rfl ?_ (stepsMeet_cons rfl trivial trivial))))))))
  · intro since path ttl metadata h
    cases h
  · intro since path ttl metadata h
    cases h
    decide
  · intro since path reply h
    cases h
    decide

end Racfs.Fuse.Staleness
