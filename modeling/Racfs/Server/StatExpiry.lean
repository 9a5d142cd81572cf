/-
# The age of what the stat endpoint answers

Any number of requests to the stat endpoint run interleaved, while the filesystem changes at any
time and in any way, through the server or not, cached metadata is dropped, and the time to live
is reloaded (`racfs-server/src/stat_cache.rs`).  A step of a request is its part between two await
points.  Time passes between the steps.

A request that has waited for the filesystem may put metadata into the cache that is out of date
by then (`StatRaces`).  It does not stay: what a request is answered was true at most the time
to live and the duration of one request before it started (`answers_recent`).
-/
import Racfs.Lib.Expiring
import Racfs.Lib.Run
import Racfs.Server.Api
import Racfs.Vfs.CachedFs

namespace Racfs.Server

/-- What is cached after an invalidation was cached before. -/
lemma StatCache.of_get?_invalidate {c : StatCache} {path k : PathBuf} {e : FileMetadata × DateTime}
    (h : (c.invalidate path).entries.get? k = some e) : c.entries.get? k = some e := by
  rw [invalidate] at h
  cases hparent : path.parent with
  | none =>
    rw [hparent] at h
    exact AssocMap.get?_of_get?_erase h
  | some parent =>
    rw [hparent] at h
    exact AssocMap.get?_of_get?_erase (AssocMap.get?_of_get?_erase h)

namespace StatExpiry

open Vfs Expiring

/-! ### States -/

/-- A request that waits, with the time at which it has started and the time to live that it has
read then. -/
inductive Task
  /-- It has found nothing in the cache. -/
  | missed (since : DateTime) (path : PathBuf) (ttl : ℤ)
  /-- It has the metadata. -/
  | fetched (since : DateTime) (path : PathBuf) (ttl : ℤ) (metadata : FileMetadata)

/-- A request that has been answered, with the times of its start and its end. -/
structure Answer where
  path : PathBuf
  since : DateTime
  time : DateTime
  metadata : FileMetadata

/-- The filesystem, the cache and the time, the waiting requests, and the record of what has
happened. -/
structure State (S : Type*) where
  vfs : S
  cache : StatCache
  clock : DateTime
  tasks : AssocMap ℕ Task
  /-- Every state that the filesystem has been in, with the time. -/
  past : List (DateTime × S)
  answers : List Answer

namespace State

variable {S : Type*} (fs : FileSystem S) (s : State S)

/-- Nothing has happened yet. -/
def new (ttl : ℤ) (vfs : S) (now : DateTime) : State S :=
  ⟨vfs, ⟨∅, ttl⟩, now, ∅, [(now, vfs)], []⟩

/-- The request waits. -/
def await (t : ℕ) (task : Task) : State S := { s with tasks := s.tasks.insert t task }

/-- The request has ended. -/
def finish (t : ℕ) : State S := { s with tasks := s.tasks.erase t }

/-- A request is answered. -/
def answer (path : PathBuf) (since : DateTime) (metadata : FileMetadata) : State S :=
  { s with answers := ⟨path, since, s.clock, metadata⟩ :: s.answers }

/-- The present state of the filesystem is recorded. -/
def record : State S := { s with past := (s.clock, s.vfs) :: s.past }

/-! ### Steps -/

/-- The beginning of `get_or_fetch`: the look-up.  Metadata that has expired is removed. -/
def lookup (t : ℕ) (path : PathBuf) : State S :=
  match s.cache.entries.get? path with
  | some (metadata, expires) =>
    if s.clock < expires then s.answer path s.clock metadata
    else
      { s with cache := { s.cache with entries := s.cache.entries.erase path } }.await t
        (.missed s.clock path s.cache.ttl)
  | none => s.await t (.missed s.clock path s.cache.ttl)

/-- The stat endpoint up to its first await point. -/
def stat (t : ℕ) (path : Bytes) : State S :=
  match validatePath path with
  | some _ => s
  | none => s.lookup t ⟨path⟩

/-- The filesystem answers a request.  After a failure the request ends. -/
def fetch (t : ℕ) (since : DateTime) (path : PathBuf) (ttl : ℤ) : State S :=
  match fs.stat s.vfs path with
  | .ok metadata => s.await t (.fetched since path ttl metadata)
  | _ => s.finish t

/-- The end of `get_or_fetch`: the insertion. -/
def insert (t : ℕ) (since : DateTime) (path : PathBuf) (ttl : ℤ) (metadata : FileMetadata) :
    State S :=
  ({ s with
    cache := { s.cache with
      entries := s.cache.entries.insert path (metadata, s.clock + ttl) } }.answer path since
        metadata).finish t

/-- A waiting request goes on. -/
def resume (t : ℕ) : Task → State S
  | .missed since path ttl => s.fetch fs t since path ttl
  | .fetched since path ttl metadata => s.insert t since path ttl metadata

end State

/-- What can happen.  A request that starts gets a number that is free. -/
inductive Event (S : Type*)
  | pass (d : ℕ)
  | stat (t : ℕ) (path : Bytes)
  | resume (t : ℕ)
  /-- The filesystem has another state. -/
  | change (vfs : S)
  /-- The end of a request that has changed a path. -/
  | invalidate (path : PathBuf)
  | invalidateRename (oldPath newPath : PathBuf)
  /-- The configuration is reloaded. -/
  | setTtl (ttl : ℤ)

variable {S : Type*} (fs : FileSystem S)

/-- One step, without the record. -/
def next (s : State S) : Event S → Option (State S)
  | .pass d => some { s with clock := s.clock + d }
  | .stat t path => if s.tasks.contains t then none else some (s.stat t path)
  | .resume t => (s.tasks.get? t).map (s.resume fs t)
  | .change vfs => some { s with vfs := vfs }
  | .invalidate path => some { s with cache := s.cache.invalidate path }
  | .invalidateRename oldPath newPath =>
    some { s with cache := s.cache.invalidateRename oldPath newPath }
  | .setTtl ttl => some { s with cache := { s.cache with ttl := ttl } }

/-- One step. -/
def step (s : State S) (e : Event S) : Option (State S) := (next fs s e).map State.record

/-! ### The age of an answer -/

/-- The filesystem had the metadata for a spelling of the path at the time `τ`. -/
def Held (past : List (DateTime × S)) (path : PathBuf) (τ : DateTime) (metadata : FileMetadata) :
    Prop :=
  ∃ p vfs, (p == path) = true ∧ (τ, vfs) ∈ past ∧ fs.stat vfs p = .ok metadata

/-- No answer is from the future, nor older than `age` when its request starts. -/
def Recent (age : ℤ) (s : State S) : Prop :=
  ∀ a ∈ s.answers, ∃ τ, Held fs s.past a.path τ a.metadata ∧ τ ≤ a.time ∧ a.since ≤ τ + age

/-- The time to live is at most `longest`, and no request takes longer than `delay` until it
inserts its metadata. -/
def StepOk (longest delay : ℕ) (s : State S) : Event S → Prop
  | .setTtl ttl => ttl ≤ longest
  | .resume t => ∀ since path ttl metadata,
      s.tasks.get? t = some (.fetched since path ttl metadata) → s.clock ≤ since + delay
  | _ => True

/-- What is known of a waiting request. -/
def TaskOk (longest : ℕ) (s : State S) : Task → Prop
  | .missed since _ ttl => since ≤ s.clock ∧ ttl ≤ longest
  | .fetched since path ttl metadata => ttl ≤ longest ∧
      ∃ τ, Held fs s.past path τ metadata ∧ since ≤ τ ∧ τ ≤ s.clock

/-- What an entry of the cache may come from. -/
def Sighted (s : State S) (path : PathBuf) (τ : DateTime) (metadata : FileMetadata) : Prop :=
  Held fs s.past path τ metadata ∧ τ ≤ s.clock

/-- The invariant, but for the present state of the filesystem. -/
structure Kept (longest delay : ℕ) (s : State S) : Prop where
  recent : Recent fs (longest + delay) s
  ended : ∀ a ∈ s.answers, a.time ≤ s.clock
  ttl_le : s.cache.ttl ≤ longest
  backed : Backed (Sighted fs s) (longest + delay) s.cache.entries.get?
  tasks : ∀ t task, s.tasks.get? t = some task → TaskOk fs longest s task

/-- The invariant. -/
structure Inv (longest delay : ℕ) (s : State S) : Prop extends Kept fs longest delay s where
  present : (s.clock, s.vfs) ∈ s.past

variable {fs} {longest delay : ℕ} {s : State S}

lemma Held.mono {past past' : List (DateTime × S)} (hsub : past ⊆ past') {path : PathBuf}
    {τ : DateTime} {metadata : FileMetadata} (h : Held fs past path τ metadata) :
    Held fs past' path τ metadata := by
  obtain ⟨p, vfs, hp, hmem, hstat⟩ := h
  exact ⟨p, vfs, hp, hsub hmem, hstat⟩

/-- What was had for one spelling of a path was had for the other ones. -/
lemma Held.congr {past : List (DateTime × S)} {path path' : PathBuf} (heq : (path == path') = true)
    {τ : DateTime} {metadata : FileMetadata} (h : Held fs past path τ metadata) :
    Held fs past path' τ metadata := by
  obtain ⟨p, vfs, hp, hmem, hstat⟩ := h
  exact ⟨p, vfs, BEq.trans hp heq, hmem, hstat⟩

lemma le_add_natCast (τ : ℤ) (m n : ℕ) : τ ≤ τ + (m + n) := by
  omega

namespace Kept

lemma new (httl : s.cache.ttl ≤ longest) (hcache : s.cache.entries = ∅) (htasks : s.tasks = ∅)
    (hanswers : s.answers = []) : Kept fs longest delay s where
  recent a ha := by
    rw [hanswers] at ha
    cases ha
  ended a ha := by
    rw [hanswers] at ha
    cases ha
  ttl_le := httl
  backed k v expires hk := by
    rw [hcache] at hk
    cases hk
  tasks t task ht := by
    rw [htasks] at ht
    cases ht

lemma await (h : Kept fs longest delay s) (t : ℕ) (task : Task) (htask : TaskOk fs longest s task) :
    Kept fs longest delay (s.await t task) where
  recent := h.recent
  ended := h.ended
  ttl_le := h.ttl_le
  backed := h.backed
  tasks t' task' ht' := by
    rw [State.await, AssocMap.get?_insert] at ht'
    split_ifs at ht' with heq
    · cases ht'
      cases task <;> exact htask
    · have hknown := h.tasks t' task' ht'
      cases task' <;> exact hknown

lemma finish (h : Kept fs longest delay s) (t : ℕ) : Kept fs longest delay (s.finish t) where
  recent := h.recent
  ended := h.ended
  ttl_le := h.ttl_le
  backed := h.backed
  tasks t' task' ht' := by
    have hknown := h.tasks t' task' (AssocMap.get?_of_get?_erase ht')
    cases task' <;> exact hknown

lemma answer (h : Kept fs longest delay s) {path : PathBuf} {since : DateTime}
    {metadata : FileMetadata}
    (hheld : ∃ τ, Sighted fs s path τ metadata ∧ since ≤ τ + (longest + delay)) :
    Kept fs longest delay (s.answer path since metadata) where
  recent a ha := by
    rcases List.mem_cons.1 ha with rfl | ha
    · obtain ⟨τ, ⟨hheld, hle⟩, hage⟩ := hheld
      exact ⟨τ, hheld, hle, hage⟩
    · exact h.recent a ha
  ended a ha := by
    rcases List.mem_cons.1 ha with rfl | ha
    · exact Int.le_refl _
    · exact h.ended a ha
  ttl_le := h.ttl_le
  backed := h.backed
  tasks t task ht := by
    have hknown := h.tasks t task ht
    cases task <;> exact hknown

/-- Entries of the cache are taken out. -/
lemma drop (h : Kept fs longest delay s) {cache : StatCache} (httl : cache.ttl ≤ longest)
    (hsub : ∀ k e, cache.entries.get? k = some e → s.cache.entries.get? k = some e) :
    Kept fs longest delay { s with cache := cache } where
  recent := h.recent
  ended := h.ended
  ttl_le := httl
  backed := h.backed.of_subset hsub
  tasks t task ht := by
    have hknown := h.tasks t task ht
    cases task <;> exact hknown

/-- The time goes on, and the filesystem changes. -/
lemma later (h : Kept fs longest delay s) {vfs : S} {clock : DateTime}
    {past : List (DateTime × S)} (hclock : s.clock ≤ clock) (hpast : s.past ⊆ past) :
    Kept fs longest delay { s with vfs := vfs, clock := clock, past := past } where
  recent a ha := by
    obtain ⟨τ, hheld, hle, hage⟩ := h.recent a ha
    exact ⟨τ, hheld.mono hpast, hle, hage⟩
  ended a ha := (h.ended a ha).trans hclock
  ttl_le := h.ttl_le
  backed := h.backed.mono (fun k τ v hk => ⟨hk.1.mono hpast, hk.2.trans hclock⟩) le_rfl
  tasks t task ht := by
    have hknown := h.tasks t task ht
    cases task with
    | missed since path ttl => exact ⟨hknown.1.trans hclock, hknown.2⟩
    | fetched since path ttl metadata =>
      obtain ⟨httl, τ, hheld, hsince, hle⟩ := hknown
      exact ⟨httl, τ, hheld.mono hpast, hsince, hle.trans hclock⟩

/-! ### The steps of a request -/

lemma lookup (h : Kept fs longest delay s) (t : ℕ) (path : PathBuf) :
    Kept fs longest delay (s.lookup t path) := by
  have hmissed : TaskOk fs longest s (.missed s.clock path s.cache.ttl) := ⟨le_rfl, h.ttl_le⟩
  rw [State.lookup]
  cases hget : s.cache.entries.get? path with
  | none => exact h.await t _ hmissed
  | some e =>
    obtain ⟨metadata, expires⟩ := e
    simp only
    split_ifs with hvalid
    · obtain ⟨τ, hτ, hage⟩ := h.backed.hit hget hvalid
      exact h.answer ⟨τ, hτ, hage.le⟩
    · have hgone := @Kept.drop _ _ _ _ _ h
        { s.cache with entries := s.cache.entries.erase path } h.ttl_le
        fun k e hk => AssocMap.get?_of_get?_erase hk
      exact hgone.await t _ hmissed

lemma stat (h : Kept fs longest delay s) (t : ℕ) (path : Bytes) :
    Kept fs longest delay (s.stat t path) := by
  rw [State.stat]
  cases validatePath path with
  | none => exact h.lookup t ⟨path⟩
  | some e => exact h

lemma fetch (h : Kept fs longest delay s) (hpresent : (s.clock, s.vfs) ∈ s.past) (t : ℕ)
    {since : DateTime} {path : PathBuf} {ttl : ℤ}
    (hmissed : TaskOk fs longest s (.missed since path ttl)) :
    Kept fs longest delay (s.fetch fs t since path ttl) := by
  obtain ⟨hsince, httl⟩ := hmissed
  rw [State.fetch]
  cases hstat : fs.stat s.vfs path with
  | ok metadata =>
    refine h.await t _ ⟨httl, s.clock, ⟨path, s.vfs, BEq.rfl, hpresent, hstat⟩, hsince, le_rfl⟩
  | err e => exact h.finish t
  | panic => exact h.finish t

/-- What is inserted was had after the request had started, and this is at most `delay` ago. -/
lemma insert (h : Kept fs longest delay s) (t : ℕ) {since : DateTime} {path : PathBuf} {ttl : ℤ}
    {metadata : FileMetadata} (hfetched : TaskOk fs longest s (.fetched since path ttl metadata))
    (hdelay : s.clock ≤ since + delay) :
    Kept fs longest delay (s.insert t since path ttl metadata) := by
  obtain ⟨httl, τ, hheld, hsince, hle⟩ := hfetched
  have hput : Kept fs longest delay { s with cache := { s.cache with
      entries := s.cache.entries.insert path (metadata, s.clock + ttl) } } := by
    refine ⟨h.recent, h.ended, h.ttl_le, ?_, fun t task ht => ?_⟩
    · refine @Backed.put _ _ _ _ _ _ h.backed s.clock ttl delay (by omega) ?_
      intro k v expires hk
      rw [AssocMap.get?_insert] at hk
      split_ifs at hk with heq
      · cases hk
        exact Or.inr ⟨rfl, τ, ⟨hheld.congr heq, hle⟩,
          hdelay.trans (Int.add_le_add_right hsince _)⟩
      · exact Or.inl hk
    · have hknown := h.tasks t task ht
      cases task <;> exact hknown
  exact (hput.answer ⟨τ, ⟨hheld, hle⟩, hsince.trans (le_add_natCast τ longest delay)⟩).finish t

end Kept

/-! ### Runs -/

lemma kept_next {s' : State S} {e : Event S} (h : Inv fs longest delay s)
    (hok : StepOk longest delay s e) (hs' : next fs s e = some s') : Kept fs longest delay s' := by
  cases e with
  | pass d =>
    cases hs'
    exact h.later (Int.le_add_of_nonneg_right (Int.natCast_nonneg d)) (List.Subset.refl _)
  | stat t path =>
    obtain ⟨-, hs'⟩ := Option.ite_none_left_eq_some.1 hs'
    rw [← Option.some.inj hs']
    exact h.stat t path
  | resume t =>
    obtain ⟨task, htask, rfl⟩ := Option.map_eq_some_iff.1 hs'
    have hknown := h.tasks t task htask
    cases task with
    | missed since path ttl => exact h.fetch h.present t hknown
    | fetched since path ttl metadata =>
      exact h.insert t hknown (hok since path ttl metadata htask)
  | change vfs =>
    cases hs'
    exact h.later le_rfl (List.Subset.refl _)
  | invalidate path =>
    cases hs'
    exact h.drop h.ttl_le fun k e hk => StatCache.of_get?_invalidate hk
  | invalidateRename oldPath newPath =>
    cases hs'
    exact h.drop h.ttl_le fun k e hk =>
      StatCache.of_get?_invalidate (StatCache.of_get?_invalidate hk)
  | setTtl ttl =>
    cases hs'
    exact h.drop hok fun k e hk => hk

/-- The record of the present state. -/
lemma Kept.record (h : Kept fs longest delay s) : Inv fs longest delay s.record :=
  ⟨h.later le_rfl (List.subset_cons_self _ _), List.mem_cons_self⟩

lemma inv_step {s' : State S} {e : Event S} (h : Inv fs longest delay s)
    (hok : StepOk longest delay s e) (hs' : step fs s e = some s') : Inv fs longest delay s' := by
  obtain ⟨s₁, hs₁, rfl⟩ := Option.map_eq_some_iff.1 hs'
  exact (kept_next h hok hs₁).record

/-- The time does not go back, and the record stays. -/
lemma step_later {s' : State S} {e : Event S} (hs' : step fs s e = some s') :
    s.clock ≤ s'.clock ∧ s.past ⊆ s'.past := by
  obtain ⟨s₁, hs₁, rfl⟩ := Option.map_eq_some_iff.1 hs'
  have hnext : s.clock ≤ s₁.clock ∧ s₁.past = s.past := by
    cases e with
    | pass d =>
      cases hs₁
      exact ⟨Int.le_add_of_nonneg_right (Int.natCast_nonneg d), rfl⟩
    | stat t path =>
      obtain ⟨-, hs₁⟩ := Option.ite_none_left_eq_some.1 hs₁
      rw [← Option.some.inj hs₁, State.stat]
      cases validatePath path with
      | some e => exact ⟨Int.le_refl _, rfl⟩
      | none =>
        simp only [State.lookup]
        split
        · split_ifs
          all_goals exact ⟨Int.le_refl _, rfl⟩
        · exact ⟨Int.le_refl _, rfl⟩
    | resume t =>
      obtain ⟨task, -, rfl⟩ := Option.map_eq_some_iff.1 hs₁
      cases task with
      | missed since path ttl =>
        simp only [State.resume, State.fetch]
        split
        all_goals exact ⟨Int.le_refl _, rfl⟩
      | fetched since path ttl metadata => exact ⟨Int.le_refl _, rfl⟩
    | change vfs =>
      cases hs₁
      exact ⟨Int.le_refl _, rfl⟩
    | invalidate path =>
      cases hs₁
      exact ⟨Int.le_refl _, rfl⟩
    | invalidateRename oldPath newPath =>
      cases hs₁
      exact ⟨Int.le_refl _, rfl⟩
    | setTtl ttl =>
      cases hs₁
      exact ⟨Int.le_refl _, rfl⟩
  refine ⟨hnext.1, ?_⟩
  rw [← hnext.2]
  exact List.subset_cons_self _ _

lemma inv_new {ttl : ℤ} (httl : ttl ≤ longest) (vfs : S) (now : DateTime) :
    Inv fs longest delay (State.new ttl vfs now) :=
  ⟨Kept.new httl rfl rfl rfl, List.mem_singleton.2 rfl⟩

/-- **Bounded staleness of the stat endpoint.**  However the requests, the changes and the
reloads interleave: what a request is answered is what the filesystem had, at most the longest
time to live and the longest duration of a request before the request started. -/
theorem answers_recent (fs : FileSystem S) {longest : ℕ} {ttl : ℤ} (httl : ttl ≤ longest)
    (delay : ℕ) (vfs : S) (now : DateTime) (evs : List (Event S))
    (hok : StepsMeet (step fs) (StepOk longest delay) (State.new ttl vfs now) evs) :
    StatesMeet (step fs) (Recent fs (longest + delay)) (State.new ttl vfs now) evs :=
  (statesMeet_of_stepsMeet (fun _ _ _ h hok hs' => inv_step h hok hs') (inv_new httl vfs now)
    hok).imp fun _ h => h.recent

/-- An in-memory filesystem with an empty file `/f`. -/
def emptyFile : MemFs.MemFS := ((MemFs.MemFS.new 0).create ⟨ascii "/f"⟩ 0).2

/-- The same after a write of one byte. -/
def oneByte : MemFs.MemFS := (emptyFile.write ⟨ascii "/f"⟩ (ascii "x") 0 .NONE 1).2

/-- A request has the metadata, the file is written, and the request inserts what it has; another
one starts. -/
def overtakenRun : List (Event MemFs.MemFS) :=
  [.stat 0 (ascii "/f"), .resume 0, .change oneByte, .pass 1, .resume 0, .pass 1,
    .stat 1 (ascii "/f")]

/-- The second request is answered what was true two units of time before. -/
theorem answers_recent_overtaken :
    (∃ s, run (step memFileSystem) (State.new 2 emptyFile 0) overtakenRun = some s ∧
      s.answers.map (fun a => (a.since, a.time, a.metadata.size)) = [(2, 2, 0), (0, 1, 0)]) ∧
    StatesMeet (step memFileSystem) (Recent memFileSystem ((2 : ℕ) + (1 : ℕ)))
      (State.new 2 emptyFile 0) overtakenRun := by
  refine ⟨⟨_, rfl, rfl⟩, answers_recent memFileSystem (by decide) 1 emptyFile 0 _ ?_⟩
  have hmissed : ∀ since path ttl metadata,
      some (Task.missed 0 ⟨ascii "/f"⟩ 2) = some (.fetched since path ttl metadata) →
        (0 : DateTime) ≤ since + (1 : ℕ) := by
    intro since path ttl metadata h
    cases h
  refine stepsMeet_cons rfl trivial (stepsMeet_cons rfl hmissed (stepsMeet_cons rfl trivial
    (stepsMeet_cons rfl trivial (stepsMeet_cons rfl ?_ (stepsMeet_cons rfl trivial
      (stepsMeet_cons rfl trivial trivial))))))
  intro since path ttl metadata h
  cases h
  decide

end StatExpiry

end Racfs.Server
