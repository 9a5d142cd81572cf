/-
# Stat requests that are overtaken by a mutation

The stat endpoint answers from `StatCache` (`racfs-server/src/stat_cache.rs`), or asks the
filesystem and caches the answer; the handlers that change a path drop its cached metadata when
the filesystem has answered.  Here any number of stat requests and of writes, removals, renames,
changes of the mode and truncations of one path run interleaved.  A step is the part of a request
between two await points: the look-up, the fetch and the insertion; the mutation of the filesystem
and the invalidation.  Nothing expires.

A state records all metadata that the filesystem has had for the path, the number of the last one
that was made by a request which has completed, and what stat requests have returned, with the
number that was valid when they started.  They should not fall behind that number (`Fresh`).  The
insertion does not check whether a mutation has completed since the fetch (`StepOk`).
-/
import Racfs.Lib.History
import Racfs.Lib.Run
import Racfs.Server.Api
import Racfs.Vfs.CachedFs

namespace Racfs.Server.StatRaces

open Vfs History

/-! ### States -/

/-- The requests that change the path. -/
inductive Change
  | write (data : Bytes) (offset : Int64)
  | remove
  | renameTo (newPath : PathBuf)
  | renameFrom (oldPath : PathBuf)
  | chmod (mode : UInt32)
  | truncate (size : UInt64)

namespace Change

variable (path : PathBuf)

/-- What the filesystem is asked for. -/
def mutation : Change → Mutation PathBuf
  | write data offset => .write path data offset .NONE
  | remove => .remove path
  | renameTo newPath => .rename path newPath
  | renameFrom oldPath => .rename oldPath path
  | chmod mode => .chmod path mode
  | truncate size => .truncate path size

/-- What is dropped from the cache after a success. -/
def invalidate (cache : StatCache) : Change → StatCache
  | renameTo newPath => cache.invalidateRename path newPath
  | renameFrom oldPath => cache.invalidateRename oldPath path
  | _ => cache.invalidate path

end Change

/-- A request that waits. -/
inductive Task
  /-- A stat request that has found nothing in the cache, with the number of the metadata that it
  may not fall behind. -/
  | missed (since : ℕ)
  /-- A stat request that has the metadata. -/
  | fetched (since : ℕ) (metadata : FileMetadata)
  /-- A mutation that has succeeded, with the number of the metadata that it has made. -/
  | changed (change : Change) (made : ℕ)

/-- A stat request that has returned metadata. -/
structure Returned where
  since : ℕ
  metadata : FileMetadata

/-- The filesystem and the cache, the waiting requests, and the record of what has happened. -/
structure State (S : Type*) where
  vfs : S
  cache : StatCache
  tasks : AssocMap ℕ Task
  /-- What the filesystem has had for the path, the present metadata last. -/
  history : List (Outcome FileMetadata)
  /-- The number of the last metadata that was made by a mutation that has completed. -/
  settled : ℕ
  returned : List Returned

namespace State

variable {S : Type*} (fs : FileSystem S) (path : PathBuf) (s : State S)

/-- Nothing has happened yet. -/
def new (ttl : ℤ) (vfs : S) : State S := ⟨vfs, ⟨∅, ttl⟩, ∅, [fs.stat vfs path], 0, []⟩

/-- The request waits. -/
def await (t : ℕ) (task : Task) : State S := { s with tasks := s.tasks.insert t task }

/-- The request has completed. -/
def finish (t : ℕ) : State S := { s with tasks := s.tasks.erase t }

/-! ### Steps -/

/-- The look-up of a stat request.  A run in which an entry expires is not considered. -/
def lookup (t : ℕ) (now : DateTime) : Option (State S) :=
  match s.cache.entries.get? path with
  | some (metadata, expires) =>
    if now < expires then some { s with returned := ⟨s.settled, metadata⟩ :: s.returned } else none
  | none => some (s.await t (.missed s.settled))

/-- The filesystem answers a stat request. -/
def fetch (t since : ℕ) : State S :=
  match fs.stat s.vfs path with
  | .ok metadata => s.await t (.fetched since metadata)
  | _ => s.finish t

/-- The end of a stat request: the insertion into the cache. -/
def insert (t : ℕ) (now : DateTime) (since : ℕ) (metadata : FileMetadata) : State S :=
  { s with
    cache := (s.cache.fetched path now (.ok metadata)).2
    returned := ⟨since, metadata⟩ :: s.returned }.finish t

/-- A mutation up to its first await point: that of the filesystem. -/
def startChange (t : ℕ) (now : DateTime) (change : Change) : State S :=
  let r := fs.mutate s.vfs now (change.mutation path)
  let made := s.history.length
  let s := { s with vfs := r.2, history := s.history ++ [fs.stat r.2 path] }
  match r.1 with
  | .ok _ => s.await t (.changed change made)
  | _ => s

/-- The end of a mutation that has succeeded: the invalidation. -/
def finishChange (t : ℕ) (change : Change) (made : ℕ) : State S :=
  { s with
    cache := change.invalidate path s.cache
    settled := max s.settled made }.finish t

/-- A waiting request goes on. -/
def resume (t : ℕ) (now : DateTime) : Task → State S
  | .missed since => s.fetch fs path t since
  | .fetched since metadata => s.insert path t now since metadata
  | .changed change made => s.finishChange path t change made

end State

/-- What can happen.  A request that starts gets a number that is free. -/
inductive Event
  | stat (t : ℕ) (now : DateTime)
  | change (t : ℕ) (now : DateTime) (change : Change)
  | resume (t : ℕ) (now : DateTime)

variable {S : Type*} (fs : FileSystem S) (path : PathBuf)

/-- One step. -/
def step (s : State S) : Event → Option (State S)
  | .stat t now => if s.tasks.contains t then none else s.lookup path t now
  | .change t now change =>
    if s.tasks.contains t then none else some (s.startChange fs path t now change)
  | .resume t now => (s.tasks.get? t).map (s.resume fs path t now)

/-! ### Fresh metadata -/

/-- No stat request returns metadata that is older than that of the last mutation that had
completed when it started: none of those that have returned, and none that starts now and finds an
entry in the cache. -/
structure Fresh (s : State S) : Prop where
  returned : ∀ r ∈ s.returned, Held s.history r.since (.ok r.metadata)
  starting : ∀ metadata expires, s.cache.entries.get? path = some (metadata, expires) →
    Held s.history s.settled (.ok metadata)

/-- A stat request that inserts its metadata does not bring back what the path had only before
the last mutation that has completed. -/
def StepOk (s : State S) : Event → Prop
  | .resume t _ => ∀ since metadata, s.tasks.get? t = some (.fetched since metadata) →
      Held s.history s.settled (.ok metadata)
  | _ => True

/-- What is known of a waiting request. -/
def TaskOk (history : List (Outcome FileMetadata)) : Task → Prop
  | .missed since => since < history.length
  | .fetched since metadata => Held history since (.ok metadata)
  | .changed _ made => made < history.length

/-- The invariant. -/
structure Inv (s : State S) : Prop where
  fresh : Fresh path s
  present : s.history.getLast? = some (fs.stat s.vfs path)
  settled_lt : s.settled < s.history.length
  tasks : ∀ t task, s.tasks.get? t = some task → TaskOk s.history task

variable {fs path}

lemma TaskOk.append {history : List (Outcome FileMetadata)} {task : Task}
    (h : TaskOk history task) (more : List (Outcome FileMetadata)) :
    TaskOk (history ++ more) task := by
  have hlen : history.length ≤ (history ++ more).length := by simp
  cases task with
  | missed since => exact Nat.lt_of_lt_of_le h hlen
  | fetched since metadata => exact Held.append h more
  | changed change made => exact Nat.lt_of_lt_of_le h hlen

/-- Every request that changes the path drops its metadata. -/
lemma get?_invalidate (cache : StatCache) (change : Change) :
    (change.invalidate path cache).entries.get? path = none := by
  cases change with
  | renameTo newPath =>
    exact StatCache.get?_invalidate_of_none (cache.get?_invalidate_self path) newPath
  | renameFrom oldPath => exact StatCache.get?_invalidate_self _ path
  | _ => exact cache.get?_invalidate_self path

namespace Inv

variable {s : State S}

lemma new (ttl : ℤ) (vfs : S) : Inv fs path (State.new fs path ttl vfs) where
  fresh := ⟨fun _ hr => (nomatch hr), fun _ _ hc => (nomatch hc)⟩
  present := rfl
  settled_lt := Nat.one_pos
  tasks _ _ ht := nomatch ht

lemma await (h : Inv fs path s) (t : ℕ) (task : Task) (htask : TaskOk s.history task) :
    Inv fs path (s.await t task) where
  fresh := ⟨h.fresh.returned, h.fresh.starting⟩
  present := h.present
  settled_lt := h.settled_lt
  tasks t' task' ht' := by
    rw [State.await, AssocMap.get?_insert] at ht'
    split_ifs at ht' with heq
    · cases ht'
      exact htask
    · exact h.tasks t' task' ht'

lemma finish (h : Inv fs path s) (t : ℕ) : Inv fs path (s.finish t) where
  fresh := ⟨h.fresh.returned, h.fresh.starting⟩
  present := h.present
  settled_lt := h.settled_lt
  tasks t' task' ht' := h.tasks t' task' (AssocMap.get?_of_get?_erase ht')

/-- A stat request returns. -/
lemma answer (h : Inv fs path s) {r : Returned} (hr : Held s.history r.since (.ok r.metadata)) :
    Inv fs path { s with returned := r :: s.returned } where
  fresh.returned r' hr' := by
    rcases List.mem_cons.1 hr' with rfl | hr'
    · exact hr
    · exact h.fresh.returned r' hr'
  fresh.starting := h.fresh.starting
  present := h.present
  settled_lt := h.settled_lt
  tasks := h.tasks

lemma lookup (h : Inv fs path s) {t : ℕ} {now : DateTime} {s' : State S}
    (hs' : s.lookup path t now = some s') : Inv fs path s' := by
  rw [State.lookup] at hs'
  cases hget : s.cache.entries.get? path with
  | none =>
    rw [hget] at hs'
    cases hs'
    exact h.await t (.missed s.settled) h.settled_lt
  | some entry =>
    obtain ⟨metadata, expires⟩ := entry
    rw [hget] at hs'
    obtain ⟨-, hs'⟩ := Option.ite_none_right_eq_some.1 hs'
    rw [← Option.some.inj hs']
    exact h.answer (h.fresh.starting metadata expires hget)

lemma fetch (h : Inv fs path s) {t since : ℕ} (hsince : since < s.history.length) :
    Inv fs path (s.fetch fs path t since) := by
  have hpresent := h.present
  rw [State.fetch]
  cases hstat : fs.stat s.vfs path with
  | ok metadata =>
    rw [hstat] at hpresent
    exact h.await t (.fetched since metadata) (held_of_getLast? hsince hpresent)
  | err e => exact h.finish t
  | panic => exact h.finish t

/-- The insertion is the step that needs the condition. -/
lemma insert (h : Inv fs path s) {t since : ℕ} {now : DateTime} {metadata : FileMetadata}
    (hsince : Held s.history since (.ok metadata))
    (hok : Held s.history s.settled (.ok metadata)) :
    Inv fs path (s.insert path t now since metadata) := by
  have hput : Inv fs path
      { s with cache := (s.cache.fetched path now (.ok metadata)).2 } := by
    refine ⟨⟨h.fresh.returned, fun m expires hm => ?_⟩, h.present, h.settled_lt, h.tasks⟩
    simp only [StatCache.fetched, AssocMap.get?_insert_self, Option.some.injEq,
      Prod.mk.injEq] at hm
    rw [← hm.1]
    exact hok
  have hreturned := @Inv.answer _ _ _ _ hput ⟨since, metadata⟩ hsince
  exact hreturned.finish t

/-- The filesystem has another state. -/
lemma changed (h : Inv fs path s) (vfs : S) :
    Inv fs path { s with vfs := vfs, history := s.history ++ [fs.stat vfs path] } where
  fresh :=
    ⟨fun r hr => (h.fresh.returned r hr).append _,
      fun m expires hm => (h.fresh.starting m expires hm).append _⟩
  present := List.getLast?_concat
  settled_lt := by
    have hlt := h.settled_lt
    simp only [List.length_append, List.length_singleton]
    omega
  tasks t task ht := (h.tasks t task ht).append _

lemma startChange (h : Inv fs path s) (t : ℕ) (now : DateTime) (change : Change) :
    Inv fs path (s.startChange fs path t now change) := by
  rw [State.startChange]
  have hchanged := h.changed (fs.mutate s.vfs now (change.mutation path)).2
  split
  · refine hchanged.await t (.changed change s.history.length) ?_
    simp [TaskOk]
  · exact hchanged

lemma finishChange (h : Inv fs path s) {t : ℕ} {change : Change} {made : ℕ}
    (hmade : made < s.history.length) :
    Inv fs path (s.finishChange path t change made) := by
  have hgone : Inv fs path
      { s with cache := change.invalidate path s.cache, settled := max s.settled made } := by
    refine ⟨⟨h.fresh.returned, fun m expires hm => ?_⟩, h.present,
      Nat.max_lt.2 ⟨h.settled_lt, hmade⟩, h.tasks⟩
    -- nothing is cached now, so the number may grow
    simp only [get?_invalidate] at hm
    cases hm
  exact hgone.finish t

end Inv

lemma inv_step {s s' : State S} {e : Event} (h : Inv fs path s) (hok : StepOk s e)
    (hs' : step fs path s e = some s') : Inv fs path s' := by
  cases e with
  | stat t now =>
    obtain ⟨-, hs'⟩ := Option.ite_none_left_eq_some.1 hs'
    exact h.lookup hs'
  | change t now change =>
    obtain ⟨-, hs'⟩ := Option.ite_none_left_eq_some.1 hs'
    rw [← Option.some.inj hs']
    exact h.startChange t now change
  | resume t now =>
    obtain ⟨task, htask, rfl⟩ := Option.map_eq_some_iff.1 hs'
    have hknown := h.tasks t task htask
    cases task with
    | missed since => exact h.fetch hknown
    | fetched since metadata => exact h.insert hknown (hok since metadata htask)
    | changed change made => exact h.finishChange hknown

/-- A step that leads to a state with fresh metadata is one under the condition. -/
lemma stepOk_of_fresh {s s' : State S} {e : Event} (hs' : step fs path s e = some s')
    (h : Fresh path s') : StepOk s e := by
  cases e with
  | stat t now => trivial
  | change t now change => trivial
  | resume t now =>
    intro since metadata htask
    simp only [step, htask, Option.map_some, Option.some.injEq] at hs'
    subst hs'
    -- the metadata is in the cache now, and the next request would return it
    exact h.starting metadata (now + s.cache.ttl) (AssocMap.get?_insert_self _ _ _)

/-- In all runs, metadata stays fresh exactly as long as no stat request inserts metadata that is
older than that of the last mutation that has completed. -/
theorem statCache_fresh_iff (fs : FileSystem S) (path : PathBuf) (ttl : ℤ) (vfs : S)
    (evs : List Event) :
    StatesMeet (step fs path) (Fresh path) (State.new fs path ttl vfs) evs ↔
      StepsMeet (step fs path) StepOk (State.new fs path ttl vfs) evs :=
  statesMeet_iff_of_invariant (fun _ (h : Inv fs path _) => h.fresh)
    (fun _ _ _ _ hs' h => stepOk_of_fresh hs' h) (fun _ _ _ h hok hs' => inv_step h hok hs')
    (Inv.new ttl vfs)

/-- A stat request has the metadata, a write completes, and the request inserts what it has;
another one starts. -/
def overtakenRun : List Event :=
  [.stat 0 0, .resume 0 1, .change 1 2 (.write (ascii "x") 0), .resume 1 3, .resume 0 4, .stat 2 5]

/-- One step on the file `/f` of an in-memory filesystem. -/
def memStep : State MemFs.MemFS → Event → Option (State MemFs.MemFS) :=
  step memFileSystem ⟨ascii "/f"⟩

/-- An in-memory filesystem with an empty file `/f`. -/
def emptyFile : MemFs.MemFS := ((MemFs.MemFS.new 0).create ⟨ascii "/f"⟩ 0).2

/-- Nothing has happened; metadata is cached for two seconds. -/
def start : State MemFs.MemFS := .new memFileSystem ⟨ascii "/f"⟩ 2000000000 emptyFile

/-- The last request of this run returns the size zero, from before the write of one byte that had
completed when it started. -/
theorem not_fresh_overtaken_stat :
    (∃ s, run memStep start overtakenRun = some s ∧ s.settled = 1 ∧
      s.history.map (fun r => r.map FileMetadata.size) = [.ok 0, .ok 1] ∧
      s.returned.map (fun r => (r.since, r.metadata.size)) = [(1, 0), (0, 0)]) ∧
    ¬ StatesMeet memStep (Fresh ⟨ascii "/f"⟩) start overtakenRun := by
  have hrun : ∃ s, run memStep start overtakenRun = some s ∧ s.settled = 1 ∧
      s.history.map (fun r => r.map FileMetadata.size) = [.ok 0, .ok 1] ∧
      s.returned.map (fun r => (r.since, r.metadata.size)) = [(1, 0), (0, 0)] :=
    ⟨_, rfl, rfl, rfl, rfl⟩
  refine ⟨hrun, fun h => ?_⟩
  obtain ⟨s, hs, -, hhistory, hreturned⟩ := hrun
  have hfresh := (h.run_invariant (fun _ _ _ _ _ _ => trivial) trivial hs).2
  obtain ⟨r, rest, heq, hr, -⟩ := List.map_eq_cons_iff.1 hreturned
  obtain ⟨hsince, hsize⟩ := Prod.mk.inj hr
  obtain ⟨v, hv, hget⟩ := hfresh.returned r (by simp [heq])
  have hold : [.ok 0, .ok 1][v]? = some (Outcome.ok (0 : UInt64)) := by
    rw [← hhistory, List.getElem?_map, hget, Option.map_some, Outcome.map_ok, hsize]
  rw [hsince] at hv
  match v, hv, hold with
  | 1, _, hone => exact absurd (Outcome.ok.inj (Option.some.inj hone)) (by decide)
  | _ + 2, _, hnone => exact absurd hnone (by simp)

end Racfs.Server.StatRaces
