/-
# Reads that are overtaken by a mutation

`CachedFs` (`racfs-vfs/src/cached_fs.rs`) reads a whole file into the cache when it is not there,
and removes it from the cache after a mutation of the file.  Here any number of reads, writes,
truncations and removals of one path run interleaved.  A step is the part of a call between two
await points: the look-up in the cache, the read of the wrapped filesystem, and the entry into
the cache; the mutation of the wrapped filesystem, and the invalidation.

A state records all contents that the wrapped filesystem has had for the path, the number of the
last one that was made by a mutation that has returned with success, and what reads have
returned, with the number that was valid when they started.  What a read returns should be cut
out of a content that is not older than that (`Fresh`).  A read does not check whether a mutation
has returned since it has read the file, and then what it puts into the cache is too old for all
later reads.  `cached_fresh_iff` says that this is the only way to get there.
-/
import Racfs.Lib.History
import Racfs.Lib.Run
import Racfs.Vfs.CachedFs

namespace Racfs.Vfs.CachedRaces

open CachedFs History

/-! ### States -/

/-- The mutations of the path. -/
inductive Change
  | write (data : Bytes) (offset : Int64) (flags : WriteFlags)
  | truncate (size : UInt64)
  | remove

/-- The mutation that is passed on. -/
def Change.mutation (path : PathBuf) : Change → Mutation PathBuf
  | .write data offset flags => .write path data offset flags
  | .truncate size => .truncate path size
  | .remove => .remove path

/-- A call that waits. -/
inductive Task
  /-- A read that has found nothing in the cache, with the number of the content that it may not
  fall behind. -/
  | missed (since : ℕ) (offset size : Int64)
  /-- A read that has the content. -/
  | loaded (since : ℕ) (offset size : Int64) (content : Bytes)
  /-- A mutation that has succeeded, with the number of the content that it has made. -/
  | changed (change : Change) (made : ℕ)

/-- A read that has returned. -/
structure Returned where
  since : ℕ
  offset : Int64
  size : Int64
  result : Outcome Bytes

/-- The filesystem and the cache, the waiting calls, and the record of what has happened. -/
structure State (S : Type*) where
  cached : CachedFs S
  tasks : AssocMap ℕ Task
  /-- What the wrapped filesystem has had for the path, the present content last. -/
  history : List (Outcome Bytes)
  /-- The number of the last content that was made by a mutation that has returned. -/
  settled : ℕ
  returned : List Returned

namespace State

variable {S : Type*} (fs : FileSystem S) (keyPrefix : Bytes) (path : PathBuf) (s : State S)

/-- Nothing has happened yet. -/
def new (inner : S) : State S := ⟨⟨inner, ∅⟩, ∅, [fs.read inner path 0 (-1)], 0, []⟩

/-- The call waits. -/
def await (t : ℕ) (task : Task) : State S := { s with tasks := s.tasks.insert t task }

/-- The call has returned. -/
def finish (t : ℕ) : State S := { s with tasks := s.tasks.erase t }

/-! ### Steps -/

/-- A read up to its call: the look-up in the cache. -/
def startRead (t : ℕ) (offset size : Int64) : State S :=
  match s.cached.cache.get? (key keyPrefix .read path) with
  | some data =>
    { s with returned := ⟨s.settled, offset, size, slice data offset size⟩ :: s.returned }
  | none => s.await t (.missed s.settled offset size)

/-- The wrapped filesystem reads the whole file. -/
def load (t since : ℕ) (offset size : Int64) : State S :=
  match fs.read s.cached.inner path 0 (-1) with
  | .ok content => s.await t (.loaded since offset size content)
  | _ => s.finish t

/-- The end of a read: the entry into the cache. -/
def finishRead (t since : ℕ) (offset size : Int64) (content : Bytes) : State S :=
  { s with
    cached := { s.cached with
      cache := s.cached.cache.insert (key keyPrefix .read path) content }
    returned := ⟨since, offset, size, slice content offset size⟩ :: s.returned }.finish t

/-- A mutation up to its first await point: that of the wrapped filesystem. -/
def startChange (t : ℕ) (now : DateTime) (change : Change) : State S :=
  let r := fs.mutate s.cached.inner now (change.mutation path)
  let made := s.history.length
  let s := { s with
    cached := { s.cached with inner := r.2 }
    history := s.history ++ [fs.read r.2 path 0 (-1)] }
  match r.1 with
  | .ok _ => s.await t (.changed change made)
  | _ => s

/-- The end of a mutation that has succeeded: the invalidation. -/
def finishChange (t : ℕ) (change : Change) (made : ℕ) : State S :=
  { s with
    cached := { s.cached with
      cache := CachedFs.invalidate keyPrefix s.cached.cache (change.mutation path) }
    settled := max s.settled made }.finish t

/-- A waiting call goes on. -/
def resume (t : ℕ) : Task → State S
  | .missed since offset size => s.load fs path t since offset size
  | .loaded since offset size content => s.finishRead keyPrefix path t since offset size content
  | .changed change made => s.finishChange keyPrefix path t change made

end State

/-- What can happen.  A call that starts gets a number that is free. -/
inductive Event
  | read (t : ℕ) (offset size : Int64)
  | change (t : ℕ) (now : DateTime) (change : Change)
  | resume (t : ℕ)

variable {S : Type*} (fs : FileSystem S) (keyPrefix : Bytes) (path : PathBuf)

/-- One step. -/
def step (s : State S) : Event → Option (State S)
  | .read t offset size =>
    if s.tasks.contains t then none else some (s.startRead keyPrefix path t offset size)
  | .change t now change =>
    if s.tasks.contains t then none else some (s.startChange fs path t now change)
  | .resume t => (s.tasks.get? t).map (s.resume fs keyPrefix path t)

/-! ### Fresh contents -/

/-- The result is a part of a content that the path has had, at the given number or later. -/
def PartHeld (history : List (Outcome Bytes)) (since : ℕ) (offset size : Int64)
    (result : Outcome Bytes) : Prop :=
  ∃ content, Held history since (.ok content) ∧ result = slice content offset size

/-- No read returns a part of a content that is older than the one of the last mutation that had
returned when it started: none of those that have returned, and none that starts now and finds a
content in the cache. -/
structure Fresh (s : State S) : Prop where
  returned : ∀ r ∈ s.returned, PartHeld s.history r.since r.offset r.size r.result
  starting : ∀ data offset size, s.cached.cache.get? (key keyPrefix .read path) = some data →
    PartHeld s.history s.settled offset size (slice data offset size)

/-- A read that puts its content into the cache does not bring back a content from before the
last mutation that has returned. -/
def StepOk (s : State S) : Event → Prop
  | .resume t => ∀ since offset size content,
      s.tasks.get? t = some (.loaded since offset size content) →
        Held s.history s.settled (.ok content)
  | _ => True

/-- What is known of a waiting call. -/
def TaskOk (history : List (Outcome Bytes)) : Task → Prop
  | .missed since _ _ => since < history.length
  | .loaded since _ _ content => Held history since (.ok content)
  | .changed _ made => made < history.length

/-- The invariant. -/
structure Inv (s : State S) : Prop where
  returned : ∀ r ∈ s.returned, PartHeld s.history r.since r.offset r.size r.result
  cached : ∀ data, s.cached.cache.get? (key keyPrefix .read path) = some data →
    Held s.history s.settled (.ok data)
  present : s.history.getLast? = some (fs.read s.cached.inner path 0 (-1))
  settled_lt : s.settled < s.history.length
  tasks : ∀ t task, s.tasks.get? t = some task → TaskOk s.history task

variable {fs keyPrefix path}

lemma TaskOk.append {history : List (Outcome Bytes)} {task : Task} (h : TaskOk history task)
    (more : List (Outcome Bytes)) : TaskOk (history ++ more) task := by
  have hlen : history.length ≤ (history ++ more).length := by simp
  cases task with
  | missed since offset size => exact h.trans_le hlen
  | loaded since offset size content => exact Held.append h more
  | changed change made => exact h.trans_le hlen

lemma PartHeld.append {history : List (Outcome Bytes)} {since : ℕ} {offset size : Int64}
    {result : Outcome Bytes} (h : PartHeld history since offset size result)
    (more : List (Outcome Bytes)) : PartHeld (history ++ more) since offset size result := by
  obtain ⟨content, hheld, heq⟩ := h
  exact ⟨content, hheld.append more, heq⟩

/-- A read of the whole file. -/
lemma slice_all (data : Bytes) : slice data 0 (-1) = .ok data := by
  have hneg : (-1 : Int64) < 0 := by decide
  have hzero : (max 0 0 : Int64).toUInt64.toNat = 0 := by decide
  rw [slice, hzero, if_pos hneg]
  cases data with
  | nil => rfl
  | cons b data => simp

/-- The mutations of the path remove its content from the cache. -/
lemma get?_invalidate (cache : AssocMap Bytes Bytes) (change : Change) :
    (CachedFs.invalidate keyPrefix cache (change.mutation path)).get? (key keyPrefix .read path) =
      none := by
  have hpath : (invalidatePath keyPrefix cache path).get? (key keyPrefix .read path) = none := by
    have hkept : ∀ {m : AssocMap Bytes Bytes} {k k' : Bytes}, m.get? k' = none →
        (m.erase k).get? k' = none := by
      intro m k k' hnone
      rw [AssocMap.get?_erase, hnone, ite_self]
    have herased := hkept (k := key keyPrefix .readdir path) (hkept (k := key keyPrefix .stat path)
      (AssocMap.get?_erase_self cache (key keyPrefix .read path)))
    rw [invalidatePath, invalidateParent]
    cases path.parent with
    | none => exact herased
    | some parent =>
      simp only
      split_ifs
      · exact herased
      · exact hkept herased
  cases change <;> exact hpath

namespace Inv

variable {s : State S}

lemma new (inner : S) : Inv fs keyPrefix path (State.new fs path inner) where
  returned _ hr := nomatch hr
  cached _ hc := nomatch hc
  present := rfl
  settled_lt := Nat.one_pos
  tasks _ _ ht := nomatch ht

lemma fresh (h : Inv fs keyPrefix path s) : Fresh keyPrefix path s where
  returned := h.returned
  starting data _ _ hdata := ⟨data, h.cached data hdata, rfl⟩

lemma await (h : Inv fs keyPrefix path s) (t : ℕ) (task : Task) (htask : TaskOk s.history task) :
    Inv fs keyPrefix path (s.await t task) where
  returned := h.returned
  cached := h.cached
  present := h.present
  settled_lt := h.settled_lt
  tasks t' task' ht' := by
    rw [State.await, AssocMap.get?_insert] at ht'
    split_ifs at ht' with heq
    · cases ht'
      exact htask
    · exact h.tasks t' task' ht'

lemma finish (h : Inv fs keyPrefix path s) (t : ℕ) : Inv fs keyPrefix path (s.finish t) where
  returned := h.returned
  cached := h.cached
  present := h.present
  settled_lt := h.settled_lt
  tasks t' task' ht' := h.tasks t' task' (AssocMap.get?_of_get?_erase ht')

/-- A read returns. -/
lemma answer (h : Inv fs keyPrefix path s) {r : Returned}
    (hr : PartHeld s.history r.since r.offset r.size r.result) :
    Inv fs keyPrefix path { s with returned := r :: s.returned } where
  returned r' hr' := by
    rcases List.mem_cons.1 hr' with rfl | hr'
    · exact hr
    · exact h.returned r' hr'
  cached := h.cached
  present := h.present
  settled_lt := h.settled_lt
  tasks := h.tasks

lemma startRead (h : Inv fs keyPrefix path s) (t : ℕ) (offset size : Int64) :
    Inv fs keyPrefix path (s.startRead keyPrefix path t offset size) := by
  rw [State.startRead]
  cases hget : s.cached.cache.get? (key keyPrefix .read path) with
  | none => exact h.await t (.missed s.settled offset size) h.settled_lt
  | some data => exact h.answer ⟨data, h.cached data hget, rfl⟩

lemma load (h : Inv fs keyPrefix path s) {t since : ℕ} {offset size : Int64}
    (hsince : since < s.history.length) :
    Inv fs keyPrefix path (s.load fs path t since offset size) := by
  have hpresent := h.present
  rw [State.load]
  cases hread : fs.read s.cached.inner path 0 (-1) with
  | ok content =>
    rw [hread] at hpresent
    exact h.await t (.loaded since offset size content) (held_of_getLast? hsince hpresent)
  | err e => exact h.finish t
  | panic => exact h.finish t

/-- The end of a read is the step that needs the condition. -/
lemma finishRead (h : Inv fs keyPrefix path s) {t since : ℕ} {offset size : Int64}
    {content : Bytes} (hsince : Held s.history since (.ok content))
    (hok : Held s.history s.settled (.ok content)) :
    Inv fs keyPrefix path (s.finishRead keyPrefix path t since offset size content) := by
  have hput : Inv fs keyPrefix path { s with
      cached := { s.cached with
        cache := s.cached.cache.insert (key keyPrefix .read path) content } } := by
    refine ⟨h.returned, fun data hdata => ?_, h.present, h.settled_lt, h.tasks⟩
    simp only [AssocMap.get?_insert_self] at hdata
    rw [← Option.some.inj hdata]
    exact hok
  have hreturned := @Inv.answer _ _ _ _ _ hput
    ⟨since, offset, size, slice content offset size⟩ ⟨content, hsince, rfl⟩
  exact hreturned.finish t

/-- The wrapped filesystem has another state. -/
lemma changed (h : Inv fs keyPrefix path s) (inner : S) :
    Inv fs keyPrefix path { s with
      cached := { s.cached with inner := inner }
      history := s.history ++ [fs.read inner path 0 (-1)] } where
  returned r hr := (h.returned r hr).append _
  cached data hdata := (h.cached data hdata).append _
  present := List.getLast?_concat
  settled_lt := by
    have hlt := h.settled_lt
    simp only [List.length_append, List.length_singleton]
    omega
  tasks t task ht := (h.tasks t task ht).append _

lemma startChange (h : Inv fs keyPrefix path s) (t : ℕ) (now : DateTime) (change : Change) :
    Inv fs keyPrefix path (s.startChange fs path t now change) := by
  rw [State.startChange]
  have hchanged := h.changed (fs.mutate s.cached.inner now (change.mutation path)).2
  simp only
  split
  · refine hchanged.await t (.changed change s.history.length) ?_
    simp [TaskOk]
  · exact hchanged

lemma finishChange (h : Inv fs keyPrefix path s) {t : ℕ} {change : Change} {made : ℕ}
    (hmade : made < s.history.length) :
    Inv fs keyPrefix path (s.finishChange keyPrefix path t change made) := by
  have hgone : Inv fs keyPrefix path { s with
      cached := { s.cached with
        cache := CachedFs.invalidate keyPrefix s.cached.cache (change.mutation path) }
      settled := max s.settled made } := by
    refine ⟨h.returned, fun data hdata => ?_, h.present, max_lt h.settled_lt hmade, h.tasks⟩
    -- nothing is cached now, so the number may grow
    simp only [get?_invalidate] at hdata
    cases hdata
  exact hgone.finish t

end Inv

lemma inv_step {s s' : State S} {e : Event} (h : Inv fs keyPrefix path s) (hok : StepOk s e)
    (hs' : step fs keyPrefix path s e = some s') : Inv fs keyPrefix path s' := by
  cases e with
  | read t offset size =>
    obtain ⟨-, hs'⟩ := Option.ite_none_left_eq_some.1 hs'
    rw [← Option.some.inj hs']
    exact h.startRead t offset size
  | change t now change =>
    obtain ⟨-, hs'⟩ := Option.ite_none_left_eq_some.1 hs'
    rw [← Option.some.inj hs']
    exact h.startChange t now change
  | resume t =>
    obtain ⟨task, htask, rfl⟩ := Option.map_eq_some_iff.1 hs'
    have hknown := h.tasks t task htask
    cases task with
    | missed since offset size => exact h.load hknown
    | loaded since offset size content =>
      exact h.finishRead hknown (hok since offset size content htask)
    | changed change made => exact h.finishChange hknown

/-- A step that leads to a state with fresh contents is one under the condition. -/
lemma stepOk_of_fresh {s s' : State S} {e : Event} (hs' : step fs keyPrefix path s e = some s')
    (h : Fresh keyPrefix path s') : StepOk s e := by
  cases e with
  | read t offset size => trivial
  | change t now change => trivial
  | resume t =>
    intro since offset size content htask
    simp only [step, htask, Option.map_some, Option.some.injEq] at hs'
    subst hs'
    -- the content is in the cache now, and a read of the whole file would return it
    obtain ⟨content', hheld, heq⟩ := h.starting content 0 (-1) (AssocMap.get?_insert_self _ _ _)
    rw [slice_all, slice_all] at heq
    rw [Outcome.ok.inj heq]
    exact hheld

/-- In all runs, contents stay fresh exactly as long as no read puts a content into the cache
that is older than the one of the last mutation that has returned. -/
theorem cached_fresh_iff (fs : FileSystem S) (keyPrefix : Bytes) (path : PathBuf) (inner : S)
    (evs : List Event) :
    StatesMeet (step fs keyPrefix path) (Fresh keyPrefix path) (State.new fs path inner) evs ↔
      StepsMeet (step fs keyPrefix path) StepOk (State.new fs path inner) evs :=
  statesMeet_iff_of_invariant (fun _ h => h.fresh) (fun _ _ _ _ hs' h => stepOk_of_fresh hs' h)
    (fun _ _ _ h hok hs' => inv_step h hok hs') (Inv.new inner)

/-- A read has the content, a write returns, and the read puts its content into the cache; another
read starts. -/
def overtakenRun : List Event :=
  [.read 0 0 (-1), .resume 0, .change 1 0 (.write (ascii "x") 0 .NONE), .resume 1, .resume 0,
    .read 2 0 (-1)]

/-- One step on the file `/f` of an in-memory filesystem. -/
def memStep : State MemFs.MemFS → Event → Option (State MemFs.MemFS) :=
  step memFileSystem [] ⟨ascii "/f"⟩

/-- An in-memory filesystem with an empty file `/f`. -/
def emptyFile : MemFs.MemFS := ((MemFs.MemFS.new 0).create ⟨ascii "/f"⟩ 0).2

/-- The last read of this run returns the empty content, from before the write that had returned
when it started. -/
theorem not_fresh_overtaken_read :
    (∃ s, run memStep (.new memFileSystem ⟨ascii "/f"⟩ emptyFile) overtakenRun = some s ∧
      s.history = [.ok [], .ok (ascii "x")] ∧ s.settled = 1 ∧
      s.returned.head? = some ⟨1, 0, -1, .ok []⟩) ∧
    ¬ StatesMeet memStep (Fresh [] ⟨ascii "/f"⟩) (.new memFileSystem ⟨ascii "/f"⟩ emptyFile)
      overtakenRun := by
  refine ⟨⟨_, rfl, rfl, rfl, rfl⟩, fun h => ?_⟩
  have hlast := (h.run_invariant (fun _ _ _ _ _ _ => trivial) trivial rfl).2
  obtain ⟨content, ⟨v, hv, hget⟩, heq⟩ := hlast.returned ⟨1, 0, -1, .ok []⟩ List.mem_cons_self
  rw [slice_all] at heq
  rw [← Outcome.ok.inj heq] at hget
  have hhistory : [.ok [], .ok (ascii "x")][v]? = some (Outcome.ok []) := hget
  match v, hv, hhistory with
  | 1, _, hone => exact absurd (Outcome.ok.inj (Option.some.inj hone)) (by decide)
  | _ + 2, _, hnone => exact absurd hnone (by simp)

end Racfs.Vfs.CachedRaces
