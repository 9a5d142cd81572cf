/-
# Reads that are overtaken by a flush

`read_async` keeps the content that it gets from the server in the cache, where it stays until
an operation drops it; `flush_write_back` drops it after its last call
(`racfs-fuse/src/async_fs.rs`).  The reads, writes and flushes of one file by one client run
interleaved: a step is the part of an operation between two await points, or the work of the
server on a call.  A call fails, is lost, or is carried out without an answer at any time.

A state records all contents that the file has had on the server, the number of the last one
that a flush has written before it returned, and the contents that reads have returned with the
number that was valid when they started.  A read should not return a content that is older than
that (`Fresh`).  It does not check whether a flush has returned since the server answered it,
and then what it puts into the cache is too old for all later reads.  `fresh_iff_stepOk` says
that this is the only way to get there.
-/
import Racfs.Fuse.Cache
import Racfs.Fuse.Merge
import Racfs.Lib.Run
import Racfs.MemFs.Model

namespace Racfs.Fuse.StaleFill

/-! ### States -/

/-- The function that waits for `flush_write_back`. -/
inductive Caller
  /-- `release_async`, or `write_async` with a small write. -/
  | returns
  /-- `write_async` with a write that it sends itself. -/
  | largeWrite (run : Run)

/-- An operation that waits. -/
inductive Task
  /-- `read_async`, with the number of the content that it may not fall behind and the answer of
  the server. -/
  | read (since : ℕ) (answer : Option Bytes)
  /-- `flush_write_back`: the runs that are left, and the number of the content that it has
  written last. -/
  | flush (runs : List Run) (last : ℕ) (caller : Caller)
  /-- The call of `write_async` for a large write, until it is answered. -/
  | write (run : Option Run)

/-- A read that has returned. -/
structure Returned where
  since : ℕ
  content : Bytes

/-- The cache, the waiting operations, and the record of what has happened. -/
structure State (M L : Type*) where
  cache : FuseCache M L
  tasks : AssocMap ℕ Task
  /-- The contents of the file on the server, the present one last. -/
  history : List Bytes
  /-- The number of the last content that was written by a flush that has returned. -/
  flushed : ℕ
  returned : List Returned

/-- How a write ends on the server. -/
inductive Answer
  | ok
  /-- It is not carried out. -/
  | lost
  /-- It is carried out, and the client does not learn it. -/
  | unanswered

namespace State

variable {M L : Type*} (path : PathBuf) (apply : Bytes → Bytes → Int64 → Bytes) (s : State M L)

/-- Nothing has happened yet. -/
def new (content : Bytes) : State M L := ⟨.new, ∅, [content], 0, []⟩

/-- The operation waits. -/
def await (t : ℕ) (task : Task) : State M L := { s with tasks := s.tasks.insert t task }

/-- The operation has returned. -/
def finish (t : ℕ) : State M L := { s with tasks := s.tasks.erase t }

/-- The server has carried out a write. -/
def served (run : Run) : State M L :=
  { s with history := s.history ++
      [apply (s.history.getLastD []) (fromUtf8Lossy run.2) run.1.toInt64] }

/-! ### Steps -/

/-- `read_async` up to its call: the check of the cache. -/
def startRead (t : ℕ) : State M L :=
  match s.cache.getFileContent path with
  | some cached => { s with returned := ⟨s.flushed, cached⟩ :: s.returned }
  | none => s.await t (.read s.flushed none)

/-- The end of `read_async` after a successful call. -/
def finishRead (t since : ℕ) (content : Bytes) : State M L :=
  { s with
    cache := s.cache.putFileContent path content
    returned := ⟨since, content⟩ :: s.returned }.finish t

/-- `flush_write_back` has returned to its caller with success. -/
def flushReturned (t : ℕ) : Caller → State M L
  | .returns => s.finish t
  | .largeWrite run => s.await t (.write (some run))

/-- `flush_write_back` up to its first call. -/
def startFlush (t : ℕ) (caller : Caller) : State M L :=
  let r := s.cache.takePendingWrites path
  let s := { s with cache := r.2 }
  if r.1.isEmpty then s.flushReturned t caller
  else s.await t (.flush (mergeWriteSegments (r.1.map Segment.pair)) 0 caller)

/-- `write_async` up to its first call. -/
def startWrite (t : ℕ) (offset : UInt64) (data : Bytes) : State M L :=
  if data.length ≤ DEFAULT_WRITE_BACK_MAX_CHUNK then
    let r := s.cache.pushWriteBack path ⟨offset, data, 0⟩
    let s := { s with cache := r.2 }
    if r.1 ≥ DEFAULT_WRITE_BACK_FLUSH_SIZE then s.startFlush path t .returns else s
  else s.startFlush path t (.largeWrite (offset, data))

/-- The call for a run has ended; `next` waits for what follows a success. -/
def answered (t : ℕ) (run : Run) (answer : Answer) (next : Task) : State M L :=
  match answer with
  | .ok => (s.served apply run).await t next
  | .lost => s.finish t
  | .unanswered => (s.served apply run).finish t

/-- The end of `flush_write_back` after its last call: the invalidation. -/
def finishFlush (t last : ℕ) (caller : Caller) : State M L :=
  { s with
    cache := s.cache.invalidate path
    flushed := max s.flushed last }.flushReturned t caller

/-- The end of `write_async` after the call for a large write. -/
def finishWrite (t : ℕ) : State M L := { s with cache := s.cache.invalidate path }.finish t

/-- A call of a waiting operation is carried out or fails, or the operation goes on. -/
def resume (t : ℕ) (answer : Answer) : Task → State M L
  | .read since none =>
    match answer with
    | .ok => s.await t (.read since (some (s.history.getLastD [])))
    | _ => s.finish t
  | .read since (some content) => s.finishRead path t since content
  | .flush (run :: runs) _ caller =>
    s.answered apply t run answer (.flush runs s.history.length caller)
  | .flush [] last caller => s.finishFlush path t last caller
  | .write (some run) => s.answered apply t run answer (.write none)
  | .write none => s.finishWrite path t

end State

/-- What can happen.  An operation that starts gets a number that is free. -/
inductive Event
  | read (t : ℕ)
  | write (t : ℕ) (offset : UInt64) (data : Bytes)
  | flush (t : ℕ)
  | resume (t : ℕ) (answer : Answer)

variable {M L : Type*} (path : PathBuf) (apply : Bytes → Bytes → Int64 → Bytes)

/-- One step. -/
def step (s : State M L) : Event → Option (State M L)
  | .read t => if s.tasks.contains t then none else some (s.startRead path t)
  | .write t offset data =>
    if s.tasks.contains t then none else some (s.startWrite path t offset data)
  | .flush t => if s.tasks.contains t then none else some (s.startFlush path t .returns)
  | .resume t answer => (s.tasks.get? t).map fun task => s.resume path apply t answer task

/-! ### Fresh contents -/

/-- The file has had the content, at the given number or later. -/
def Held (history : List Bytes) (since : ℕ) (content : Bytes) : Prop :=
  ∃ v, since ≤ v ∧ history[v]? = some content

lemma Held.append {history : List Bytes} {since : ℕ} {content : Bytes}
    (h : Held history since content) (more : List Bytes) :
    Held (history ++ more) since content := by
  obtain ⟨v, hle, hv⟩ := h
  have hlt : v < history.length := (List.getElem?_eq_some_iff.1 hv).1
  exact ⟨v, hle, (List.getElem?_append_left hlt).trans hv⟩

/-- The present content. -/
lemma held_getLastD {history : List Bytes} {since : ℕ} (h : since < history.length) :
    Held history since (history.getLastD []) := by
  have hne : history ≠ [] := List.ne_nil_of_length_pos (by omega)
  refine ⟨history.length - 1, by omega, ?_⟩
  rw [List.getLastD_eq_getLast?, List.getLast?_eq_getElem?]
  rw [List.getElem?_eq_getElem (by omega), Option.getD_some]

/-- No read returns a content that is older than the last write of a flush that had returned
when it started: none of those that have returned, and none that starts now and finds a content
in the cache. -/
structure Fresh (s : State M L) : Prop where
  returned : ∀ r ∈ s.returned, Held s.history r.since r.content
  cached : ∀ content, s.cache.getFileContent path = some content →
    Held s.history s.flushed content

/-- A read that keeps the answer of the server does not bring back a content from before the
last write of a flush that has returned. -/
def StepOk (s : State M L) : Event → Prop
  | .resume t _ => ∀ since content, s.tasks.get? t = some (.read since (some content)) →
      Held s.history s.flushed content
  | _ => True

/-- What is known of a waiting operation. -/
def TaskOk (history : List Bytes) : Task → Prop
  | .read since none => since < history.length
  | .read since (some content) => Held history since content
  | .flush _ last _ => last < history.length
  | .write _ => True

lemma TaskOk.append {history : List Bytes} {task : Task} (h : TaskOk history task)
    (more : List Bytes) : TaskOk (history ++ more) task := by
  have hlen : history.length ≤ (history ++ more).length := by simp
  cases task with
  | read since answer =>
    cases answer with
    | none => exact h.trans_le hlen
    | some content => exact Held.append h more
  | flush runs last caller => exact h.trans_le hlen
  | write run => trivial

/-- The invariant. -/
structure Inv (s : State M L) : Prop extends Fresh path s where
  flushed_lt : s.flushed < s.history.length
  tasks : ∀ t task, s.tasks.get? t = some task → TaskOk s.history task

variable {path apply}

namespace Inv

variable {s : State M L}

lemma new (content : Bytes) : Inv path (State.new content : State M L) where
  returned _ hr := nomatch hr
  cached _ hc := nomatch hc
  flushed_lt := Nat.one_pos
  tasks _ _ ht := nomatch ht

lemma await (h : Inv path s) (t : ℕ) (task : Task) (htask : TaskOk s.history task) :
    Inv path (s.await t task) where
  returned := h.returned
  cached := h.cached
  flushed_lt := h.flushed_lt
  tasks t' task' ht' := by
    rw [State.await, AssocMap.get?_insert] at ht'
    split_ifs at ht' with heq
    · cases ht'
      exact htask
    · exact h.tasks t' task' ht'

lemma finish (h : Inv path s) (t : ℕ) : Inv path (s.finish t) where
  returned := h.returned
  cached := h.cached
  flushed_lt := h.flushed_lt
  tasks t' task' ht' := by
    exact h.tasks t' task' (AssocMap.get?_of_get?_erase ht')

lemma served (h : Inv path s) (run : Run) : Inv path (s.served apply run) where
  returned r hr := (h.returned r hr).append _
  cached content hc := (h.cached content hc).append _
  flushed_lt := by
    have hlt := h.flushed_lt
    have hlen : s.history.length < (s.served apply run).history.length := by simp [State.served]
    exact hlt.trans hlen
  tasks t task ht := (h.tasks t task ht).append _

/-- The cached content may be dropped, and the rest of the cache changed. -/
lemma cache (h : Inv path s) {c : FuseCache M L}
    (hc : ∀ content, c.getFileContent path = some content →
      s.cache.getFileContent path = some content) : Inv path { s with cache := c } where
  returned := h.returned
  cached content hcontent := h.cached content (hc content hcontent)
  flushed_lt := h.flushed_lt
  tasks := h.tasks

lemma startRead (h : Inv path s) (t : ℕ) : Inv path (s.startRead path t) := by
  rw [State.startRead]
  cases hcached : s.cache.getFileContent path with
  | none => exact h.await t (.read s.flushed none) h.flushed_lt
  | some cached =>
    refine ⟨⟨fun r hr => ?_, h.cached⟩, h.flushed_lt, h.tasks⟩
    rcases List.mem_cons.1 hr with rfl | hr
    · exact h.cached cached hcached
    · exact h.returned r hr

/-- The read is the step that needs the condition. -/
lemma finishRead (h : Inv path s) {t since : ℕ} {content : Bytes}
    (hsince : Held s.history since content) (hok : Held s.history s.flushed content) :
    Inv path (s.finishRead path t since content) := by
  have hkept : Inv path
      { s with
        cache := s.cache.putFileContent path content
        returned := ⟨since, content⟩ :: s.returned } := by
    refine ⟨⟨fun r hr => ?_, fun other hother => ?_⟩, h.flushed_lt, h.tasks⟩
    · rcases List.mem_cons.1 hr with rfl | hr
      · exact hsince
      · exact h.returned r hr
    · simp only [FuseCache.getFileContent, FuseCache.putFileContent,
        AssocMap.get?_insert_self] at hother
      rw [← Option.some.inj hother]
      exact hok
  exact hkept.finish t

lemma flushReturned (h : Inv path s) (t : ℕ) (caller : Caller) :
    Inv path (s.flushReturned t caller) := by
  cases caller with
  | returns => exact h.finish t
  | largeWrite run => exact h.await t (.write (some run)) trivial

lemma startFlush (h : Inv path s) (t : ℕ) (caller : Caller) :
    Inv path (s.startFlush path t caller) := by
  have htaken : Inv path { s with cache := (s.cache.takePendingWrites path).2 } := by
    refine h.cache fun content hc => ?_
    rw [FuseCache.takePendingWrites] at hc
    cases hget : s.cache.writeBack.get? path with
    | none => rwa [hget] at hc
    | some e =>
      rw [hget] at hc
      exact hc
  rw [State.startFlush]
  split_ifs
  · exact htaken.flushReturned t caller
  · exact htaken.await t _ ((Nat.zero_le _).trans_lt h.flushed_lt)

lemma startWrite (h : Inv path s) (t : ℕ) (offset : UInt64) (data : Bytes) :
    Inv path (s.startWrite path t offset data) := by
  have hpushed : Inv path
      { s with cache := (s.cache.pushWriteBack path ⟨offset, data, 0⟩).2 } :=
    h.cache fun content hc => hc
  rw [State.startWrite]
  split_ifs
  · simp only
    split_ifs
    · exact hpushed.startFlush t .returns
    · exact hpushed
  · exact h.startFlush t _

lemma answered (h : Inv path s) (t : ℕ) (run : Run) (answer : Answer) {next : Task}
    (hnext : TaskOk (s.served apply run).history next) :
    Inv path (s.answered apply t run answer next) := by
  cases answer with
  | ok => exact (h.served run).await t next hnext
  | lost => exact h.finish t
  | unanswered => exact (h.served run).finish t

/-- Nothing is cached after the invalidation, so the number may grow. -/
lemma invalidate (h : Inv path s) {flushed : ℕ} (hlt : flushed < s.history.length) :
    Inv path { s with cache := s.cache.invalidate path, flushed := flushed } where
  returned := h.returned
  cached content hc := by
    simp [FuseCache.getFileContent, FuseCache.invalidate] at hc
  flushed_lt := hlt
  tasks := h.tasks

lemma resume (h : Inv path s) {t : ℕ} {answer : Answer} {task : Task}
    (htask : s.tasks.get? t = some task) (hok : StepOk s (.resume t answer)) :
    Inv path (s.resume path apply t answer task) := by
  have hknown := h.tasks t task htask
  cases task with
  | read since given =>
    cases given with
    | none =>
      cases answer with
      | ok => exact h.await t (.read since (some _)) (held_getLastD hknown)
      | lost => exact h.finish t
      | unanswered => exact h.finish t
    | some content => exact h.finishRead hknown (hok since content htask)
  | flush runs last caller =>
    cases runs with
    | nil => exact (h.invalidate (max_lt h.flushed_lt hknown)).flushReturned t caller
    | cons run runs =>
      refine h.answered t run answer ?_
      show s.history.length < (s.served apply run).history.length
      simp [State.served]
  | write sent =>
    cases sent with
    | none => exact (h.invalidate h.flushed_lt).finish t
    | some run => exact h.answered t run answer trivial

end Inv

lemma inv_step {s s' : State M L} {e : Event} (h : Inv path s) (hok : StepOk s e)
    (hs' : step path apply s e = some s') : Inv path s' := by
  cases e with
  | read t =>
    obtain ⟨-, hs'⟩ := Option.ite_none_left_eq_some.1 hs'
    rw [← Option.some.inj hs']
    exact h.startRead t
  | write t offset data =>
    obtain ⟨-, hs'⟩ := Option.ite_none_left_eq_some.1 hs'
    rw [← Option.some.inj hs']
    exact h.startWrite t offset data
  | flush t =>
    obtain ⟨-, hs'⟩ := Option.ite_none_left_eq_some.1 hs'
    rw [← Option.some.inj hs']
    exact h.startFlush t .returns
  | resume t answer =>
    obtain ⟨task, htask, rfl⟩ := Option.map_eq_some_iff.1 hs'
    exact h.resume htask hok

/-- A step that leads to a state with fresh contents is one under the condition. -/
lemma stepOk_of_fresh {s s' : State M L} {e : Event} (hs' : step path apply s e = some s')
    (h : Fresh path s') : StepOk s e := by
  cases e with
  | read t => trivial
  | write t offset data => trivial
  | flush t => trivial
  | resume t answer =>
    intro since content htask
    simp only [step, htask, Option.map_some, Option.some.injEq] at hs'
    subst hs'
    -- the content is in the cache now
    exact h.cached content (AssocMap.get?_insert_self _ _ _)

/-- In all runs, contents stay fresh exactly as long as no read keeps a content that is older
than the last write of a flush that has returned. -/
theorem fresh_iff_stepOk (content : Bytes) (evs : List Event) :
    StatesMeet (step path apply) (Fresh path) (State.new content : State M L) evs ↔
      StepsMeet (step path apply) StepOk (State.new content : State M L) evs :=
  statesMeet_iff_of_invariant (fun _ h => h.toFresh) (fun _ _ _ _ hs' h => stepOk_of_fresh hs' h)
    (fun _ _ _ h hok hs' => inv_step h hok hs') (Inv.new content)

/-- A read is answered, a write is flushed, and the read keeps its answer; another read
starts. -/
def overtakenRun : List Event :=
  [.read 0, .resume 0 .ok, .write 1 0 (ascii "x"), .flush 1, .resume 1 .ok, .resume 1 .ok,
    .resume 0 .ok, .read 2]

/-- One step on the file `/f` of an in-memory server. -/
def memStep : State Unit Unit → Event → Option (State Unit Unit) :=
  step ⟨ascii "/f"⟩ fun old data offset => MemFs.MemFS.writeData old data offset .NONE

/-- The last read of this run returns the empty content, from before the write of the flush that
had returned when it started. -/
theorem not_fresh_overtakenRun :
    (∃ s, run memStep (.new []) overtakenRun = some s ∧ s.history = [[], ascii "x"] ∧
      s.flushed = 1 ∧ s.returned.head? = some ⟨1, []⟩) ∧
    ¬ StatesMeet memStep (Fresh ⟨ascii "/f"⟩) (.new []) overtakenRun := by
  refine ⟨⟨_, rfl, rfl, rfl, rfl⟩, fun h => ?_⟩
  have hfresh := (((((((h.2 _ rfl).2 _ rfl).2 _ rfl).2 _ rfl).2 _ rfl).2 _ rfl).2 _ rfl).2 _ rfl
  obtain ⟨v, hv, hget⟩ := hfresh.returned ⟨1, []⟩ (List.mem_cons_self)
  have hhistory : [[], ascii "x"][v]? = some [] := hget
  match v, hv, hhistory with
  | 1, _, heq => exact absurd heq (by decide)
  | _ + 2, _, heq => exact absurd heq (by simp)

end Racfs.Fuse.StaleFill
