/-
# Writes, flushes and the operations that interrupt them

The operations of `RacfsAsyncFs` (`racfs-fuse/src/async_fs.rs`) that touch the write-back
buffer, as a step relation.  A step is the part of an operation between two await points; an
operation that waits for the server is a task, and the answer of the server, success or
failure, is the event that resumes it.  Any number of tasks can be waiting.

Besides the tables of the program a state records which writes have been acknowledged, with
the path that their file has now, and which segments were carried by a call that the server
answered with success.  A rename moves the acknowledged writes of a file to its new path, and a
file that is overwritten by it is gone; an unlink and a truncation that the server has
answered with success take the writes of the file, or those that reach behind its new end, out
of the record.

No acknowledged write should be lost (`Safe`): each is in the buffer of its file, or in a run
that a waiting flush has sent or will send, or has been delivered.  A flush takes the segments
out of the buffer and ends with an invalidation that drops the buffer again; so do other
operations, and a flush that fails forgets what it has taken.  `no_acked_write_lost` says that
in all runs in which these find no acknowledged segment to drop, none is lost.
-/
import Racfs.Fuse.Cache
import Racfs.Fuse.InodeManager
import Racfs.Fuse.Merge
import Racfs.Lib.Run

namespace Racfs.Fuse.WriteBack

/-! ### States -/

/-- The function that waits for `flush_write_back`. -/
inductive Caller
  /-- `write_async` with a small write that is in the buffer. -/
  | write (seg : Segment)
  /-- `write_async` with a write that it sends itself. -/
  | largeWrite (seg : Segment)
  /-- `release_async`. -/
  | release
deriving DecidableEq

/-- An operation that waits for the answer of the server. -/
inductive Task
  /-- `flush_write_back`: the runs that are left, the first one sent, and what was taken. -/
  | flush (path : PathBuf) (runs : List Run) (taken : List Segment) (caller : Caller)
  /-- The call of `write_async` for a large write. -/
  | write (path : PathBuf) (seg : Segment)
  | setxattr (path : PathBuf)
  | truncate (path : PathBuf) (size : UInt64)
  /-- The `stat` at the end of `truncate_async`. -/
  | truncateStat
  | rename (oldPath newPath : PathBuf)
  | unlink (path : PathBuf)

/-- An acknowledged write, with the path that its file has now. -/
structure Ack where
  path : PathBuf
  seg : Segment

/-- The tables, the waiting operations, and the record of what has happened to the writes. -/
structure State (M L : Type*) where
  inodes : InodeManager
  cache : FuseCache M L
  tasks : AssocMap ℕ Task
  /-- The number of writes so far. -/
  writes : ℕ
  /-- The acknowledged writes of files that are still there. -/
  acked : List Ack
  /-- The segments that were carried by a successful call. -/
  delivered : List Segment

namespace State

variable {M L : Type*} (s : State M L)

/-- Nothing has happened yet. -/
def new : State M L := ⟨.new, .new, ∅, 0, [], []⟩

/-- The task waits for the server. -/
def await (t : ℕ) (task : Task) : State M L := { s with tasks := s.tasks.insert t task }

/-- The task has returned. -/
def finish (t : ℕ) : State M L := { s with tasks := s.tasks.erase t }

/-- A write has returned with success. -/
def ack (path : PathBuf) (seg : Segment) : State M L :=
  { s with acked := ⟨path, seg⟩ :: s.acked }

/-- A call that carried these segments has succeeded. -/
def deliver (segs : List Segment) : State M L := { s with delivered := segs ++ s.delivered }

/-- Drop what is cached for a path. -/
def invalidate (path : PathBuf) : State M L := { s with cache := s.cache.invalidate path }

/-- The file at a path has been cut off. -/
def cut (path : PathBuf) (size : UInt64) : State M L :=
  { s with acked := s.acked.filter fun a =>
      !(a.path == path && decide (size.toNat < a.seg.offset.toNat + a.seg.data.length)) }

/-- The file at a path is gone. -/
def gone (path : PathBuf) : State M L :=
  { s with acked := s.acked.filter fun a => !(a.path == path) }

/-- The file at the old path is at the new path now. -/
def moved (oldPath newPath : PathBuf) : State M L :=
  let kept := s.acked.filter fun a => a.path == oldPath || !(a.path == newPath)
  { s with acked := kept.map fun a => if a.path == oldPath then { a with path := newPath } else a }

/-! ### Steps -/

/-- `flush_write_back` has returned to its caller. -/
def flushReturned (t : ℕ) (path : PathBuf) (ok : Bool) : Caller → State M L
  | .write seg => if ok then (s.ack path seg).finish t else s.finish t
  | .largeWrite seg => if ok then s.await t (.write path seg) else s.finish t
  | .release => s.finish t

/-- `flush_write_back` up to its first call. -/
def startFlush (t : ℕ) (path : PathBuf) (caller : Caller) : State M L :=
  let r := s.cache.takePendingWrites path
  let s := { s with cache := r.2 }
  -- without segments it returns before the invalidation at its end
  if r.1.isEmpty then s.flushReturned t path true caller
  else s.await t (.flush path (mergeWriteSegments (r.1.map Segment.pair)) r.1 caller)

/-- `write_async` up to its first call. -/
def startWrite (t : ℕ) (path : PathBuf) (offset : UInt64) (data : Bytes) : State M L :=
  let seg : Segment := ⟨offset, data, s.writes⟩
  let s := { s with writes := s.writes + 1 }
  if data.length ≤ DEFAULT_WRITE_BACK_MAX_CHUNK then
    let r := s.cache.pushWriteBack path seg
    let s := { s with cache := r.2 }
    if r.1 ≥ DEFAULT_WRITE_BACK_FLUSH_SIZE then s.startFlush t path (.write seg)
    else s.ack path seg
  -- a large write is sent by its own call, after the buffer
  else s.startFlush t path (.largeWrite seg)

/-- `unlink_async` up to its call: the tables are changed first. -/
def startUnlink (t : ℕ) (path : PathBuf) : State M L :=
  let inodes :=
    match s.inodes.getInode path with
    | some ino => s.inodes.remove ino
    | none => s.inodes
  ({ s with inodes := inodes }.invalidate path).await t (.unlink path)

/-- The end of `rename_async` after a successful call. -/
def finishRename (t : ℕ) (oldPath newPath : PathBuf) : State M L :=
  let s := s.moved oldPath newPath
  let s := { s with cache := s.cache.invalidateRename oldPath newPath }
  let inodes :=
    match s.inodes.getInode oldPath with
    | some ino => s.inodes.remove ino
    | none => s.inodes
  { s with inodes := (inodes.allocate newPath).2 }.finish t

/-- The server answers the call of a task. -/
def resume (t : ℕ) (ok : Bool) : Task → Option (State M L)
  | .flush path runs taken caller =>
    match runs with
    | [] => none
    | run :: rest =>
      if ok then
        let s := s.deliver (taken.filter fun seg => Covers run seg.pair)
        -- the invalidation also drops what was buffered since the segments were taken
        if rest.isEmpty then some ((s.invalidate path).flushReturned t path true caller)
        else some (s.await t (.flush path rest taken caller))
      else some (s.flushReturned t path false caller)
  | .write path seg =>
    -- here too: the flush before this call is over, and other writes may be buffered
    if ok then some ((((s.deliver [seg]).invalidate path).ack path seg).finish t)
    else some (s.finish t)
  | .setxattr path => some (if ok then (s.invalidate path).finish t else s.finish t)
  | .truncate path size =>
    some (if ok then ((s.cut path size).invalidate path).await t .truncateStat else s.finish t)
  | .truncateStat => some (s.finish t)
  | .rename oldPath newPath =>
    some (if ok then s.finishRename t oldPath newPath else s.finish t)
  | .unlink path => some (if ok then (s.gone path).finish t else s.finish t)

end State

/-- The start of an operation, by a new task, or the answer of the server to a task. -/
inductive Event
  /-- `lookup_async` or `create_async` gives a path an inode. -/
  | lookup (path : PathBuf)
  | write (t : ℕ) (ino offset : UInt64) (data : Bytes)
  | release (t : ℕ) (ino : UInt64)
  | setxattr (t : ℕ) (ino : UInt64)
  | truncate (t : ℕ) (ino size : UInt64)
  | rename (t : ℕ) (parent : UInt64) (name : Bytes) (newparent : UInt64) (newname : Bytes)
  | unlink (t : ℕ) (parent : UInt64) (name : Bytes)
  | resume (t : ℕ) (ok : Bool)

variable {M L : Type*}

/-- The path of a name in the directory with an inode. -/
def childPath (s : State M L) (parent : UInt64) (name : Bytes) : Option PathBuf :=
  (s.inodes.getPath parent).map fun p => p.push ⟨fromUtf8Lossy name⟩

/-- Start an operation on a path by a task that is not waiting; without a path it fails. -/
def start (s : State M L) (t : ℕ) (path : Option PathBuf) (f : PathBuf → State M L) :
    Option (State M L) :=
  if s.tasks.contains t then none else some ((path.map f).getD s)

/-- One step. -/
def step (s : State M L) : Event → Option (State M L)
  | .lookup path => some { s with inodes := (s.inodes.allocate path).2 }
  | .write t ino offset data =>
    start s t (s.inodes.getPath ino) fun path => s.startWrite t path offset data
  | .release t ino => start s t (s.inodes.getPath ino) fun path => s.startFlush t path .release
  | .setxattr t ino => start s t (s.inodes.getPath ino) fun path => s.await t (.setxattr path)
  | .truncate t ino size =>
    start s t (s.inodes.getPath ino) fun path => s.await t (.truncate path size)
  | .rename t parent name newparent newname =>
    start s t (childPath s parent name) fun oldPath =>
      ((childPath s newparent newname).map fun newPath =>
        s.await t (.rename oldPath newPath)).getD s
  | .unlink t parent name => start s t (childPath s parent name) fun path => s.startUnlink t path
  | .resume t ok => (s.tasks.get? t).bind fun task => s.resume t ok task

/-! ### The property -/

/-- A run that the task has sent or will send covers the segment. -/
def Task.Carries (seg : Segment) : Task → Prop
  | .flush _ runs taken _ => seg ∈ taken ∧ ∃ run ∈ runs, Covers run seg.pair
  | _ => False

/-- The write is buffered for its file, in flight, or delivered. -/
def Kept (s : State M L) (a : Ack) : Prop :=
  a.seg ∈ s.cache.pending a.path ∨
    (∃ t task, s.tasks.get? t = some task ∧ task.Carries a.seg) ∨
    a.seg ∈ s.delivered

/-- No acknowledged write is lost. -/
def Safe (s : State M L) : Prop := ∀ a ∈ s.acked, Kept s a

/-- No acknowledged write is in the buffer of a path. -/
def NoPending (s : State M L) (path : PathBuf) : Prop :=
  ∀ a ∈ s.acked, a.path == path → a.seg ∉ s.cache.pending path

/-- What the answer of the server to a task must meet. -/
def ResumeOk (s : State M L) (ok : Bool) : Task → Prop
  | .flush path runs taken _ =>
    if ok then runs.length = 1 → NoPending s path
    else ∀ a ∈ s.acked, a.seg ∈ taken → a.seg ∈ s.delivered
  | .write path _ => ok = true → NoPending s path
  | .setxattr path => ok = true → NoPending s path
  | .truncate path size => ok = true → ∀ a ∈ s.acked, a.path == path →
    a.seg ∈ s.cache.pending path → size.toNat < a.seg.offset.toNat + a.seg.data.length
  | .truncateStat => True
  | .rename oldPath _ => ok = true → NoPending s oldPath
  | .unlink _ => True

/-- What a step must meet: an invalidation finds no acknowledged write in the buffer (a
truncation only such as reach behind the new end), and a flush that fails has delivered the
acknowledged writes that it took. -/
def StepOk (s : State M L) : Event → Prop
  | .unlink _ parent name => ∀ path, childPath s parent name = some path → NoPending s path
  | .resume t ok => ∀ task, s.tasks.get? t = some task → ResumeOk s ok task
  | _ => True

/-! ### The invariant -/

/-- What a waiting flush knows about the segments that it took. -/
def TaskOk (delivered : List Segment) : Task → Prop
  | .flush _ runs taken caller =>
    (∀ seg ∈ taken, seg ∈ delivered ∨ ∃ run ∈ runs, Covers run seg.pair) ∧
      ∀ seg, caller = .write seg → seg ∈ taken
  | _ => True

/-- No acknowledged write is lost, and the flushes know what they took. -/
structure Inv (s : State M L) : Prop where
  safe : Safe s
  tasks : ∀ t task, s.tasks.get? t = some task → TaskOk s.delivered task

/-- Everything that the task took has been delivered, as far as it was acknowledged. -/
def Settled (s : State M L) (t : ℕ) : Prop :=
  ∀ task, s.tasks.get? t = some task → ∀ a ∈ s.acked, task.Carries a.seg → a.seg ∈ s.delivered

lemma Settled.of_none {s : State M L} {t : ℕ} (h : s.tasks.get? t = none) : Settled s t := by
  intro task ht
  rw [h] at ht
  cases ht

lemma Settled.of_some {s : State M L} {t : ℕ} {task : Task} (h : s.tasks.get? t = some task)
    (hcarry : ∀ a ∈ s.acked, task.Carries a.seg → a.seg ∈ s.delivered) : Settled s t := by
  intro task' ht
  rw [h] at ht
  cases ht
  exact hcarry

lemma TaskOk.mono {d d' : List Segment} (hd : ∀ seg ∈ d, seg ∈ d') {task : Task}
    (h : TaskOk d task) : TaskOk d' task := by
  cases task with
  | flush path runs taken caller =>
    exact ⟨fun seg hseg => (h.1 seg hseg).imp_left (hd seg), h.2⟩
  | _ => trivial

namespace Inv

variable {s : State M L}

lemma new : Inv (State.new : State M L) :=
  ⟨fun a ha => by simp [State.new] at ha, fun t task h => by simp [State.new] at h⟩

lemma deliver (h : Inv s) (segs : List Segment) : Inv (s.deliver segs) where
  safe := by
    intro a ha
    rcases h.safe a ha with hbuf | hfly | hdel
    · exact Or.inl hbuf
    · exact Or.inr (Or.inl hfly)
    · exact Or.inr (Or.inr (List.mem_append_right _ hdel))
  tasks t task ht := (h.tasks t task ht).mono fun _ hseg => List.mem_append_right _ hseg

lemma ack (h : Inv s) {path : PathBuf} {seg : Segment}
    (hseg : seg ∈ s.cache.pending path ∨ seg ∈ s.delivered) : Inv (s.ack path seg) where
  safe := by
    intro a ha
    rcases List.mem_cons.1 ha with rfl | ha
    · exact hseg.imp_right Or.inr
    · exact h.safe a ha
  tasks := h.tasks

lemma invalidate (h : Inv s) {path : PathBuf} (hno : NoPending s path) :
    Inv (s.invalidate path) where
  safe := by
    intro a ha
    rcases h.safe a ha with hbuf | hrest
    · refine Or.inl ?_
      show a.seg ∈ (s.cache.invalidate path).pending a.path
      rw [FuseCache.pending_invalidate, if_neg]
      · exact hbuf
      · intro heq
        have hpath : (a.path == path) = true := by rw [BEq.comm]; exact heq
        refine hno a ha hpath ?_
        rwa [FuseCache.pending_congr _ heq]
    · exact Or.inr hrest
  tasks := h.tasks

/-- Tasks come and go: what one of them carried is delivered, or is carried by another. -/
lemma withTasks (h : Inv s) {tasks : AssocMap ℕ Task}
    (hcarry : ∀ u old, s.tasks.get? u = some old → ∀ a ∈ s.acked, old.Carries a.seg →
      a.seg ∈ s.delivered ∨ ∃ v task, tasks.get? v = some task ∧ task.Carries a.seg)
    (htasks : ∀ u task, tasks.get? u = some task → TaskOk s.delivered task) :
    Inv { s with tasks := tasks } where
  safe := by
    intro a ha
    rcases h.safe a ha with hbuf | ⟨u, old, hu, hold⟩ | hdel
    · exact Or.inl hbuf
    · exact Or.inr (hcarry u old hu a ha hold).symm
    · exact Or.inr (Or.inr hdel)
  tasks := htasks

/-- A task goes on to another call: what it carried is delivered or still carried. -/
lemma await (h : Inv s) {t : ℕ} {task : Task}
    (hold : ∀ old, s.tasks.get? t = some old → ∀ a ∈ s.acked, old.Carries a.seg →
      a.seg ∈ s.delivered ∨ task.Carries a.seg)
    (hnew : TaskOk s.delivered task) : Inv (s.await t task) := by
  refine h.withTasks (fun u old hu a ha hcarry => ?_) fun u task' hu => ?_
  · by_cases hut : t = u
    · subst hut
      refine (hold old hu a ha hcarry).imp_right fun hc => ⟨t, task, ?_, hc⟩
      exact AssocMap.get?_insert_self _ _ _
    · refine Or.inr ⟨u, old, ?_, hcarry⟩
      rw [AssocMap.get?_insert, if_neg (by simpa using hut), hu]
  · rw [AssocMap.get?_insert] at hu
    split_ifs at hu with hut
    · cases hu
      exact hnew
    · exact h.tasks u task' hu

lemma finish (h : Inv s) {t : ℕ} (hset : Settled s t) : Inv (s.finish t) := by
  refine h.withTasks (fun u old hu a ha hcarry => ?_) fun u task hu => ?_
  · by_cases hut : t = u
    · subst hut
      exact Or.inl (hset old hu a ha hcarry)
    · refine Or.inr ⟨u, old, ?_, hcarry⟩
      rw [AssocMap.get?_erase, if_neg (by simpa using hut), hu]
  · exact h.tasks u task (AssocMap.get?_of_get?_erase hu)

/-- The record loses writes; nothing else changes. -/
lemma filter (h : Inv s) (p : Ack → Bool) : Inv { s with acked := s.acked.filter p } :=
  ⟨fun a ha => h.safe a (List.mem_of_mem_filter ha), h.tasks⟩

/-- The inode tables and the count of the writes do not matter. -/
lemma congr (h : Inv s) (inodes : InodeManager) (writes : ℕ) :
    Inv { s with inodes := inodes, writes := writes } :=
  ⟨h.safe, h.tasks⟩

/-- The buffers grow. -/
lemma cache (h : Inv s) {c : FuseCache M L}
    (hc : ∀ q, ∀ seg ∈ s.cache.pending q, seg ∈ c.pending q) : Inv { s with cache := c } where
  safe a ha := (h.safe a ha).imp_left (hc a.path a.seg)
  tasks := h.tasks

lemma flushReturned (h : Inv s) {t : ℕ} (hset : Settled s t) {path : PathBuf} {ok : Bool}
    {caller : Caller} (hcaller : ∀ seg, caller = .write seg → ok = true → seg ∈ s.delivered) :
    Inv (s.flushReturned t path ok caller) := by
  cases caller with
  | write seg =>
    cases ok with
    | true =>
      have hdel : seg ∈ s.delivered := hcaller seg rfl rfl
      refine (h.ack (Or.inr hdel)).finish ?_
      intro task ht a ha hcarry
      rcases List.mem_cons.1 ha with rfl | ha
      · exact hdel
      · exact hset task ht a ha hcarry
    | false => exact h.finish hset
  | largeWrite seg =>
    cases ok with
    | true => exact h.await (fun old ht a ha hc => Or.inl (hset old ht a ha hc)) trivial
    | false => exact h.finish hset
  | release => exact h.finish hset

/-- The segments go from the buffer to the flush. -/
lemma startFlush (h : Inv s) {t : ℕ} (hfree : s.tasks.get? t = none) {path : PathBuf}
    {caller : Caller} (hcaller : ∀ seg, caller = .write seg → seg ∈ s.cache.pending path) :
    Inv (s.startFlush t path caller) := by
  simp only [State.startFlush, FuseCache.takePendingWrites_fst]
  split_ifs with hempty
  · -- nothing is taken: the buffers stay as they are
    rw [List.isEmpty_iff] at hempty
    have hcache : Inv { s with cache := (s.cache.takePendingWrites path).2 } := by
      refine h.cache fun q seg hseg => ?_
      rw [FuseCache.pending_takePendingWrites, if_neg]
      · exact hseg
      · intro hq
        rw [← FuseCache.pending_congr _ hq, hempty] at hseg
        cases hseg
    refine hcache.flushReturned (.of_none hfree) fun seg hseg _ => ?_
    exact absurd (hcaller seg hseg) (by simp [hempty])
  · have hcover : ∀ seg ∈ s.cache.pending path,
        ∃ run ∈ mergeWriteSegments ((s.cache.pending path).map Segment.pair),
          Covers run seg.pair :=
      fun seg hseg => exists_covers_merge (List.mem_map_of_mem hseg)
    constructor
    · intro a ha
      rcases h.safe a ha with hbuf | ⟨u, old, hu, hcarry⟩ | hdel
      · by_cases hpath : (path == a.path) = true
        · rw [← FuseCache.pending_congr _ hpath] at hbuf
          exact Or.inr (Or.inl ⟨t, _, AssocMap.get?_insert_self _ _ _, hbuf, hcover _ hbuf⟩)
        · refine Or.inl ?_
          show a.seg ∈ (s.cache.takePendingWrites path).2.pending a.path
          rw [FuseCache.pending_takePendingWrites, if_neg hpath]
          exact hbuf
      · refine Or.inr (Or.inl ⟨u, old, ?_, hcarry⟩)
        exact AssocMap.get?_insert_of_new hfree hu
      · exact Or.inr (Or.inr hdel)
    · intro u task hu
      change (s.tasks.insert t _).get? u = some task at hu
      rw [AssocMap.get?_insert] at hu
      split_ifs at hu
      · cases hu
        exact ⟨fun seg hseg => Or.inr (hcover seg hseg), hcaller⟩
      · exact h.tasks u task hu

lemma startWrite (h : Inv s) {t : ℕ} (hfree : s.tasks.get? t = none) (path : PathBuf)
    (offset : UInt64) (data : Bytes) : Inv (s.startWrite t path offset data) := by
  let seg : Segment := ⟨offset, data, s.writes⟩
  have hpushed : Inv { s with
      cache := (s.cache.pushWriteBack path seg).2, writes := s.writes + 1 } := by
    refine Inv.congr (s := { s with cache := _ }) (h.cache fun q seg' hseg' => ?_) _ _
    rw [FuseCache.pending_pushWriteBack]
    split_ifs
    · exact List.mem_append_left _ hseg'
    · exact hseg'
  have hmem : seg ∈ (s.cache.pushWriteBack path seg).2.pending path := by
    rw [FuseCache.pending_pushWriteBack, if_pos (by simp)]
    simp
  have hlarge : Inv { s with writes := s.writes + 1 } := h.congr _ _
  simp only [State.startWrite]
  split_ifs with hsmall hfull
  · refine hpushed.startFlush hfree fun seg' hseg' => ?_
    cases hseg'
    exact hmem
  · exact hpushed.ack (Or.inl hmem)
  · exact hlarge.startFlush hfree fun seg' hseg' => nomatch hseg'

lemma startUnlink (h : Inv s) {t : ℕ} (hfree : s.tasks.get? t = none) {path : PathBuf}
    (hno : NoPending s path) : Inv (s.startUnlink t path) := by
  have hinv : ∀ inodes : InodeManager, Inv ({ s with inodes := inodes }.invalidate path) :=
    fun inodes => (h.invalidate hno).congr inodes _
  exact (hinv _).await (fun old ht => absurd ht (by simp [State.invalidate, hfree])) trivial

/-- After a rename the writes of the file are in flight or delivered. -/
lemma finishRename (h : Inv s) {t : ℕ} (hset : Settled s t) {oldPath newPath : PathBuf}
    (hno : NoPending s oldPath) : Inv (s.finishRename t oldPath newPath) := by
  have hmoved : Inv { s.moved oldPath newPath with
      cache := s.cache.invalidateRename oldPath newPath } := by
    refine ⟨fun a ha => ?_, h.tasks⟩
    obtain ⟨b, hb, rfl⟩ := List.mem_map.1 ha
    obtain ⟨hb, hplace⟩ := List.mem_filter.1 hb
    by_cases hold : (b.path == oldPath) = true
    · simp only [hold, if_true]
      rcases h.safe b hb with hbuf | hrest
      · exact absurd (FuseCache.pending_congr _ hold ▸ hbuf) (hno b hb hold)
      · exact Or.inr hrest
    · simp only [if_neg hold]
      have hnew : ¬ (b.path == newPath) = true := by simpa [hold] using hplace
      refine (h.safe b hb).imp_left fun hbuf => ?_
      show b.seg ∈ (s.cache.invalidateRename oldPath newPath).pending b.path
      rw [FuseCache.pending_invalidateRename, if_neg]
      · exact hbuf
      · rw [BEq.comm, @BEq.comm _ _ _ newPath]
        tauto
  refine Inv.finish (hmoved.congr _ _) ?_
  intro task ht a ha hcarry
  obtain ⟨b, hb, rfl⟩ := List.mem_map.1 ha
  have hdel : b.seg ∈ s.delivered := by
    refine hset task ht b (List.mem_of_mem_filter hb) ?_
    split_ifs at hcarry <;> exact hcarry
  split_ifs <;> exact hdel

end Inv

/-! ### Steps and runs -/

/-- The server answers a call of a flush. -/
lemma inv_resume_flush {s s' : State M L} {t : ℕ} {ok : Bool} {path : PathBuf} {runs : List Run}
    {taken : List Segment} {caller : Caller} (h : Inv s)
    (htask : s.tasks.get? t = some (.flush path runs taken caller))
    (hok : ResumeOk s ok (.flush path runs taken caller))
    (hs' : s.resume t ok (.flush path runs taken caller) = some s') : Inv s' := by
  obtain ⟨htaken, hcaller⟩ := h.tasks t _ htask
  rcases runs with _ | ⟨run, rest⟩
  · cases hs'
  cases ok with
  | false =>
    cases hs'
    exact h.flushReturned (.of_some htask fun a ha hc => hok a ha hc.1) fun _ _ hfalse =>
      nomatch hfalse
  | true =>
    simp only [State.resume, if_true] at hs'
    have hsent : ∀ seg ∈ taken, Covers run seg.pair →
        seg ∈ (s.deliver (taken.filter fun seg => Covers run seg.pair)).delivered :=
      fun seg hseg hcov => List.mem_append_left _ (List.mem_filter.2 ⟨hseg, by simpa using hcov⟩)
    split_ifs at hs' with hrest
    · -- the last run: everything that was taken is delivered now
      cases hs'
      rw [List.isEmpty_iff] at hrest
      subst hrest
      have hall : ∀ seg ∈ taken,
          seg ∈ (s.deliver (taken.filter fun seg => Covers run seg.pair)).delivered := by
        intro seg hseg
        rcases htaken seg hseg with hdel | ⟨run', hrun', hcov⟩
        · exact List.mem_append_right _ hdel
        · rw [List.mem_singleton.1 hrun'] at hcov
          exact hsent seg hseg hcov
      exact ((h.deliver _).invalidate (hok rfl)).flushReturned
        (.of_some htask fun a _ hc => hall a.seg hc.1) fun seg hseg _ => hall seg (hcaller seg hseg)
    · -- other runs are left: what they cover is still in flight
      cases hs'
      have hstill : ∀ seg ∈ taken, (∃ run' ∈ run :: rest, Covers run' seg.pair) →
          seg ∈ (s.deliver (taken.filter fun seg => Covers run seg.pair)).delivered ∨
            ∃ run' ∈ rest, Covers run' seg.pair := by
        rintro seg hseg ⟨run', hrun', hcov⟩
        rcases List.mem_cons.1 hrun' with rfl | hrun'
        · exact Or.inl (hsent seg hseg hcov)
        · exact Or.inr ⟨run', hrun', hcov⟩
      refine (h.deliver _).await (fun old hold a ha hc => ?_) ⟨fun seg hseg => ?_, hcaller⟩
      · obtain rfl : Task.flush path (run :: rest) taken caller = old :=
          Option.some.inj (htask.symm.trans hold)
        exact (hstill a.seg hc.1 hc.2).imp_right fun hcov => ⟨hc.1, hcov⟩
      · rcases htaken seg hseg with hdel | hcov
        · exact Or.inl (List.mem_append_right _ hdel)
        · exact hstill seg hseg hcov

/-- The server answers a call of any task.  All tasks but flushes carry nothing. -/
lemma inv_resume {s s' : State M L} {t : ℕ} {ok : Bool} {task : Task} (h : Inv s)
    (htask : s.tasks.get? t = some task) (hok : ResumeOk s ok task)
    (hs' : s.resume t ok task = some s') : Inv s' := by
  have hfail : (∀ seg, ¬ task.Carries seg) → Inv (s.finish t) := fun hcarry =>
    h.finish (.of_some htask fun a _ hc => absurd hc (hcarry a.seg))
  cases task with
  | flush path runs taken caller => exact inv_resume_flush h htask hok hs'
  | write path seg =>
    cases ok with
    | false =>
      cases hs'
      exact hfail fun _ hc => hc
    | true =>
      cases hs'
      have hseg : seg ∈ ((s.deliver [seg]).invalidate path).delivered := List.mem_cons_self
      refine (((h.deliver [seg]).invalidate (hok rfl)).ack (Or.inr hseg)).finish ?_
      exact .of_some htask fun _ _ hc => nomatch hc
  | setxattr path =>
    cases ok with
    | false =>
      cases hs'
      exact hfail fun _ hc => hc
    | true =>
      cases hs'
      exact (h.invalidate (hok rfl)).finish (.of_some htask fun _ _ hc => nomatch hc)
  | truncate path size =>
    cases ok with
    | false =>
      cases hs'
      exact hfail fun _ hc => hc
    | true =>
      cases hs'
      -- the buffered writes that are dropped reach behind the new end
      refine ((h.filter _).invalidate fun a ha hpath hpend => ?_).await (fun old hold a _ hc => ?_)
        trivial
      · obtain ⟨ha, hkept⟩ := List.mem_filter.1 ha
        have hend := hok rfl a ha hpath hpend
        simp [hpath, hend] at hkept
      · obtain rfl : Task.truncate path size = old := Option.some.inj (htask.symm.trans hold)
        exact nomatch hc
  | truncateStat =>
    cases hs'
    exact hfail fun _ hc => hc
  | rename oldPath newPath =>
    cases ok with
    | false =>
      cases hs'
      exact hfail fun _ hc => hc
    | true =>
      cases hs'
      exact h.finishRename (.of_some htask fun _ _ hc => nomatch hc) (hok rfl)
  | unlink path =>
    cases ok with
    | false =>
      cases hs'
      exact hfail fun _ hc => hc
    | true =>
      cases hs'
      exact (h.filter _).finish (.of_some htask fun _ _ hc => nomatch hc)

/-- A new task is not waiting for anything. -/
lemma inv_start {s s' : State M L} {t : ℕ} {path : Option PathBuf} {f : PathBuf → State M L}
    (h : Inv s) (hf : s.tasks.get? t = none → ∀ p, path = some p → Inv (f p))
    (hs' : start s t path f = some s') : Inv s' := by
  rw [start] at hs'
  split_ifs at hs' with hfree
  rw [Bool.not_eq_true, AssocMap.contains_eq_false_iff] at hfree
  cases path with
  | none =>
    cases hs'
    exact h
  | some p =>
    cases hs'
    exact hf hfree p rfl

lemma inv_step {s s' : State M L} {e : Event} (h : Inv s) (hok : StepOk s e)
    (hs' : step s e = some s') : Inv s' := by
  have hawait : ∀ {t : ℕ} {task : Task}, s.tasks.get? t = none → TaskOk s.delivered task →
      Inv (s.await t task) := by
    intro t task hfree htask
    exact h.await (fun old hold => absurd hold (by simp [hfree])) htask
  cases e with
  | lookup path =>
    cases hs'
    exact h.congr _ _
  | write t ino offset data =>
    exact inv_start h (fun hfree p _ => h.startWrite hfree p offset data) hs'
  | release t ino =>
    exact inv_start h (fun hfree p _ => h.startFlush hfree fun seg hseg => by cases hseg) hs'
  | setxattr t ino => exact inv_start h (fun hfree p _ => hawait hfree (by exact trivial)) hs'
  | truncate t ino size =>
    exact inv_start h (fun hfree p _ => hawait hfree (by exact trivial)) hs'
  | rename t parent name newparent newname =>
    refine inv_start h (fun hfree p _ => ?_) hs'
    cases childPath s newparent newname with
    | none => exact h
    | some q => exact hawait hfree trivial
  | unlink t parent name =>
    exact inv_start h (fun hfree p hp => h.startUnlink hfree (hok p hp)) hs'
  | resume t ok =>
    obtain ⟨task, htask, hs'⟩ := Option.bind_eq_some_iff.1 hs'
    exact inv_resume h htask (hok task htask) hs'

/-- A write to `/f`, a flush that sends it, and a change of an extended attribute. -/
def flushedRun : List Event :=
  [.lookup ⟨ascii "/f"⟩, .write 0 2 0 (ascii "x"), .release 1 2, .resume 1 true,
    .setxattr 2 2, .resume 2 true]

/-- The same without the flush. -/
def setxattrRun : List Event :=
  [.lookup ⟨ascii "/f"⟩, .write 0 2 0 (ascii "x"), .setxattr 1 2, .resume 1 true]

end Racfs.Fuse.WriteBack
