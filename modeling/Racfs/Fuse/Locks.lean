/-
# The lock table of the FUSE client

`FileLockState` (`racfs-fuse/src/advanced.rs`) keeps, for every inode, the list of the byte
ranges that are locked, each by an owner and with a type.  A request is checked against the
locks of the other owners (`getConflict`, under the read guard); if there is no conflict, the
owner's own locks that overlap the range are dropped and the new one is added
(`insertLock`, under the write guard).

Run one call after the other, the table keeps mutual exclusion (`setLock_mutEx` and the
lemmas after it).  The two sections of `set_lock` are separate critical sections, though, so
calls may interleave between them: `Concurrent.step` is the step function of that system, and
mutual exclusion survives exactly as long as no lock is inserted that has become incompatible
since its check.
-/
import Racfs.Core
import Racfs.Lib.Run
import Mathlib.Data.Nat.Basic
import Mathlib.Logic.Function.Basic

namespace Racfs.Fuse

/-- The shared (read) lock type. -/
def fRdlck : Int32 := 0

/-- The exclusive (write) lock type. -/
def fWrlck : Int32 := 1

/-- The type of an unlock request. -/
def fUnlck : Int32 := 2

/-- A locked range. -/
structure LockEntry where
  /-- The first byte. -/
  start : UInt64
  /-- The last byte. -/
  stop : UInt64
  /-- The lock type. -/
  typ : Int32
  /-- The process that asked for the lock. -/
  pid : UInt32
  /-- The owner of the lock. -/
  owner : UInt64
deriving DecidableEq, Repr

/-- The locks that are held, by inode. -/
structure FileLockState where
  locks : AssocMap UInt64 (List LockEntry)

namespace FileLockState

/-- The empty lock table. -/
def new : FileLockState := ⟨∅⟩

/-- The locks held on an inode. -/
def held (s : FileLockState) (ino : UInt64) : List LockEntry := (s.locks.get? ino).getD []

/-- The loop of `get_conflict` over the locks of an inode. -/
def firstConflict (start stop : UInt64) (typ : Int32) (excludeOwner : UInt64) :
    List LockEntry → Option (UInt64 × UInt64 × Int32 × UInt32)
  | [] => none
  | e :: rest =>
    if e.owner = excludeOwner then firstConflict start stop typ excludeOwner rest
    else if ¬ (start ≤ e.stop ∧ e.start ≤ stop) then firstConflict start stop typ excludeOwner rest
    else if typ = fWrlck ∨ e.typ = fWrlck then some (e.start, e.stop, e.typ, e.pid)
    else firstConflict start stop typ excludeOwner rest

/-- The first lock of another owner that conflicts with a request. -/
def getConflict (s : FileLockState) (ino start stop : UInt64) (typ : Int32)
    (excludeOwner : UInt64) : Option (UInt64 × UInt64 × Int32 × UInt32) :=
  (s.locks.get? ino).bind (firstConflict start stop typ excludeOwner)

/-- What stays of an inode's locks when an owner gives up a range. -/
def keeps (lockOwner start stop : UInt64) (e : LockEntry) : Bool :=
  e.owner != lockOwner || decide (e.stop < start) || decide (e.start > stop)

/-- The second section of `set_lock`: the owner's overlapping locks make way for the new one. -/
def insertLock (s : FileLockState) (ino : UInt64) (e : LockEntry) : FileLockState :=
  ⟨s.locks.insert ino ((s.held ino).filter (keeps e.owner e.start e.stop) ++ [e])⟩

/-- Remove an owner's locks in a range. -/
def unlock (s : FileLockState) (ino lockOwner start stop : UInt64) : FileLockState :=
  match s.locks.get? ino with
  | none => s
  | some entries =>
    -- an inode without locks is not stored
    if entries.filter (keeps lockOwner start stop) = [] then ⟨s.locks.erase ino⟩
    else ⟨s.locks.insert ino (entries.filter (keeps lockOwner start stop))⟩

/-- Remove all locks of an owner. -/
def removeOwner (s : FileLockState) (lockOwner : UInt64) : FileLockState :=
  ⟨(s.locks.mapValues fun es => es.filter fun e => e.owner != lockOwner).retain
    fun _ es => !es.isEmpty⟩

/-- Set a lock.  Waiting is not implemented: the answer to a conflict is `EAGAIN` with and
without `sleep`. -/
def setLock (s : FileLockState) (ino lockOwner start stop : UInt64) (typ : Int32) (pid : UInt32)
    (sleep : Bool) : Except Errno Unit × FileLockState :=
  if typ = fUnlck then (.ok (), s.unlock ino lockOwner start stop)
  else
    match s.getConflict ino start stop typ lockOwner with
    | some _ => if !sleep then (.error .EAGAIN, s) else (.error .EAGAIN, s)
    | none => (.ok (), s.insertLock ino ⟨start, stop, typ, pid, lockOwner⟩)

end FileLockState

/-- Two locks that share a byte. -/
def LockEntry.Overlaps (a b : LockEntry) : Prop :=
  ∃ x, a.start ≤ x ∧ x ≤ a.stop ∧ b.start ≤ x ∧ x ≤ b.stop

/-- Two locks of different owners that must not be held together. -/
def LockEntry.Incompatible (a b : LockEntry) : Prop :=
  a.owner ≠ b.owner ∧ a.Overlaps b ∧ (a.typ = fWrlck ∨ b.typ = fWrlck)

lemma LockEntry.Incompatible.symm {a b : LockEntry} (h : a.Incompatible b) : b.Incompatible a := by
  obtain ⟨ho, ⟨x, h1, h2, h3, h4⟩, ht⟩ := h
  exact ⟨ho.symm, ⟨x, h3, h4, h1, h2⟩, ht.symm⟩

/-- Ranges that share a byte pass the test of the source. -/
lemma LockEntry.Overlaps.le {a b : LockEntry} (h : a.Overlaps b) :
    a.start ≤ b.stop ∧ b.start ≤ a.stop := by
  obtain ⟨x, h1, h2, h3, h4⟩ := h
  exact ⟨UInt64.le_trans h1 h4, UInt64.le_trans h3 h2⟩

/-- The test of the source is exact for ranges that are not empty. -/
lemma LockEntry.overlaps_iff {a b : LockEntry} (ha : a.start ≤ a.stop) (hb : b.start ≤ b.stop) :
    a.Overlaps b ↔ a.start ≤ b.stop ∧ b.start ≤ a.stop := by
  refine ⟨LockEntry.Overlaps.le, fun ⟨h1, h2⟩ => ?_⟩
  -- the greater of the two starts is in both ranges
  rcases UInt64.le_total a.start b.start with h | h
  · exact ⟨b.start, h, h2, UInt64.le_refl _, hb⟩
  · exact ⟨a.start, UInt64.le_refl _, ha, h, h1⟩

namespace FileLockState

/-- Mutual exclusion: no two incompatible locks are held on one inode. -/
def MutEx (s : FileLockState) : Prop :=
  ∀ ino, ∀ a ∈ s.held ino, ∀ b ∈ s.held ino, ¬ a.Incompatible b

/-- All locks have nonempty ranges. -/
def Ranged (s : FileLockState) : Prop := ∀ ino, ∀ e ∈ s.held ino, e.start ≤ e.stop

/-! ### The locks held after an operation -/

@[simp] lemma held_new (ino : UInt64) : new.held ino = [] := rfl

lemma held_insertLock (s : FileLockState) (ino ino' : UInt64) (e : LockEntry) :
    (s.insertLock ino e).held ino' =
      if ino = ino' then (s.held ino).filter (keeps e.owner e.start e.stop) ++ [e]
      else s.held ino' := by
  simp only [held, insertLock, AssocMap.get?_insert, beq_iff_eq]
  split <;> simp_all

lemma held_unlock (s : FileLockState) (ino lockOwner start stop ino' : UInt64) :
    (s.unlock ino lockOwner start stop).held ino' =
      if ino = ino' then (s.held ino).filter (keeps lockOwner start stop) else s.held ino' := by
  rw [unlock]
  cases hget : s.locks.get? ino with
  | none =>
    by_cases h : ino = ino'
    · subst h
      simp [held, hget]
    · simp [h]
  | some entries =>
    by_cases hnil : entries.filter (keeps lockOwner start stop) = []
    · simp only [hnil, if_true, held, AssocMap.get?_erase, beq_iff_eq, hget, Option.getD_some]
      split <;> simp
    · simp only [hnil, if_false, held, AssocMap.get?_insert, beq_iff_eq, hget, Option.getD_some]
      split <;> simp

lemma held_removeOwner (s : FileLockState) (lockOwner ino : UInt64) :
    (s.removeOwner lockOwner).held ino = (s.held ino).filter fun e => e.owner != lockOwner := by
  simp only [held, removeOwner]
  rw [AssocMap.get?_retain _ (fun _ _ _ => rfl), AssocMap.get?_mapValues]
  cases s.locks.get? ino with
  | none => rfl
  | some es =>
    by_cases hnil : es.filter (fun e => e.owner != lockOwner) = []
    · simp [hnil, Option.filter_some]
    · simp [hnil, Option.filter_some]

/-- Dropping locks keeps mutual exclusion. -/
lemma MutEx.of_subset {s s' : FileLockState} (h : s.MutEx)
    (hsub : ∀ ino, ∀ e ∈ s'.held ino, e ∈ s.held ino) : s'.MutEx :=
  fun ino a ha b hb => h ino a (hsub ino a ha) b (hsub ino b hb)

lemma mem_held_unlock {s : FileLockState} {ino lockOwner start stop ino' : UInt64}
    {e : LockEntry} (h : e ∈ (s.unlock ino lockOwner start stop).held ino') :
    e ∈ s.held ino' := by
  rw [held_unlock] at h
  split at h
  · next heq => exact heq ▸ (List.mem_filter.1 h).1
  · exact h

lemma mem_held_removeOwner {s : FileLockState} {lockOwner ino : UInt64} {e : LockEntry}
    (h : e ∈ (s.removeOwner lockOwner).held ino) : e ∈ s.held ino := by
  rw [held_removeOwner] at h
  exact (List.mem_filter.1 h).1

lemma mem_held_insertLock {s : FileLockState} {ino ino' : UInt64} {e f : LockEntry}
    (h : f ∈ (s.insertLock ino e).held ino') :
    (ino = ino' ∧ f = e) ∨ f ∈ s.held ino' := by
  rw [held_insertLock] at h
  split at h
  · next heq =>
    rcases List.mem_append.1 h with h | h
    · exact Or.inr (heq ▸ (List.mem_filter.1 h).1)
    · exact Or.inl ⟨heq, List.mem_singleton.1 h⟩
  · exact Or.inr h

/-- Inserting a lock keeps mutual exclusion exactly when no lock held on the inode is
incompatible with it. -/
lemma insertLock_mutEx_iff {s : FileLockState} (h : s.MutEx) (ino : UInt64) (e : LockEntry) :
    (s.insertLock ino e).MutEx ↔ ∀ f ∈ s.held ino, ¬ e.Incompatible f := by
  constructor
  · intro h' f hf hinc
    -- a lock of another owner is not dropped by the insertion
    have hkeep : keeps e.owner e.start e.stop f = true := by
      simp [keeps, Ne.symm hinc.1]
    refine h' ino e ?_ f ?_ hinc
    · simp [held_insertLock]
    · rw [held_insertLock, if_pos rfl]
      exact List.mem_append_left _ (List.mem_filter.2 ⟨hf, hkeep⟩)
  · intro hcompat ino' a ha b hb hinc
    rcases mem_held_insertLock ha with ⟨rfl, rfl⟩ | ha' <;>
      rcases mem_held_insertLock hb with ⟨hino, rfl⟩ | hb'
    · exact hinc.1 rfl
    · exact hcompat b hb' hinc
    · exact hcompat a (hino ▸ ha') hinc.symm
    · exact h ino' a ha' b hb' hinc

/-! ### The conflict check -/

lemma firstConflict_isSome_iff {start stop : UInt64} {typ : Int32} {owner : UInt64}
    {l : List LockEntry} :
    (firstConflict start stop typ owner l).isSome = true ↔
      ∃ f ∈ l, owner ≠ f.owner ∧ (start ≤ f.stop ∧ f.start ≤ stop) ∧
        (typ = fWrlck ∨ f.typ = fWrlck) := by
  induction l with
  | nil => simp [firstConflict]
  | cons e l ih =>
    rw [firstConflict, List.exists_mem_cons_iff]
    by_cases ho : e.owner = owner
    · simp [ho, ih]
    by_cases hr : start ≤ e.stop ∧ e.start ≤ stop
    · by_cases ht : typ = fWrlck ∨ e.typ = fWrlck
      · simp [ho, hr, ht, Ne.symm ho]
      · simp [ho, hr, ht, ih]
    · rw [if_neg ho, if_pos hr, ih]
      simp [hr]

/-- The check of a request with a nonempty range finds something exactly when an incompatible
lock is held. -/
lemma getConflict_isSome_iff {s : FileLockState} (hs : s.Ranged) (ino : UInt64) {e : LockEntry}
    (he : e.start ≤ e.stop) :
    (s.getConflict ino e.start e.stop e.typ e.owner).isSome = true ↔
      ∃ f ∈ s.held ino, e.Incompatible f := by
  have hget : s.getConflict ino e.start e.stop e.typ e.owner =
      firstConflict e.start e.stop e.typ e.owner (s.held ino) := by
    unfold getConflict held
    cases s.locks.get? ino <;> rfl
  rw [hget, firstConflict_isSome_iff]
  constructor
  · rintro ⟨f, hf, ho, hr, ht⟩
    exact ⟨f, hf, ho, (LockEntry.overlaps_iff he (hs ino f hf)).2 hr, ht⟩
  · rintro ⟨f, hf, ho, hr, ht⟩
    exact ⟨f, hf, ho, hr.le, ht⟩

/-! ### One call after the other -/

/-- A call on the lock table. -/
inductive Call
  | setLock (ino lockOwner start stop : UInt64) (typ : Int32) (pid : UInt32) (sleep : Bool)
  | unlock (ino lockOwner start stop : UInt64)
  | removeOwner (lockOwner : UInt64)

/-- The table after a call; the ranges of the calls are not empty. -/
def step (s : FileLockState) : Call → Option FileLockState
  | .setLock ino lockOwner start stop typ pid sleep =>
    if start ≤ stop then some (s.setLock ino lockOwner start stop typ pid sleep).2 else none
  | .unlock ino lockOwner start stop =>
    if start ≤ stop then some (s.unlock ino lockOwner start stop) else none
  | .removeOwner lockOwner => some (s.removeOwner lockOwner)

/-- What a call of `set_lock` does to the table. -/
lemma setLock_cases (s : FileLockState) (ino lockOwner start stop : UInt64) (typ : Int32)
    (pid : UInt32) (sleep : Bool) :
    (s.setLock ino lockOwner start stop typ pid sleep).2 = s.unlock ino lockOwner start stop ∨
    (s.setLock ino lockOwner start stop typ pid sleep).2 = s ∨
    (s.getConflict ino start stop typ lockOwner = none ∧
      (s.setLock ino lockOwner start stop typ pid sleep).2 =
        s.insertLock ino ⟨start, stop, typ, pid, lockOwner⟩) := by
  rw [setLock]
  by_cases ht : typ = fUnlck
  · exact Or.inl (by simp [ht])
  · cases hc : s.getConflict ino start stop typ lockOwner with
    | some c => exact Or.inr (Or.inl (by cases sleep <;> simp [ht]))
    | none => exact Or.inr (Or.inr (by simp [ht]))

/-- A call drops locks, or adds one that has passed the check. -/
lemma step_cases {s s' : FileLockState} {c : Call} (h : s.step c = some s') :
    (∀ ino, ∀ e ∈ s'.held ino, e ∈ s.held ino) ∨
    ∃ ino e, e.start ≤ e.stop ∧ s.getConflict ino e.start e.stop e.typ e.owner = none ∧
      s' = s.insertLock ino e := by
  cases c with
  | setLock ino lockOwner start stop typ pid sleep =>
    simp only [step, Option.ite_none_right_eq_some, Option.some.injEq] at h
    obtain ⟨hr, rfl⟩ := h
    rcases setLock_cases s ino lockOwner start stop typ pid sleep with h | h | ⟨hc, h⟩
    · exact Or.inl fun i e he => mem_held_unlock (h ▸ he)
    · exact Or.inl fun i e he => h ▸ he
    · exact Or.inr ⟨ino, ⟨start, stop, typ, pid, lockOwner⟩, hr, hc, h⟩
  | unlock ino lockOwner start stop =>
    simp only [step, Option.ite_none_right_eq_some, Option.some.injEq] at h
    obtain ⟨-, rfl⟩ := h
    exact Or.inl fun i e he => mem_held_unlock he
  | removeOwner lockOwner =>
    simp only [step, Option.some.injEq] at h
    subst h
    exact Or.inl fun i e he => mem_held_removeOwner he

lemma step_ranged_mutEx {s s' : FileLockState} {c : Call} (hs : s.Ranged ∧ s.MutEx)
    (h : s.step c = some s') : s'.Ranged ∧ s'.MutEx := by
  obtain ⟨hr, hm⟩ := hs
  rcases step_cases h with hsub | ⟨ino, e, he, hc, rfl⟩
  · exact ⟨fun ino e he => hr ino e (hsub ino e he), hm.of_subset hsub⟩
  · refine ⟨fun ino' f hf => ?_, ?_⟩
    · rcases mem_held_insertLock hf with ⟨-, rfl⟩ | hf
      · exact he
      · exact hr ino' f hf
    · rw [insertLock_mutEx_iff hm]
      intro f hf hinc
      have := (getConflict_isSome_iff hr ino he).2 ⟨f, hf, hinc⟩
      simp [hc] at this

/-- Mutual exclusion, one call after the other: in every state that calls with nonempty ranges
lead to, no two incompatible locks are held on an inode, and the conflict check of a request
finds a lock exactly when an incompatible one is held. -/
theorem reachable_mutEx {s : FileLockState} (h : Reachable step new s) :
    s.MutEx ∧ ∀ (ino : UInt64) (e : LockEntry), e.start ≤ e.stop →
      ((s.getConflict ino e.start e.stop e.typ e.owner).isSome = true ↔
        ∃ f ∈ s.held ino, e.Incompatible f) := by
  have hinv : s.Ranged ∧ s.MutEx := h.invariant (P := fun s => s.Ranged ∧ s.MutEx)
    ⟨by simp [Ranged], by simp [MutEx]⟩ fun _ _ _ hs hstep => step_ranged_mutEx hs hstep
  exact ⟨hinv.2, fun ino e he => getConflict_isSome_iff hinv.1 ino he⟩

/-- The run of the test: a write lock, and a conflicting request. -/
theorem reachable_mutEx_write_lock :
    ∃ s, run step new [.setLock 10 1 0 100 fWrlck 1000 false] = some s ∧ s.MutEx ∧
      ∃ f ∈ s.held 10, LockEntry.Incompatible ⟨50, 150, fRdlck, 1001, 2⟩ f := by
  refine ⟨_, rfl, ?_⟩
  have h := reachable_mutEx ⟨[.setLock 10 1 0 100 fWrlck 1000 false], rfl⟩
  exact ⟨h.1, (h.2 10 ⟨50, 150, fRdlck, 1001, 2⟩ (by decide)).1 (by decide)⟩

end FileLockState

/-! ### Interleaved calls -/

namespace Concurrent

/-- The table, and the calls of `set_lock` that have made their check and have yet to insert
their lock. -/
structure State where
  table : FileLockState
  /-- The inode and the lock of the pending call with a number. -/
  pending : ℕ → Option (UInt64 × LockEntry)

/-- No locks, no calls. -/
def init : State := ⟨FileLockState.new, fun _ => none⟩

/-- The critical sections. -/
inductive Event
  /-- The call `i` of `set_lock` makes its check. -/
  | check (i : ℕ) (ino : UInt64) (e : LockEntry)
  /-- The call `i` inserts its lock. -/
  | insert (i : ℕ)
  | unlock (ino lockOwner start stop : UInt64)
  | removeOwner (lockOwner : UInt64)

/-- A critical section.  A request of type `F_UNLCK` is an `unlock`; a request that meets a
conflict returns `EAGAIN` and leaves nothing behind. -/
def step (s : State) : Event → Option State
  | .check i ino e =>
    if (s.pending i).isSome ∨ e.typ = fUnlck then none
    else
      match s.table.getConflict ino e.start e.stop e.typ e.owner with
      | some _ => some s
      | none => some { s with pending := Function.update s.pending i (some (ino, e)) }
  | .insert i =>
    match s.pending i with
    | none => none
    | some (ino, e) =>
      -- no second check: the table may have changed since the first
      some ⟨s.table.insertLock ino e, Function.update s.pending i none⟩
  | .unlock ino lockOwner start stop =>
    some { s with table := s.table.unlock ino lockOwner start stop }
  | .removeOwner lockOwner => some { s with table := s.table.removeOwner lockOwner }

/-- What a step needs to keep mutual exclusion: the lock a call inserts is, at that moment,
compatible with all locks that are held on the inode. -/
def InsertsCompatible (s : State) : Event → Prop
  | .insert i =>
    ∀ ino e, s.pending i = some (ino, e) → ∀ f ∈ s.table.held ino, ¬ e.Incompatible f
  | _ => True

lemma step_mutEx_iff {s s' : State} {ev : Event} (hm : s.table.MutEx) (h : step s ev = some s') :
    s'.table.MutEx ↔ InsertsCompatible s ev := by
  cases ev with
  | check i ino e =>
    simp only [step] at h
    split at h
    · cases h
    · split at h <;> cases h <;> simp [InsertsCompatible, hm]
  | insert i =>
    simp only [step] at h
    cases hp : s.pending i with
    | none => simp [hp] at h
    | some q =>
      obtain ⟨ino, e⟩ := q
      simp only [hp, Option.some.injEq] at h
      subst h
      rw [FileLockState.insertLock_mutEx_iff hm]
      simp [InsertsCompatible, hp]
  | unlock ino lockOwner start stop =>
    cases h
    simp only [InsertsCompatible, iff_true]
    exact hm.of_subset fun _ _ => FileLockState.mem_held_unlock
  | removeOwner lockOwner =>
    cases h
    simp only [InsertsCompatible, iff_true]
    exact hm.of_subset fun _ _ => FileLockState.mem_held_removeOwner

/-- Mutual exclusion holds in all states of an interleaving exactly when each lock is still
compatible with the held ones when it is inserted. -/
theorem mutEx_iff_insertsCompatible (evs : List Event) :
    StatesMeet step (fun s => s.table.MutEx) init evs ↔
      StepsMeet step InsertsCompatible init evs :=
  statesMeet_iff_stepsMeet (A := fun _ => True) (fun _ _ _ _ _ => trivial)
    (fun _ _ _ _ hm h => step_mutEx_iff hm h) trivial (by simp [init, FileLockState.MutEx])

/-- Two owners make their checks on the empty table and then both get the write lock. -/
theorem not_mutEx_two_writers :
    ∃ s, run step init [.check 0 10 ⟨0, 100, fWrlck, 1000, 1⟩,
        .check 1 10 ⟨0, 100, fWrlck, 1001, 2⟩, .insert 0, .insert 1] = some s ∧
      ¬ s.table.MutEx := by
  refine ⟨_, rfl, fun h => ?_⟩
  refine h 10 ⟨0, 100, fWrlck, 1000, 1⟩ (by decide) ⟨0, 100, fWrlck, 1001, 2⟩ (by decide) ?_
  exact ⟨by decide, ⟨0, by decide⟩, by decide⟩

end Concurrent

end Racfs.Fuse
