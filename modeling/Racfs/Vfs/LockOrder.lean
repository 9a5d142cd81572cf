/-
# The order of the two locks of the handle manager

`HandleManager` (`racfs-vfs/src/handle_manager.rs`) has a lock for each of its two tables.  A
call is the sequence of the guards that it takes and drops, with the branches that depend on
the tables.  `close_handle`, `cleanup_expired` and the end of `open_handle` lock `handles` first
and `path_index` second, both for writing.  The first lookup of `open_handle` takes them the
other way round: the guard in the condition of its `if let` lives until the end of the block, so
`path_index` is still locked for reading when the block locks `handles`.

Any number of calls run at the same time, and a step of the system is a step of one call.
`Deadlocked` says that some calls wait for each other in a circle.  This happens exactly when a
call that has found its key in the path index waits for `handles` and at the same time a call
that has locked `handles` for writing waits for `path_index` (`deadlocked_iff`), so the runs that
stay free of it are those in which neither comes to its place while the other is there
(`not_deadlocked_iff_lockOk`).
-/
import Racfs.Lib.RwLock
import Racfs.Lib.Run
import Racfs.Vfs.HandleManager

namespace Racfs.Vfs.LockOrder

open RwLock

/-- The two locks. -/
inductive Lock
  | handles
  | pathIndex
deriving DecidableEq

/-- What is done under both write locks. -/
inductive Work
  /-- The second lookup of `open_handle` and the insertion. -/
  | insert (key : HandleKey)
  | close (id : HandleId)
  /-- The time is read before the locks are taken. -/
  | cleanup (now : ℕ)

/-- Where a call is. -/
inductive Call
  /-- `open_handle`, before the limit check. -/
  | limit (key : HandleKey)
  /-- It has read the number of handles. -/
  | limited (key : HandleKey) (full : Bool)
  /-- Before the lookup in the path index. -/
  | index (key : HandleKey)
  /-- The key was not there. -/
  | missed (key : HandleKey)
  /-- The key was there, and the path index stays locked. -/
  | found (key : HandleKey) (id : HandleId)
  /-- It has looked the identifier up. -/
  | looked (key : HandleKey) (r : Option FileHandle)
  /-- It has dropped the guard of `handles`. -/
  | dropped (key : HandleKey) (r : Option FileHandle)
  /-- Before the first of the two write locks. -/
  | first (w : Work)
  /-- Before the second one. -/
  | second (w : Work)
  /-- The work is done. -/
  | worked
  /-- It has dropped the guard of `path_index`. -/
  | last

namespace Call

/-- The guards that the call holds. -/
def holds : Call → List (Guard Lock)
  | limited _ _ => [⟨.handles, .read⟩]
  | missed _ => [⟨.pathIndex, .read⟩]
  | found _ _ => [⟨.pathIndex, .read⟩]
  | looked _ _ => [⟨.pathIndex, .read⟩, ⟨.handles, .read⟩]
  | dropped _ _ => [⟨.pathIndex, .read⟩]
  | second _ => [⟨.handles, .write⟩]
  | worked => [⟨.handles, .write⟩, ⟨.pathIndex, .write⟩]
  | last => [⟨.handles, .write⟩]
  | _ => []

/-- The guard that the call takes next, if its next step takes one. -/
def wants : Call → Option (Guard Lock)
  | limit _ => some ⟨.handles, .read⟩
  | index _ => some ⟨.pathIndex, .read⟩
  | found _ _ => some ⟨.handles, .read⟩
  | first _ => some ⟨.handles, .write⟩
  | second _ => some ⟨.pathIndex, .write⟩
  | _ => none

/-- Where the call is after its next step; nowhere when it has returned. -/
def next (m : HandleManager) : Call → Option Call
  | limit key => some (limited key m.atLimit)
  | limited key full => if full then none else some (index key)
  | index key =>
    match m.pathIndex.get? key with
    | some id => some (found key id)
    | none => some (missed key)
  | missed key => some (first (.insert key))
  | found key id => some (looked key ((m.handles.get? id).map HandleEntry.handle))
  | looked key r => some (dropped key r)
  | dropped key r => if r.isSome then none else some (first (.insert key))
  | first w => some (second w)
  | second _ => some worked
  | worked => some last
  | last => none

end Call

/-- The tables after the work, with the identifier that is generated if it is needed. -/
def Work.run (m : HandleManager) (id : HandleId) (now : ℕ) : Work → HandleManager
  | insert key =>
    match m.find key with
    | some _ => m
    | none => m.insertHandle key id now
  | close id => (m.closeHandle id).2
  | cleanup now => (m.cleanupExpired now).2

/-- The tables after the next step of a call. -/
def Call.tables (m : HandleManager) (id : HandleId) (now : ℕ) : Call → HandleManager
  | second w => w.run m id now
  | _ => m

/-- The tables and the calls that have not returned. -/
structure State where
  mgr : HandleManager
  calls : AssocMap ℕ Call

/-- A new handle manager, and no calls. -/
def init (leaseTimeoutSecs maxHandles : ℕ) : State :=
  ⟨.withConfig leaseTimeoutSecs maxHandles, ∅⟩

namespace State

variable (s : State)

/-- The guards that a call holds. -/
def holds (i : ℕ) : List (Guard Lock) := ((s.calls.get? i).map Call.holds).getD []

/-- The guard that a call waits for. -/
def wants (i : ℕ) : Option (Guard Lock) := (s.calls.get? i).bind Call.wants

/-- Whether the call can take the guard. -/
def free (i : ℕ) (g : Guard Lock) : Bool :=
  s.calls.entries.all fun e => e.1 == i || e.2.holds.all fun h => !h.blocks g

/-- Some calls wait for each other in a circle. -/
def Deadlocked : Prop := CircularWait s.holds s.wants

end State

/-- The beginning of a call, or a step of one, with the identifier and the time that it gets. -/
inductive Event
  | openHandle (i : ℕ) (path : PathBuf) (flags : OpenFlags)
  | closeHandle (i : ℕ) (id : HandleId)
  | cleanupExpired (i : ℕ) (now : ℕ)
  | next (i : ℕ) (id : HandleId) (now : ℕ)

/-- Begin a call. -/
def start (s : State) (i : ℕ) (c : Call) : Option State :=
  if s.calls.contains i then none else some { s with calls := s.calls.insert i c }

/-- One step.  A call whose next guard is blocked cannot take it. -/
def step (s : State) : Event → Option State
  | .openHandle i path flags => start s i (.limit (path, flags))
  | .closeHandle i id => start s i (.first (.close id))
  | .cleanupExpired i now => start s i (.first (.cleanup now))
  | .next i id now =>
    (s.calls.get? i).bind fun c =>
      if (c.wants.all fun g => s.free i g) then
        some
          { mgr := c.tables s.mgr id now
            calls :=
              match c.next s.mgr with
              | some c' => s.calls.insert i c'
              | none => s.calls.erase i }
      else none

/-! ### Who waits for whom -/

/-- A call that waits and holds something is in one of two places. -/
lemma holds_of_wants {c : Call} {w g : Guard Lock} (hw : c.wants = some w) (hg : g ∈ c.holds) :
    (∃ key id, c = .found key id ∧ g = ⟨.pathIndex, .read⟩ ∧ w = ⟨.handles, .read⟩) ∨
    (∃ k, c = .second k ∧ g = ⟨.handles, .write⟩ ∧ w = ⟨.pathIndex, .write⟩) := by
  cases c with
  | found key id =>
    exact Or.inl ⟨key, id, rfl, by simpa [Call.holds] using hg, by simpa [Call.wants] using hw.symm⟩
  | second k =>
    exact Or.inr ⟨k, rfl, by simpa [Call.holds] using hg, by simpa [Call.wants] using hw.symm⟩
  | _ => simp [Call.holds, Call.wants] at hg hw

/-- The call has found its key and waits for `handles`. -/
def Call.IsFound (c : Call) : Prop := ∃ key id, c = .found key id

/-- The call has locked `handles` for writing and waits for `path_index`. -/
def Call.IsSecond (c : Call) : Prop := ∃ w, c = .second w

namespace State

variable {s s' : State}

/-- Some call is at a place. -/
def Has (s : State) (P : Call → Prop) : Prop := ∃ i c, s.calls.get? i = some c ∧ P c

/-- A call that is waited for and waits itself. -/
lemma waitsFor_cases {i j k : ℕ} (hij : WaitsFor s.holds s.wants i j)
    (hjk : WaitsFor s.holds s.wants j k) :
    (s.Has Call.IsFound ∧ (∃ m, s.wants i = some ⟨.pathIndex, m⟩) ∧
      s.wants j = some ⟨.handles, .read⟩) ∨
    (s.Has Call.IsSecond ∧ (∃ m, s.wants i = some ⟨.handles, m⟩) ∧
      s.wants j = some ⟨.pathIndex, .write⟩) := by
  obtain ⟨-, ⟨lock, mode⟩, hwi, g, hg, hblocks⟩ := hij
  obtain ⟨-, w, hwj, -⟩ := hjk
  obtain ⟨c, hc, hcw⟩ := Option.bind_eq_some_iff.1 hwj
  rw [holds, hc] at hg
  rcases holds_of_wants hcw hg with ⟨key, id, rfl, rfl, rfl⟩ | ⟨k, rfl, rfl, rfl⟩
  · have hlock : Lock.pathIndex = lock := by simp_all [Guard.blocks]
    exact Or.inl ⟨⟨j, _, hc, key, id, rfl⟩, ⟨mode, hlock ▸ hwi⟩, hwj⟩
  · have hlock : Lock.handles = lock := by simp_all [Guard.blocks]
    exact Or.inr ⟨⟨j, _, hc, k, rfl⟩, ⟨mode, hlock ▸ hwi⟩, hwj⟩

/-- The rank of a call in the order in which `lock` is taken first. -/
def rank (s : State) (lock : Lock) (i : ℕ) : ℕ :=
  if (s.wants i).map Guard.lock = some lock then 1 else 0

/-- The two places are what it takes: without a call in one of them, all waiting calls take the
locks in one order. -/
theorem deadlocked_iff : s.Deadlocked ↔ s.Has Call.IsFound ∧ s.Has Call.IsSecond := by
  constructor
  · intro hdead
    by_contra hnot
    rw [not_and_or] at hnot
    rcases hnot with hnot | hnot
    · refine not_circularWait_of_rank (s.rank .handles) (fun i j k hij hjk => ?_) hdead
      rcases waitsFor_cases hij hjk with ⟨hfound, -⟩ | ⟨-, ⟨m, hi⟩, hj⟩
      · exact absurd hfound hnot
      · simp [rank, hi, hj]
    · refine not_circularWait_of_rank (s.rank .pathIndex) (fun i j k hij hjk => ?_) hdead
      rcases waitsFor_cases hij hjk with ⟨-, ⟨m, hi⟩, hj⟩ | ⟨hsecond, -⟩
      · simp [rank, hi, hj]
      · exact absurd hsecond hnot
  · rintro ⟨⟨i, _, hi, key, id, rfl⟩, ⟨j, _, hj, w, rfl⟩⟩
    have hne : i ≠ j := by
      rintro rfl
      rw [hi] at hj
      cases hj
    refine circularWait_of_two (i := i) (j := j) ⟨hne, ⟨.handles, .read⟩, ?_⟩
      ⟨hne.symm, ⟨.pathIndex, .write⟩, ?_⟩
    · simp [State.wants, State.holds, hi, hj, Call.wants, Call.holds, Guard.blocks, Mode.excludes]
    · simp [State.wants, State.holds, hi, hj, Call.wants, Call.holds, Guard.blocks, Mode.excludes]

end State

/-! ### Runs -/

/-- What the next step of a call must meet: when it finds its key in the path index, no call
that has locked `handles` waits for `path_index`; when it locks `handles` for writing, no call
that has found its key waits for `handles`. -/
def CallOk (s : State) : Call → Prop
  | .index key => (s.mgr.pathIndex.get? key).isSome = true → ¬ s.Has Call.IsSecond
  | .first _ => ¬ s.Has Call.IsFound
  | _ => True

/-- What a step must meet. -/
def LockOk (s : State) : Event → Prop
  | .next i _ _ => ∀ c, s.calls.get? i = some c → CallOk s c
  | _ => True

/-- The calls after a step: only one of them is somewhere else. -/
structure Moves (s s' : State) (i : ℕ) (c : Option Call) : Prop where
  self : s'.calls.get? i = c
  other : ∀ j, i ≠ j → s'.calls.get? j = s.calls.get? j

lemma moves_insert (s : State) (m : HandleManager) (i : ℕ) (c : Call) :
    Moves s ⟨m, s.calls.insert i c⟩ i (some c) :=
  ⟨by simp, fun j hj => by simp [AssocMap.get?_insert, hj]⟩

lemma moves_erase (s : State) (m : HandleManager) (i : ℕ) :
    Moves s ⟨m, s.calls.erase i⟩ i none :=
  ⟨by simp, fun j hj => by simp [AssocMap.get?_erase, hj]⟩

/-- A call that is at a place after a step was there before, or is the one that moved. -/
lemma Moves.has {s s' : State} {i : ℕ} {c : Option Call} (h : Moves s s' i c)
    {P : Call → Prop} (hP : s'.Has P) : s.Has P ∨ ∃ d, c = some d ∧ P d := by
  obtain ⟨j, d, hj, hd⟩ := hP
  by_cases hij : i = j
  · exact Or.inr ⟨d, by rw [← h.self, hij, hj], hd⟩
  · exact Or.inl ⟨j, d, by rw [← h.other j hij, hj], hd⟩

/-- A call that is at a place stays there, when it is not the one that moves. -/
lemma Moves.has_of_has {s s' : State} {i : ℕ} {c : Option Call} (h : Moves s s' i c)
    {P : Call → Prop} (hi : ∀ d, s.calls.get? i = some d → ¬ P d) (hP : s.Has P) : s'.Has P := by
  obtain ⟨j, d, hj, hd⟩ := hP
  have hij : i ≠ j := by
    rintro rfl
    exact hi d hj hd
  exact ⟨j, d, by rw [h.other j hij, hj], hd⟩

/-- A step to another place cannot complete a circle. -/
lemma Moves.not_deadlocked {s s' : State} {i : ℕ} {c : Option Call} (h : Moves s s' i c)
    (hfound : ∀ d, c = some d → ¬ d.IsFound) (hsecond : ∀ d, c = some d → ¬ d.IsSecond)
    (hs : ¬ s.Deadlocked) : ¬ s'.Deadlocked := by
  rw [State.deadlocked_iff] at hs ⊢
  rintro ⟨hf, hw⟩
  refine hs ⟨?_, ?_⟩
  · rcases h.has hf with hf | ⟨d, hd, hf⟩
    · exact hf
    · exact absurd hf (hfound d hd)
  · rcases h.has hw with hw | ⟨d, hd, hw⟩
    · exact hw
    · exact absurd hw (hsecond d hd)

/-- A call that finds its key completes a circle if some call holds `handles` and waits for
`path_index`. -/
lemma Moves.deadlocked_found_iff {s s' : State} {i : ℕ} {key : HandleKey} {id : HandleId}
    (h : Moves s s' i (some (.found key id)))
    (hi : ∀ d, s.calls.get? i = some d → ¬ d.IsSecond) :
    s'.Deadlocked ↔ s.Has Call.IsSecond := by
  rw [State.deadlocked_iff]
  constructor
  · rintro ⟨-, hw⟩
    rcases h.has hw with hw | ⟨d, hd, w, rfl⟩
    · exact hw
    · cases hd
  · intro hw
    exact ⟨⟨i, _, h.self, key, id, rfl⟩, h.has_of_has hi hw⟩

/-- A call that locks `handles` for writing completes a circle if some call has found its key
and waits for `handles`. -/
lemma Moves.deadlocked_second_iff {s s' : State} {i : ℕ} {w : Work}
    (h : Moves s s' i (some (.second w)))
    (hi : ∀ d, s.calls.get? i = some d → ¬ d.IsFound) :
    s'.Deadlocked ↔ s.Has Call.IsFound := by
  rw [State.deadlocked_iff]
  constructor
  · rintro ⟨hf, -⟩
    rcases h.has hf with hf | ⟨d, hd, key, id, rfl⟩
    · exact hf
    · cases hd
  · intro hf
    exact ⟨h.has_of_has hi hf, ⟨i, _, h.self, w, rfl⟩⟩

lemma not_deadlocked_start {s s' : State} {i : ℕ} {c : Call} (hs : ¬ s.Deadlocked)
    (hfound : ¬ c.IsFound) (hsecond : ¬ c.IsSecond) (h : start s i c = some s') :
    ¬ s'.Deadlocked := by
  unfold start at h
  split at h
  · cases h
  · cases h
    refine (moves_insert s s.mgr i c).not_deadlocked ?_ ?_ hs
    · rintro d ⟨⟩
      exact hfound
    · rintro d ⟨⟩
      exact hsecond

/-- What a step of a call does to the calls. -/
lemma moves_of_next {s s' : State} {i : ℕ} {id : HandleId} {now : ℕ}
    (h : step s (.next i id now) = some s') :
    ∃ c, s.calls.get? i = some c ∧ Moves s s' i (c.next s.mgr) := by
  obtain ⟨c, hc, h⟩ := Option.bind_eq_some_iff.1 h
  refine ⟨c, hc, ?_⟩
  split at h
  · cases h
    cases hnext : c.next s.mgr with
    | none => exact moves_erase s _ i
    | some c' => exact moves_insert s _ i c'
  · cases h

/-- Only the lookup in the path index leads to the one place. -/
lemma eq_index_of_next {m : HandleManager} {c d : Call} (h : c.next m = some d)
    (hd : d.IsFound) : ∃ key, c = .index key ∧ (m.pathIndex.get? key).isSome = true := by
  obtain ⟨key, id, rfl⟩ := hd
  cases c with
  | index k =>
    cases hk : m.pathIndex.get? k with
    | some id => exact ⟨k, rfl, by simp [hk]⟩
    | none => simp [Call.next, hk] at h
  | limited k full => cases full <;> simp [Call.next] at h
  | dropped k r => cases r <;> simp [Call.next] at h
  | _ => simp [Call.next] at h

/-- Only locking `handles` for writing leads to the other. -/
lemma eq_first_of_next {m : HandleManager} {c d : Call} (h : c.next m = some d)
    (hd : d.IsSecond) : ∃ w, c = .first w := by
  obtain ⟨w, rfl⟩ := hd
  cases c with
  | first w => exact ⟨w, rfl⟩
  | index k => cases hk : m.pathIndex.get? k <;> simp [Call.next, hk] at h
  | limited k full => cases full <;> simp [Call.next] at h
  | dropped k r => cases r <;> simp [Call.next] at h
  | _ => simp [Call.next] at h

/-- One step of a call, from a state without a circle. -/
lemma Moves.not_deadlocked_iff {s s' : State} {i : ℕ} {c : Call} (hs : ¬ s.Deadlocked)
    (hc : s.calls.get? i = some c) (h : Moves s s' i (c.next s.mgr)) :
    ¬ s'.Deadlocked ↔ CallOk s c := by
  have hself : ∀ d, s.calls.get? i = some d → d = c := fun d hd => by
    rw [hc] at hd
    exact (Option.some.inj hd).symm
  by_cases hindex : ∃ key, c = .index key ∧ (s.mgr.pathIndex.get? key).isSome = true
  · obtain ⟨key, rfl, hkey⟩ := hindex
    obtain ⟨id, hid⟩ := Option.isSome_iff_exists.1 hkey
    simp only [Call.next, hid] at h
    rw [h.deadlocked_found_iff ?_]
    · simp [CallOk, hid]
    · rintro d hd ⟨w, rfl⟩
      cases hself _ hd
  by_cases hfirst : ∃ w, c = .first w
  · obtain ⟨w, rfl⟩ := hfirst
    rw [h.deadlocked_second_iff ?_]
    · exact Iff.rfl
    · rintro d hd ⟨key, id, rfl⟩
      cases hself _ hd
  · refine iff_of_true (h.not_deadlocked ?_ ?_ hs) ?_
    · exact fun d hd hfound => hindex (eq_index_of_next hd hfound)
    · exact fun d hd hsecond => hfirst (eq_first_of_next hd hsecond)
    · cases c with
      | index key => exact fun hkey => absurd ⟨key, rfl, hkey⟩ hindex
      | first w => exact absurd ⟨w, rfl⟩ hfirst
      | _ => trivial

lemma step_not_deadlocked_iff {s s' : State} {ev : Event} (hs : ¬ s.Deadlocked)
    (h : step s ev = some s') : ¬ s'.Deadlocked ↔ LockOk s ev := by
  cases ev with
  | openHandle i path flags =>
    exact iff_of_true (not_deadlocked_start hs (by rintro ⟨_, _, ⟨⟩⟩) (by rintro ⟨_, ⟨⟩⟩) h) trivial
  | closeHandle i id =>
    exact iff_of_true (not_deadlocked_start hs (by rintro ⟨_, _, ⟨⟩⟩) (by rintro ⟨_, ⟨⟩⟩) h) trivial
  | cleanupExpired i now =>
    exact iff_of_true (not_deadlocked_start hs (by rintro ⟨_, _, ⟨⟩⟩) (by rintro ⟨_, ⟨⟩⟩) h) trivial
  | next i id now =>
    obtain ⟨c, hc, hmoves⟩ := moves_of_next h
    rw [hmoves.not_deadlocked_iff hs hc]
    simp [LockOk, hc]

lemma not_deadlocked_init (leaseTimeoutSecs maxHandles : ℕ) :
    ¬ (init leaseTimeoutSecs maxHandles).Deadlocked := by
  rw [State.deadlocked_iff]
  rintro ⟨⟨i, c, hi, -⟩, -⟩
  simp [init] at hi

/-- The runs without a circular wait, for any number of calls and every order of their steps. -/
theorem not_deadlocked_iff_lockOk (leaseTimeoutSecs maxHandles : ℕ) (evs : List Event) :
    StatesMeet step (fun s => ¬ s.Deadlocked) (init leaseTimeoutSecs maxHandles) evs ↔
      StepsMeet step LockOk (init leaseTimeoutSecs maxHandles) evs :=
  statesMeet_iff_stepsMeet (A := fun _ => True) (fun _ _ _ _ _ => trivial)
    (fun _ _ _ _ hs h => step_not_deadlocked_iff hs h) trivial
    (not_deadlocked_init leaseTimeoutSecs maxHandles)

/-- A file is opened (call 0).  It is opened again (call 1), up to where the key is found, and
closed (call 2), up to where `handles` is locked. -/
def circle : List Event :=
  let next := fun i => Event.next i ⟨0⟩ 0
  [.openHandle 0 ⟨ascii "/f"⟩ .READ, next 0, next 0, next 0, next 0, next 0, next 0, next 0,
    next 0, .openHandle 1 ⟨ascii "/f"⟩ .READ, next 1, next 1, next 1, .closeHandle 2 ⟨0⟩, next 2]

theorem deadlocked_circle :
    ∃ s, run step (init 3600 10000) circle = some s ∧ s.Deadlocked := by
  have hrun : (run step (init 3600 10000) circle).isSome = true := by decide
  obtain ⟨s, hs⟩ := Option.isSome_iff_exists.1 hrun
  have hfound : (run step (init 3600 10000) circle).bind (·.calls.get? 1) =
    some (.found (⟨ascii "/f"⟩, .READ) ⟨0⟩) := rfl
  have hsecond : (run step (init 3600 10000) circle).bind (·.calls.get? 2) =
    some (.second (.close ⟨0⟩)) := rfl
  rw [hs] at hfound hsecond
  exact ⟨s, hs, State.deadlocked_iff.2 ⟨⟨1, _, hfound, _, _, rfl⟩, ⟨2, _, hsecond, _, rfl⟩⟩⟩

end Racfs.Vfs.LockOrder
