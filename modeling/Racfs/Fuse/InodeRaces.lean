/-
# Calls of `allocate` that race

`InodeManager::allocate` looks up the path, takes a number from the counter, and enters it into
the two tables one after the other (`racfs-fuse/src/inode_manager.rs`).  Each of these four
operations is atomic, the call is not.  Here any number of calls run interleaved, for any paths
and without removals.

All calls for one path should return the same number, and when all have returned the tables
should be inverse to each other (`Agrees`).  A call that finds no number does not see that
another call for the path is on its way to enter one.  `agrees_of_stepOk` says that nothing else
goes wrong, as long as the counter does not come back to a number in use, and that in a run that
is completed this is always wrong.
-/
import Racfs.Fuse.InodeRuns
import Racfs.Lib.Run

namespace Racfs.Fuse.InodeRaces

/-- Where a call stands. -/
inductive Phase
  | start
  /-- The path had no number. -/
  | missed
  /-- The call has a number. -/
  | taken (ino : UInt64)
  /-- The number has its path. -/
  | entered (ino : UInt64)
  | returned (ino : UInt64)
deriving DecidableEq

namespace Phase

/-- The call is between its look-up and the last entry. -/
def Pending : Phase → Prop
  | missed | taken _ | entered _ => True
  | start | returned _ => False

/-- The number that the call has. -/
def number : Phase → Option UInt64
  | start | missed => none
  | taken ino | entered ino | returned ino => some ino

end Phase

/-- A call of `allocate`. -/
structure Allocation where
  path : PathBuf
  phase : Phase

/-- The tables and the calls. -/
structure State where
  tables : InodeManager
  calls : AssocMap ℕ Allocation

/-- No call has started. -/
def State.new (m : InodeManager) : State := ⟨m, ∅⟩

/-- The next operation of a call. -/
def operation (m : InodeManager) (path : PathBuf) : Phase → InodeManager × Phase
  | .start =>
    match m.pathToInode.get? path with
    | some ino => (m, .returned ino)
    | none => (m, .missed)
  | .missed => ({ m with nextInode := m.nextInode + 1 }, .taken m.nextInode)
  | .taken ino => ({ m with inodeToPath := m.inodeToPath.insert ino path }, .entered ino)
  | .entered ino => ({ m with pathToInode := m.pathToInode.insert path ino }, .returned ino)
  | .returned ino => (m, .returned ino)

/-- What can happen.  A call that starts gets a name that is free. -/
inductive Event
  | call (t : ℕ) (path : PathBuf)
  | operation (t : ℕ)

/-- A call has done its next operation. -/
def State.advance (s : State) (t : ℕ) (a : Allocation) : State :=
  let r := operation s.tables a.path a.phase
  ⟨r.1, s.calls.insert t ⟨a.path, r.2⟩⟩

/-- One step. -/
def step (s : State) : Event → Option State
  | .call t path =>
    if s.calls.contains t then none else some { s with calls := s.calls.insert t ⟨path, .start⟩ }
  | .operation t => (s.calls.get? t).map (s.advance t)

/-- Without other calls, the four operations are the call of the sequential model. -/
lemma operation_alone (m : InodeManager) (path : PathBuf) :
    (fun r => operation r.1 path r.2)^[4] (m, .start) =
      ((m.allocate path).2, .returned (m.allocate path).1) := by
  cases hget : m.pathToInode.get? path with
  | some ino => simp [operation, InodeManager.allocate, hget]
  | none => simp [operation, InodeManager.allocate, hget]

/-! ### Agreement -/

/-- All calls have returned. -/
def State.Finished (s : State) : Prop :=
  ∀ t a, s.calls.get? t = some a → ∃ ino, a.phase = .returned ino

/-- Calls for the same path have returned the same number, and when all have returned the tables
are inverse to each other. -/
structure Agrees (s : State) : Prop where
  same : ∀ t t' a a' ino ino', s.calls.get? t = some a → s.calls.get? t' = some a' →
    (a.path == a'.path) = true → a.phase = .returned ino → a'.phase = .returned ino' → ino = ino'
  inverse : s.Finished → s.tables.Inverse

/-- A call that finds no number is the only one on its way to enter one for its path, and the
number that a call takes is not in use. -/
def StepOk (s : State) : Event → Prop
  | .call _ _ => True
  | .operation t => ∀ a, s.calls.get? t = some a →
      (a.phase = .start → s.tables.getInode a.path = none →
        ∀ t' a', s.calls.get? t' = some a' → (a'.path == a.path) = true → ¬ a'.phase.Pending) ∧
      (a.phase = .missed → s.tables.getPath s.tables.nextInode = none ∧
        ∀ t' a', s.calls.get? t' = some a' → a'.phase ≠ .taken s.tables.nextInode)

/-- What the tables have for a call. -/
def AllocationOk (m : InodeManager) (a : Allocation) : Prop :=
  match a.phase with
  | .start => True
  | .missed => m.getInode a.path = none
  | .taken ino => m.getInode a.path = none ∧ m.getPath ino = none
  | .entered ino => m.getInode a.path = none ∧ m.getPath ino = some a.path
  | .returned ino => m.getInode a.path = some ino

/-- The invariant. -/
structure Inv (s : State) : Prop where
  path_of_inode : ∀ path ino, s.tables.getInode path = some ino →
    ∃ q, s.tables.getPath ino = some q ∧ (q == path) = true
  inode_of_path : ∀ ino q, s.tables.getPath ino = some q → s.tables.getInode q = some ino ∨
    ∃ t a, s.calls.get? t = some a ∧ a.path = q ∧ a.phase = .entered ino
  call : ∀ t a, s.calls.get? t = some a → AllocationOk s.tables a
  alone : ∀ t t' a a', s.calls.get? t = some a → s.calls.get? t' = some a' → a.phase.Pending →
    a'.phase.Pending → (a.path == a'.path) = true → t = t'
  distinct : ∀ t t' a a' ino, s.calls.get? t = some a → s.calls.get? t' = some a' →
    a.phase = .taken ino → a'.phase = .taken ino → t = t'

lemma Inv.new {m : InodeManager} (h : m.Inverse) : Inv (.new m) where
  path_of_inode := h.path_of_inode
  inode_of_path ino q hq := Or.inl (h.inode_of_path ino q hq)
  call _ _ ha := nomatch ha
  alone _ _ _ _ ha := nomatch ha
  distinct _ _ _ _ _ ha := nomatch ha

lemma Inv.agrees {s : State} (h : Inv s) : Agrees s := by
  refine ⟨fun t t' a a' ino ino' ha ha' hpath hino hino' => ?_,
    fun hfinished => ⟨fun ino q hq => ?_, h.path_of_inode⟩⟩
  · have hget := h.call t a ha
    have hget' := h.call t' a' ha'
    rw [AllocationOk, hino] at hget
    rw [AllocationOk, hino', ← InodeManager.getInode_congr hpath, hget] at hget'
    exact Option.some.inj hget'
  · rcases h.inode_of_path ino q hq with hino | ⟨t, a, ha, -, hphase⟩
    · exact hino
    · obtain ⟨i, hi⟩ := hfinished t a ha
      rw [hi] at hphase
      cases hphase

/-- A call after one call has moved: it is the one, or it is as before. -/
lemma get?_moved {calls : AssocMap ℕ Allocation} {t t' : ℕ} {a b : Allocation}
    (h : (calls.insert t b).get? t' = some a) :
    (t' = t ∧ a = b) ∨ (t' ≠ t ∧ calls.get? t' = some a) := by
  rw [AssocMap.get?_insert] at h
  split_ifs at h with heq
  · exact Or.inl ⟨(beq_iff_eq.1 heq).symm, (Option.some.inj h).symm⟩
  · exact Or.inr ⟨fun h' => heq (beq_iff_eq.2 h'.symm), h⟩

namespace Inv

variable {s : State} {t : ℕ} {a b : Allocation} {m : InodeManager}

/-- One call moves to `b`, the others stay. -/
lemma moved (h : Inv s)
    (hpath : ∀ path ino, m.getInode path = some ino →
      ∃ q, m.getPath ino = some q ∧ (q == path) = true)
    (hinode : ∀ ino q, m.getPath ino = some q → m.getInode q = some ino ∨
      ∃ t' a', (s.calls.insert t b).get? t' = some a' ∧ a'.path = q ∧ a'.phase = .entered ino)
    (hothers : ∀ t' a', t' ≠ t → s.calls.get? t' = some a' → AllocationOk m a')
    (hb : AllocationOk m b)
    (halone : b.phase.Pending → ∀ t' a', t' ≠ t → s.calls.get? t' = some a' →
      (a'.path == b.path) = true → ¬ a'.phase.Pending)
    (hdistinct : ∀ t' a' ino, t' ≠ t → s.calls.get? t' = some a' → b.phase = .taken ino →
      a'.phase ≠ .taken ino) : Inv ⟨m, s.calls.insert t b⟩ := by
  refine ⟨hpath, hinode, fun t' a' ha' => ?_, fun t₁ t₂ a₁ a₂ h₁ h₂ hp₁ hp₂ heq => ?_,
    fun t₁ t₂ a₁ a₂ ino h₁ h₂ hi₁ hi₂ => ?_⟩
  · obtain ⟨-, rfl⟩ | ⟨hne, ha'⟩ := get?_moved ha'
    · exact hb
    · exact hothers t' a' hne ha'
  · obtain ⟨rfl, rfl⟩ | ⟨hne₁, hold₁⟩ := get?_moved h₁
    · obtain ⟨rfl, -⟩ | ⟨hne₂, hold₂⟩ := get?_moved h₂
      · rfl
      · exact absurd hp₂ (halone hp₁ t₂ a₂ hne₂ hold₂ (BEq.symm heq))
    · obtain ⟨rfl, rfl⟩ | ⟨hne₂, hold₂⟩ := get?_moved h₂
      · exact absurd hp₁ (halone hp₂ t₁ a₁ hne₁ hold₁ heq)
      · exact h.alone t₁ t₂ a₁ a₂ hold₁ hold₂ hp₁ hp₂ heq
  · obtain ⟨rfl, rfl⟩ | ⟨hne₁, hold₁⟩ := get?_moved h₁
    · obtain ⟨rfl, -⟩ | ⟨hne₂, hold₂⟩ := get?_moved h₂
      · rfl
      · exact absurd hi₂ (hdistinct t₂ a₂ ino hne₂ hold₂ hi₁)
    · obtain ⟨rfl, rfl⟩ | ⟨hne₂, hold₂⟩ := get?_moved h₂
      · exact absurd hi₁ (hdistinct t₁ a₁ ino hne₁ hold₁ hi₂)
      · exact h.distinct t₁ t₂ a₁ a₂ ino hold₁ hold₂ hi₁ hi₂

/-- A number that has its path and is not entered yet belongs to a call, which is not the one
that moves. -/
lemma inode_of_path_kept (h : Inv s) (ha : s.calls.get? t = some a)
    (hphase : ∀ ino, a.phase ≠ .entered ino) {ino : UInt64} {q : PathBuf}
    (hq : s.tables.getPath ino = some q) : s.tables.getInode q = some ino ∨
      ∃ t' a', (s.calls.insert t b).get? t' = some a' ∧ a'.path = q ∧ a'.phase = .entered ino := by
  rcases h.inode_of_path ino q hq with hino | ⟨t', a', ha', hpath, hentered⟩
  · exact Or.inl hino
  · refine Or.inr ⟨t', a', ?_, hpath, hentered⟩
    rw [AssocMap.get?_insert, if_neg, ha']
    intro heq
    rw [beq_iff_eq.1 heq, ha'] at ha
    exact hphase ino (by rw [← Option.some.inj ha, hentered])

/-- Other calls for the path of a call on its way are not on theirs. -/
lemma alone_of_pending (h : Inv s) (ha : s.calls.get? t = some a) (hpending : a.phase.Pending)
    {t' : ℕ} {a' : Allocation} (hne : t' ≠ t) (ha' : s.calls.get? t' = some a')
    (hpath : (a'.path == a.path) = true) : ¬ a'.phase.Pending :=
  fun hp => hne (h.alone t' t a' a ha' ha hp hpending hpath)

/-- The look-up finds a number. -/
lemma hit (h : Inv s) (ha : s.calls.get? t = some a) (hphase : a.phase = .start) {ino : UInt64}
    (hino : s.tables.getInode a.path = some ino) :
    Inv ⟨s.tables, s.calls.insert t ⟨a.path, .returned ino⟩⟩ := by
  refine h.moved h.path_of_inode (fun i q hq => ?_) (fun t' a' _ ha' => h.call t' a' ha') hino
    (fun hp => nomatch hp) (fun t' a' i _ _ hi => Phase.noConfusion hi)
  exact h.inode_of_path_kept ha (by simp [hphase]) hq

/-- It finds none, and no other call is on its way. -/
lemma miss (h : Inv s) (ha : s.calls.get? t = some a) (hphase : a.phase = .start)
    (hino : s.tables.getInode a.path = none)
    (hok : ∀ t' a', s.calls.get? t' = some a' → (a'.path == a.path) = true → ¬ a'.phase.Pending) :
    Inv ⟨s.tables, s.calls.insert t ⟨a.path, .missed⟩⟩ := by
  refine h.moved h.path_of_inode (fun i q hq => ?_) (fun t' a' _ ha' => h.call t' a' ha') hino
    (fun _ t' a' _ ha' hpath => hok t' a' ha' hpath) (fun t' a' i _ _ hi => Phase.noConfusion hi)
  exact h.inode_of_path_kept ha (by simp [hphase]) hq

/-- The counter gives a number that is not in use. -/
lemma take (h : Inv s) (ha : s.calls.get? t = some a) (hphase : a.phase = .missed)
    (hfree : s.tables.getPath s.tables.nextInode = none)
    (hok : ∀ t' a', s.calls.get? t' = some a' → a'.phase ≠ .taken s.tables.nextInode) :
    Inv ⟨{ s.tables with nextInode := s.tables.nextInode + 1 },
      s.calls.insert t ⟨a.path, .taken s.tables.nextInode⟩⟩ := by
  have hnone := h.call t a ha
  rw [AllocationOk, hphase] at hnone
  refine h.moved h.path_of_inode (fun i q hq => ?_) (fun t' a' _ ha' => h.call t' a' ha')
    ⟨hnone, hfree⟩ (fun _ t' a' hne ha' hpath => ?_) (fun t' a' i _ ha' hi => ?_)
  · exact h.inode_of_path_kept ha (by simp [hphase]) hq
  · exact h.alone_of_pending ha (by rw [hphase]; trivial) hne ha' hpath
  · rw [← Phase.taken.inj hi]
    exact hok t' a' ha'

/-- The number gets its path. -/
lemma enter (h : Inv s) (ha : s.calls.get? t = some a) {ino : UInt64}
    (hphase : a.phase = .taken ino) :
    Inv ⟨{ s.tables with inodeToPath := s.tables.inodeToPath.insert ino a.path },
      s.calls.insert t ⟨a.path, .entered ino⟩⟩ := by
  obtain ⟨hnone, hfree⟩ : s.tables.getInode a.path = none ∧ s.tables.getPath ino = none := by
    have hcall := h.call t a ha
    rwa [AllocationOk, hphase] at hcall
  -- the number had no path, so what the table has for other numbers stays
  have hkept : ∀ {i q}, s.tables.getPath i = some q →
      (s.tables.inodeToPath.insert ino a.path).get? i = some q :=
    fun hq => AssocMap.get?_insert_of_new hfree hq
  refine h.moved (fun path i hi => ?_) (fun i q hq => ?_) (fun t' a' hne ha' => ?_)
    ⟨hnone, AssocMap.get?_insert_self _ _ _⟩ (fun _ t' a' hne ha' hpath => ?_)
    (fun t' a' i _ _ hi => Phase.noConfusion hi)
  · obtain ⟨q, hq, hqp⟩ := h.path_of_inode path i hi
    exact ⟨q, hkept hq, hqp⟩
  · simp only [InodeManager.getPath, AssocMap.get?_insert] at hq
    split_ifs at hq with heq
    · exact Or.inr ⟨t, ⟨a.path, .entered ino⟩, AssocMap.get?_insert_self _ _ _,
        Option.some.inj hq, by rw [beq_iff_eq.1 heq]⟩
    · exact h.inode_of_path_kept ha (by simp [hphase]) hq
  · have hcall := h.call t' a' ha'
    rw [AllocationOk] at hcall ⊢
    split at hcall
    · trivial
    · exact hcall
    · rename_i i hi
      refine ⟨hcall.1, ?_⟩
      simp only [InodeManager.getPath, AssocMap.get?_insert]
      rw [if_neg]
      · exact hcall.2
      · intro heq
        rw [← beq_iff_eq.1 heq] at hi
        exact hne (h.distinct t' t a' a ino ha' ha hi hphase)
    · exact ⟨hcall.1, hkept hcall.2⟩
    · exact hcall
  · exact h.alone_of_pending ha (by rw [hphase]; trivial) hne ha' hpath

/-- The path gets the number. -/
lemma publish (h : Inv s) (ha : s.calls.get? t = some a) {ino : UInt64}
    (hphase : a.phase = .entered ino) :
    Inv ⟨{ s.tables with pathToInode := s.tables.pathToInode.insert a.path ino },
      s.calls.insert t ⟨a.path, .returned ino⟩⟩ := by
  obtain ⟨hnone, hpath⟩ :
      s.tables.getInode a.path = none ∧ s.tables.getPath ino = some a.path := by
    have hcall := h.call t a ha
    rwa [AllocationOk, hphase] at hcall
  have hkept : ∀ {q i}, s.tables.getInode q = some i →
      (s.tables.pathToInode.insert a.path ino).get? q = some i :=
    fun hi => AssocMap.get?_insert_of_new hnone hi
  -- a path that another call is on its way for is not the one that gets a number now
  have hunset : ∀ {t' a'}, t' ≠ t → s.calls.get? t' = some a' → a'.phase.Pending →
      s.tables.getInode a'.path = none →
      (s.tables.pathToInode.insert a.path ino).get? a'.path = none := by
    intro t' a' hne ha' hp hnone'
    rw [AssocMap.get?_insert, if_neg]
    · exact hnone'
    · intro heq
      exact hne (h.alone t' t a' a ha' ha hp (by rw [hphase]; trivial) (BEq.symm heq))
  refine h.moved (fun q i hi => ?_) (fun i q hq => ?_) (fun t' a' hne ha' => ?_)
    (AssocMap.get?_insert_self _ _ _) (fun hp => nomatch hp)
    (fun t' a' i _ _ hi => Phase.noConfusion hi)
  · simp only [InodeManager.getInode, AssocMap.get?_insert] at hi
    split_ifs at hi with heq
    · rw [← Option.some.inj hi]
      exact ⟨a.path, hpath, heq⟩
    · exact h.path_of_inode q i hi
  · rcases h.inode_of_path i q hq with hi | ⟨t', a', ha', hq', hentered⟩
    · exact Or.inl (hkept hi)
    · by_cases hne : t' = t
      · subst hne
        obtain rfl : a = a' := Option.some.inj (ha.symm.trans ha')
        obtain rfl : ino = i := Phase.entered.inj (hphase.symm.trans hentered)
        rw [← hq']
        exact Or.inl (AssocMap.get?_insert_self _ _ _)
      · refine Or.inr ⟨t', a', ?_, hq', hentered⟩
        rw [AssocMap.get?_insert, if_neg, ha']
        exact fun heq => hne (beq_iff_eq.1 heq).symm
  · have hcall := h.call t' a' ha'
    have hset := hunset hne ha'
    rw [AllocationOk] at hcall ⊢
    split at hcall
    · trivial
    · rename_i hp
      exact hset (by rw [hp]; trivial) hcall
    · rename_i i hp
      exact ⟨hset (by rw [hp]; trivial) hcall.1, hcall.2⟩
    · rename_i i hp
      exact ⟨hset (by rw [hp]; trivial) hcall.1, hcall.2⟩
    · exact hkept hcall

/-- One operation. -/
lemma advance (h : Inv s) (ha : s.calls.get? t = some a) (hok : StepOk s (.operation t)) :
    Inv (s.advance t a) := by
  obtain ⟨hstart, hmissed⟩ := hok a ha
  rw [State.advance]
  cases hphase : a.phase with
  | start =>
    rw [operation]
    cases hget : s.tables.pathToInode.get? a.path with
    | some ino => exact h.hit ha hphase hget
    | none => exact h.miss ha hphase hget (hstart hphase hget)
  | missed => exact h.take ha hphase (hmissed hphase).1 (hmissed hphase).2
  | taken ino => exact h.enter ha hphase
  | entered ino => exact h.publish ha hphase
  | returned ino =>
    have hcall := h.call t a ha
    rw [AllocationOk, hphase] at hcall
    refine h.moved h.path_of_inode (fun i q hq => ?_) (fun t' a' _ ha' => h.call t' a' ha') hcall
      (fun hp => nomatch hp) (fun t' a' i _ _ hi => Phase.noConfusion hi)
    exact h.inode_of_path_kept ha (by simp [hphase]) hq

end Inv

lemma inv_step {s s' : State} {e : Event} (h : Inv s) (hok : StepOk s e)
    (hs' : step s e = some s') : Inv s' := by
  cases e with
  | call t path =>
    obtain ⟨hfree, hs'⟩ := Option.ite_none_left_eq_some.1 hs'
    rw [← Option.some.inj hs']
    refine h.moved h.path_of_inode (fun i q hq => ?_) (fun t' a' _ ha' => h.call t' a' ha')
      trivial (fun hp => nomatch hp) (fun t' a' i _ _ hi => Phase.noConfusion hi)
    rcases h.inode_of_path i q hq with hino | ⟨t', a', ha', hpath, hentered⟩
    · exact Or.inl hino
    · have hnew := AssocMap.contains_eq_false_iff.1 (Bool.eq_false_iff.2 hfree)
      exact Or.inr ⟨t', a', AssocMap.get?_insert_of_new hnew ha', hpath, hentered⟩
  | operation t =>
    obtain ⟨a, ha, rfl⟩ := Option.map_eq_some_iff.1 hs'
    exact h.advance ha hok

/-! ### Two calls on their way -/

/-- The counter is above all numbers that it has given. -/
structure Below (s : State) : Prop where
  path : ∀ ino path, s.tables.getPath ino = some path → ino.toNat < s.tables.nextInode.toNat
  inode : ∀ path ino, s.tables.getInode path = some ino → ino.toNat < s.tables.nextInode.toNat
  calls : ∀ t a ino, s.calls.get? t = some a → a.phase.number = some ino →
    ino.toNat < s.tables.nextInode.toNat

/-- Two phases past the look-up, with no number in common. -/
structure Apart (next : UInt64) (phase phase' : Phase) : Prop where
  left : phase ≠ .start
  right : phase' ≠ .start
  left_lt : ∀ ino, phase.number = some ino → ino.toNat < next.toNat
  right_lt : ∀ ino, phase'.number = some ino → ino.toNat < next.toNat
  ne : ∀ ino, phase.number = some ino → phase'.number ≠ some ino

/-- Two calls for one path will return different numbers. -/
def Split (s : State) : Prop :=
  ∃ t t' a a', t ≠ t' ∧ s.calls.get? t = some a ∧ s.calls.get? t' = some a' ∧
    (a.path == a'.path) = true ∧ Apart s.tables.nextInode a.phase a'.phase

section Operation

variable {m : InodeManager} {path q : PathBuf} {phase : Phase} {ino : UInt64}

/-- The look-up leaves the tables as they are. -/
lemma operation_start_fst : (operation m path .start).1 = m := by
  rw [operation]
  cases m.pathToInode.get? path <;> rfl

/-- The counter after an operation. -/
lemma nextInode_operation (hroom : m.nextInode.toNat + 1 < 2 ^ 64) :
    (operation m path phase).1.nextInode.toNat =
      m.nextInode.toNat + if phase = .missed then 1 else 0 := by
  cases phase with
  | start => rw [operation_start_fst]; rfl
  | missed =>
    show (m.nextInode + 1).toNat = m.nextInode.toNat + 1
    rw [UInt64.toNat_add]
    exact Nat.mod_eq_of_lt hroom
  | taken i => rfl
  | entered i => rfl
  | returned i => rfl

lemma le_nextInode_operation (hroom : m.nextInode.toNat + 1 < 2 ^ 64) :
    m.nextInode.toNat ≤ (operation m path phase).1.nextInode.toNat := by
  rw [nextInode_operation hroom]
  exact Nat.le_add_right _ _

lemma operation_ne_start : (operation m path phase).2 ≠ .start := by
  cases phase with
  | start =>
    rw [operation]
    cases m.pathToInode.get? path <;> exact nofun
  | missed => exact nofun
  | taken i => exact nofun
  | entered i => exact nofun
  | returned i => exact nofun

/-- Where the number of a call comes from. -/
lemma number_operation (h : (operation m path phase).2.number = some ino) :
    phase.number = some ino ∨ (phase = .start ∧ m.getInode path = some ino) ∨
      (phase = .missed ∧ m.nextInode = ino) := by
  cases phase with
  | start =>
    rw [operation] at h
    cases hget : m.pathToInode.get? path with
    | none =>
      rw [hget] at h
      cases h
    | some i =>
      rw [hget] at h
      exact Or.inr (Or.inl ⟨rfl, hget.trans h⟩)
  | missed => exact Or.inr (Or.inr ⟨rfl, Option.some.inj h⟩)
  | taken i => exact Or.inl h
  | entered i => exact Or.inl h
  | returned i => exact Or.inl h

/-- Where a number with a path comes from. -/
lemma getPath_operation (h : (operation m path phase).1.getPath ino = some q) :
    m.getPath ino = some q ∨ phase.number = some ino := by
  cases phase with
  | start =>
    rw [operation_start_fst] at h
    exact Or.inl h
  | missed => exact Or.inl h
  | taken i =>
    simp only [operation, InodeManager.getPath, AssocMap.get?_insert] at h
    split_ifs at h with heq
    · exact Or.inr (congrArg some (beq_iff_eq.1 heq))
    · exact Or.inl h
  | entered i => exact Or.inl h
  | returned i => exact Or.inl h

/-- Where the number of a path comes from. -/
lemma getInode_operation (h : (operation m path phase).1.getInode q = some ino) :
    m.getInode q = some ino ∨ phase.number = some ino := by
  cases phase with
  | start =>
    rw [operation_start_fst] at h
    exact Or.inl h
  | missed => exact Or.inl h
  | taken i => exact Or.inl h
  | entered i =>
    simp only [operation, InodeManager.getInode, AssocMap.get?_insert] at h
    split_ifs at h with heq
    · exact Or.inr h
    · exact Or.inl h
  | returned i => exact Or.inl h

end Operation

namespace Below

variable {s s' : State} {e : Event}

lemma new {m : InodeManager} (h : m.Sound) : Below (.new m) := by
  refine ⟨fun ino path hpath => h.below ino path hpath, fun path ino hino => ?_,
    fun _ _ _ ha => nomatch ha⟩
  exact h.lt_of_uses (Or.inr ⟨path, hino⟩)

lemma advance (h : Below s) {t : ℕ} {a : Allocation} (ha : s.calls.get? t = some a)
    (hroom : s.tables.nextInode.toNat + 1 < 2 ^ 64) : Below (s.advance t a) := by
  have hle : s.tables.nextInode.toNat ≤ (s.advance t a).tables.nextInode.toNat :=
    le_nextInode_operation hroom
  refine ⟨fun ino q hq => ?_, fun q ino hino => ?_, fun t' a' ino ha' hnumber => ?_⟩
  · rcases getPath_operation hq with hold | hown
    · exact (h.path ino q hold).trans_le hle
    · exact (h.calls t a ino ha hown).trans_le hle
  · rcases getInode_operation hino with hold | hown
    · exact (h.inode q ino hold).trans_le hle
    · exact (h.calls t a ino ha hown).trans_le hle
  · obtain ⟨-, rfl⟩ | ⟨-, ha'⟩ := get?_moved ha'
    · rcases number_operation hnumber with hown | ⟨-, hino⟩ | ⟨hmissed, rfl⟩
      · exact (h.calls t a ino ha hown).trans_le hle
      · exact (h.inode a.path ino hino).trans_le hle
      · show s.tables.nextInode.toNat < (operation s.tables a.path a.phase).1.nextInode.toNat
        rw [nextInode_operation hroom, if_pos hmissed]
        omega
    · exact (h.calls t' a' ino ha' hnumber).trans_le hle

lemma step (h : Below s) (hroom : s.tables.nextInode.toNat + 1 < 2 ^ 64)
    (hs' : step s e = some s') :
    Below s' ∧ s'.tables.nextInode.toNat ≤ s.tables.nextInode.toNat + 1 := by
  cases e with
  | call t path =>
    obtain ⟨-, hs'⟩ := Option.ite_none_left_eq_some.1 hs'
    rw [← Option.some.inj hs']
    refine ⟨⟨h.path, h.inode, fun t' a' ino ha' hnumber => ?_⟩, Nat.le_succ _⟩
    obtain ⟨-, rfl⟩ | ⟨-, ha'⟩ := get?_moved ha'
    · cases hnumber
    · exact h.calls t' a' ino ha' hnumber
  | operation t =>
    obtain ⟨a, ha, rfl⟩ := Option.map_eq_some_iff.1 hs'
    refine ⟨h.advance ha hroom, ?_⟩
    show (operation s.tables a.path a.phase).1.nextInode.toNat ≤ s.tables.nextInode.toNat + 1
    rw [nextInode_operation hroom]
    split_ifs <;> omega

/-- Only a call on its way for the same path is in the way of a step. -/
lemma stepOk_or_split (h : Below s) (hs' : InodeRaces.step s e = some s') :
    StepOk s e ∨ Split s' := by
  by_contra! hcon
  obtain ⟨hnot, hsplit⟩ := hcon
  cases e with
  | call t path => exact hnot trivial
  | operation t =>
    obtain ⟨a, ha, rfl⟩ := Option.map_eq_some_iff.1 hs'
    refine hnot fun b hb => ?_
    obtain rfl : a = b := Option.some.inj (ha.symm.trans hb)
    refine ⟨fun hstart hnone t' a' ha' hpath hpending => hsplit ?_, fun hmissed => ⟨?_, ?_⟩⟩
    · have hne : t ≠ t' := by
        rintro rfl
        rw [← Option.some.inj (ha.symm.trans ha'), hstart] at hpending
        exact hpending
      have hoperation : operation s.tables a.path a.phase = (s.tables, .missed) := by
        rw [hstart, operation]
        rw [InodeManager.getInode] at hnone
        rw [hnone]
      rw [State.advance, hoperation]
      refine ⟨t, t', ⟨a.path, .missed⟩, a', hne, AssocMap.get?_insert_self _ _ _, ?_,
        BEq.symm hpath, by simp, ?_, by simp [Phase.number],
        fun ino hino => h.calls t' a' ino ha' hino, by simp [Phase.number]⟩
      · rw [AssocMap.get?_insert, if_neg (by simpa using hne), ha']
      · intro heq
        rw [heq] at hpending
        exact hpending
    · cases hget : s.tables.getPath s.tables.nextInode with
      | none => rfl
      | some q => exact absurd (h.path _ q hget) (Nat.lt_irrefl _)
    · intro t' a' ha' htaken
      exact absurd (h.calls t' a' _ ha' (by rw [htaken]; rfl)) (Nat.lt_irrefl _)

end Below

namespace Apart

variable {m : InodeManager} {next next' : UInt64} {phase phase' : Phase}

lemma symm (h : Apart next phase phase') : Apart next phase' phase :=
  ⟨h.right, h.left, h.right_lt, h.left_lt, fun ino hino' hino => h.ne ino hino hino'⟩

lemma mono (h : Apart next phase phase') (hle : next.toNat ≤ next'.toNat) :
    Apart next' phase phase' :=
  ⟨h.left, h.right, fun ino hino => (h.left_lt ino hino).trans_le hle,
    fun ino hino => (h.right_lt ino hino).trans_le hle, h.ne⟩

/-- The number that one of the two takes is above the number of the other. -/
lemma operation (h : Apart m.nextInode phase phase') (path : PathBuf)
    (hroom : m.nextInode.toNat + 1 < 2 ^ 64) :
    Apart (operation m path phase).1.nextInode (operation m path phase).2 phase' := by
  have hle : m.nextInode.toNat ≤ (InodeRaces.operation m path phase).1.nextInode.toNat :=
    le_nextInode_operation hroom
  refine ⟨operation_ne_start, h.right, fun ino hino => ?_,
    fun ino hino => (h.right_lt ino hino).trans_le hle, fun ino hino hino' => ?_⟩
  · rcases number_operation hino with hown | ⟨hstart, -⟩ | ⟨hmissed, rfl⟩
    · exact (h.left_lt ino hown).trans_le hle
    · exact absurd hstart h.left
    · rw [nextInode_operation hroom, if_pos hmissed]
      omega
  · rcases number_operation hino with hown | ⟨hstart, -⟩ | ⟨-, rfl⟩
    · exact h.ne ino hown hino'
    · exact h.left hstart
    · exact absurd (h.right_lt _ hino') (Nat.lt_irrefl _)

end Apart

namespace Split

variable {s s' : State}

/-- Two calls that are apart stay apart. -/
lemma step {e : Event} (h : Split s) (hroom : s.tables.nextInode.toNat + 1 < 2 ^ 64)
    (hs' : step s e = some s') : Split s' := by
  obtain ⟨t, t', a, a', hne, ha, ha', hpath, hapart⟩ := h
  have hkept : ∀ {u i b c}, i ≠ u → s.calls.get? i = some c →
      (s.calls.insert u b).get? i = some c := by
    intro u i b c hiu hc
    rw [AssocMap.get?_insert, if_neg (by simpa using hiu.symm), hc]
  cases e with
  | call u path =>
    obtain ⟨hfree, hs'⟩ := Option.ite_none_left_eq_some.1 hs'
    rw [← Option.some.inj hs']
    have hnew : ∀ {i c}, s.calls.get? i = some c → i ≠ u := by
      rintro i c hc rfl
      exact hfree (AssocMap.contains_iff.2 ⟨c, hc⟩)
    exact ⟨t, t', a, a', hne, hkept (hnew ha) ha, hkept (hnew ha') ha', hpath, hapart⟩
  | operation u =>
    obtain ⟨b, hb, rfl⟩ := Option.map_eq_some_iff.1 hs'
    by_cases htu : t = u
    · subst htu
      obtain rfl : a = b := Option.some.inj (ha.symm.trans hb)
      exact ⟨t, t', _, a', hne, AssocMap.get?_insert_self _ _ _, hkept hne.symm ha', hpath,
        hapart.operation a.path hroom⟩
    by_cases htu' : t' = u
    · subst htu'
      obtain rfl : a' = b := Option.some.inj (ha'.symm.trans hb)
      exact ⟨t, t', a, _, hne, hkept hne ha, AssocMap.get?_insert_self _ _ _, hpath,
        (hapart.symm.operation a'.path hroom).symm⟩
    · exact ⟨t, t', a, a', hne, hkept htu ha, hkept htu' ha', hpath,
        hapart.mono (le_nextInode_operation hroom)⟩

lemma not_agrees (h : Split s) (hfinished : s.Finished) : ¬ Agrees s := by
  intro hagrees
  obtain ⟨t, t', a, a', -, ha, ha', hpath, hapart⟩ := h
  obtain ⟨ino, hino⟩ := hfinished t a ha
  obtain ⟨ino', hino'⟩ := hfinished t' a' ha'
  have heq := hagrees.same t t' a a' ino ino' ha ha' hpath hino hino'
  exact hapart.ne ino (by rw [hino]; rfl) (by rw [hino', heq]; rfl)

/-- Along a run. -/
lemma run {evs : List Event} (h : Split s) (hbelow : Below s)
    (hroom : s.tables.nextInode.toNat + evs.length < 2 ^ 64)
    (hrun : Racfs.run InodeRaces.step s evs = some s') : Split s' := by
  induction evs generalizing s with
  | nil =>
    obtain rfl : s = s' := Option.some.inj hrun
    exact h
  | cons e evs ih =>
    rw [List.length_cons] at hroom
    obtain ⟨s₁, hs₁, hrest⟩ := exists_of_run_cons hrun
    obtain ⟨hbelow₁, hnext⟩ := hbelow.step (by omega) hs₁
    exact ih (h.step (by omega) hs₁) hbelow₁ (by omega) hrest

end Split

/-- A completed run in which the calls agree is one of steps under the condition. -/
lemma stepsMeet_of_agrees {s s' : State} {evs : List Event} (hbelow : Below s)
    (hroom : s.tables.nextInode.toNat + evs.length < 2 ^ 64) (hrun : run step s evs = some s')
    (hfinished : s'.Finished) (hagrees : Agrees s') : StepsMeet step StepOk s evs := by
  induction evs generalizing s with
  | nil => trivial
  | cons e evs ih =>
    rw [List.length_cons] at hroom
    obtain ⟨s₁, hs₁, hrest⟩ := exists_of_run_cons hrun
    obtain ⟨hbelow₁, hnext⟩ := hbelow.step (by omega) hs₁
    intro s₂ hs₂
    obtain rfl : s₁ = s₂ := Option.some.inj (hs₁.symm.trans hs₂)
    refine ⟨?_, ih hbelow₁ (by omega) hrest⟩
    rcases hbelow.stepOk_or_split hs₁ with hok | hsplit
    · exact hok
    · have hsplit' := hsplit.run hbelow₁ (by omega) hrest
      exact absurd hagrees (hsplit'.not_agrees hfinished)

/-- In all runs, the calls agree as long as no call finds its path without a number while another
is on its way to enter one, and the counter gives no number in use.  In a completed run that
does not exhaust the counter they agree only then. -/
theorem agrees_of_stepOk {m : InodeManager} (hm : m.Sound) (evs : List Event) :
    (StepsMeet step StepOk (.new m) evs → StatesMeet step Agrees (.new m) evs) ∧
    ∀ s, run step (.new m) evs = some s → s.Finished →
      m.nextInode.toNat + evs.length < 2 ^ 64 →
      (Agrees s ↔ StepsMeet step StepOk (.new m) evs) := by
  have hsteps : StepsMeet step StepOk (.new m) evs → StatesMeet step Inv (.new m) evs :=
    statesMeet_of_stepsMeet (fun _ _ _ h hok hs' => inv_step h hok hs') (Inv.new hm.toInverse)
  refine ⟨fun h => (hsteps h).imp fun _ hinv => hinv.agrees, fun s hrun hfinished hroom => ?_⟩
  refine ⟨stepsMeet_of_agrees (Below.new hm) hroom hrun hfinished, fun h => ?_⟩
  have hinv := (hsteps h).run_invariant (fun _ _ _ _ _ _ => trivial) trivial hrun
  exact hinv.2.agrees

/-- A call for `/a` that returns before another one starts. -/
def orderedRun : List Event :=
  [.call 0 ⟨ascii "/a"⟩, .operation 0, .operation 0, .operation 0, .operation 0,
    .call 1 ⟨ascii "/a"⟩, .operation 1]

theorem agrees_orderedRun :
    (∃ s, run step (.new .new) orderedRun = some s ∧
      s.calls.get? 0 = some ⟨⟨ascii "/a"⟩, .returned 2⟩ ∧
      s.calls.get? 1 = some ⟨⟨ascii "/a"⟩, .returned 2⟩) ∧
    StatesMeet step Agrees (.new .new) orderedRun := by
  refine ⟨⟨_, rfl, rfl, rfl⟩, (agrees_of_stepOk InodeManager.sound_new orderedRun).1 ?_⟩
  have hnumber : ∀ {s t a}, s.calls.get? t = some a → a.phase ≠ .missed →
      (a.phase = .start → s.tables.getInode a.path ≠ none) → StepOk s (.operation t) := by
    intro s t a ha hmissed hstart b hb
    obtain rfl := Option.some.inj (ha.symm.trans hb)
    exact ⟨fun h hnone => absurd hnone (hstart h), fun h => absurd h hmissed⟩
  -- the first call finds no number, and is alone; then it has one, and the second finds it
  refine fun _ h => ⟨trivial, ?_⟩
  obtain rfl := Option.some.inj h
  refine fun _ h => ⟨fun a ha => ?_, ?_⟩
  · obtain rfl := Option.some.inj ha
    refine ⟨fun _ _ t' a' ha' _ => ?_, nofun⟩
    obtain ⟨-, rfl⟩ | ⟨-, ha'⟩ := get?_moved ha'
    · exact id
    · cases ha'
  obtain rfl := Option.some.inj h
  refine fun _ h => ⟨fun a ha => ?_, ?_⟩
  · obtain rfl := Option.some.inj ha
    refine ⟨nofun, fun _ => ⟨rfl, fun t' a' ha' => ?_⟩⟩
    obtain ⟨-, rfl⟩ | ⟨hne, ha'⟩ := get?_moved ha'
    · exact nofun
    · obtain ⟨rfl, -⟩ | ⟨-, ha'⟩ := get?_moved ha'
      · exact absurd rfl hne
      · cases ha'
  obtain rfl := Option.some.inj h
  refine fun _ h => ⟨hnumber rfl nofun nofun, ?_⟩
  obtain rfl := Option.some.inj h
  refine fun _ h => ⟨hnumber rfl nofun nofun, ?_⟩
  obtain rfl := Option.some.inj h
  refine fun _ h => ⟨trivial, ?_⟩
  obtain rfl := Option.some.inj h
  exact fun _ h => ⟨hnumber rfl nofun fun _ => by decide, trivial⟩

/-- Two calls for `/a` that both look it up before one of them has entered a number. -/
def racingRun : List Event :=
  [.call 0 ⟨ascii "/a"⟩, .call 1 ⟨ascii "/a"⟩, .operation 0, .operation 1, .operation 0,
    .operation 1, .operation 0, .operation 1, .operation 0, .operation 1]

/-- They return different numbers, and the path of the first leads to the second. -/
theorem not_agrees_racingRun :
    (∃ s, run step (.new .new) racingRun = some s ∧
      s.calls.get? 0 = some ⟨⟨ascii "/a"⟩, .returned 2⟩ ∧
      s.calls.get? 1 = some ⟨⟨ascii "/a"⟩, .returned 3⟩ ∧ ¬ Agrees s ∧ ¬ s.tables.Inverse) ∧
    ¬ StatesMeet step Agrees (.new .new) racingRun := by
  have hfinal : ∀ s, run step (.new .new) racingRun = some s → ¬ Agrees s ∧ ¬ s.tables.Inverse := by
    intro s hs
    obtain rfl := Option.some.inj hs
    constructor
    · intro h
      have heq : (2 : UInt64) = 3 := h.same 0 1 _ _ 2 3 rfl rfl rfl rfl rfl
      exact absurd heq (by decide)
    · intro h
      have hino := h.inode_of_path 2 ⟨ascii "/a"⟩ rfl
      exact absurd hino (by decide)
  refine ⟨⟨_, rfl, rfl, rfl, hfinal _ rfl⟩, fun h => ?_⟩
  have hlast := h.run_invariant (fun _ _ _ _ _ _ => trivial) trivial rfl
  exact (hfinal _ rfl).1 hlast.2

end Racfs.Fuse.InodeRaces
