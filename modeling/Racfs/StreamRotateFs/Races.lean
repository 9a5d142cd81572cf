/-
# Several writers of one log

A write to the current file is three sections under the lock: the bytes are appended, the size
is checked, and a file that was found full is rotated.  Between them other writers can run, so
by the time a writer rotates, another one may have rotated the bytes that made the file full,
and what is archived is short or empty.

Only the rotations matter.  Between two of them the current file grows, so the check of a
writer still holds as long as nobody else has rotated (`Inv.pending`); otherwise enough bytes
must have been appended since (`rotatedFull_iff`).
-/
import Racfs.StreamRotateFs.Rotation

namespace Racfs.StreamRotateFs

open StreamRotateFS

/-- Where a writer is in its call. -/
inductive Phase
  | idle
  /-- It has appended its bytes. -/
  | appended
  /-- It has found the file full; the number is the one that the next archive file had then. -/
  | full (seq : ℕ)
deriving DecidableEq

/-- The log and its writers. -/
structure Writers where
  fs : StreamRotateFS
  phases : ℕ → Phase

/-- A section of the call of a writer. -/
inductive Section
  | append (i : ℕ) (data : Bytes) (now : DateTime)
  | check (i : ℕ)
  | rotate (i : ℕ) (now : DateTime)

namespace Writers

/-- A new log, and writers that have not started. -/
def new (config : RotateConfig) (now : DateTime) : Writers :=
  ⟨withConfig config now, fun _ => .idle⟩

/-- A writer gets to another place of its call. -/
def moveTo (s : Writers) (i : ℕ) (fs : StreamRotateFS) (phase : Phase) : Writers :=
  ⟨fs, Function.update s.phases i phase⟩

lemma phases_moveTo (s : Writers) (i j : ℕ) (fs : StreamRotateFS) (phase : Phase) :
    (s.moveTo i fs phase).phases j = if j = i then phase else s.phases j :=
  Function.update_apply ..

/-- One section. -/
def step (s : Writers) : Section → Option Writers
  | .append i data now =>
    match s.phases i with
    | .idle => some (s.moveTo i (s.fs.append data now) .appended)
    | _ => none
  | .check i =>
    match s.phases i with
    | .appended =>
      some (s.moveTo i s.fs (if s.fs.needsRotation then .full s.fs.state.nextSeq else .idle))
    | _ => none
  | .rotate i now =>
    match s.phases i with
    | .full _ => some (s.moveTo i (s.fs.rotate now) .idle)
    | _ => none

/-- The sections of a call that no other one comes in between of. -/
def writeSections (fs : StreamRotateFS) (i : ℕ) (data : Bytes) (now : DateTime) : List Section :=
  .append i data now :: .check i ::
    if (fs.append data now).needsRotation then [.rotate i now] else []

/-- They do what the call does. -/
theorem run_writeSections {s : Writers} {i : ℕ} (hi : s.phases i = .idle) {path : PathBuf}
    (hpath : IsCurrent path) (data : Bytes) (offset : Int64) (flags : WriteFlags)
    (now : DateTime) :
    ∃ s', run step s (writeSections s.fs i data now) = some s' ∧ s'.phases = s.phases ∧
      s'.fs = (s.fs.write path data offset flags now).2 := by
  rcases write_cases s.fs ⟨path, data, offset, flags, now⟩ with ⟨-, heq⟩ | ⟨hnot, -⟩
  · have hidle : Function.update s.phases i .idle = s.phases := by
      rw [← hi]
      exact Function.update_eq_self i s.phases
    simp only at heq
    rw [heq, checkRotate, writeSections]
    by_cases hfull : (s.fs.append data now).needsRotation = true
    · rw [if_pos hfull, if_pos hfull]
      refine ⟨⟨(s.fs.append data now).rotate now, s.phases⟩, ?_, rfl, rfl⟩
      simp [run, step, moveTo, hi, hfull, hidle]
    · rw [if_neg hfull, if_neg hfull]
      refine ⟨⟨s.fs.append data now, s.phases⟩, ?_, rfl, rfl⟩
      simp [run, step, moveTo, hi, hfull, hidle]
  · exact absurd hpath hnot

/-- Every file that has come into the archive has the size from which on files are rotated. -/
def RotatedFull (s : Writers) : Prop :=
  ∀ e ∈ s.fs.archived, s.fs.config.maxSize ≤ e.2.data.length

/-- A writer that rotates is the first one to do so since its check, or enough bytes have been
appended since the last rotation. -/
def Fresh (s : Writers) : Section → Prop
  | .rotate i _ => s.phases i = .full s.fs.state.nextSeq ∨
      s.fs.config.maxSize ≤ s.fs.state.current.data.length
  | _ => True

/-- What the sections keep under the condition. -/
structure Inv (s : Writers) : Prop where
  numbered : s.fs.Numbered
  full : s.RotatedFull
  le_next : ∀ i seq, s.phases i = .full seq → seq ≤ s.fs.state.nextSeq
  /-- As long as nobody else has rotated, a file that was found full is full. -/
  pending : ∀ i, s.phases i = .full s.fs.state.nextSeq →
    s.fs.config.maxSize ≤ s.fs.state.current.data.length

lemma inv_new (config : RotateConfig) (now : DateTime) : Inv (new config now) where
  numbered := ⟨rfl, le_rfl⟩
  full := by
    intro e he
    cases he
  le_next := by
    intro i seq h
    cases h
  pending := by
    intro i h
    cases h

variable {s s' : Writers}

/-- A writer that comes to another place of its call without a file that it has found full. -/
lemma eq_of_moveTo {fs : StreamRotateFS} {i j seq : ℕ} {phase : Phase}
    (hphase : ∀ n, phase ≠ .full n) (h : (s.moveTo i fs phase).phases j = .full seq) :
    s.phases j = .full seq := by
  rw [phases_moveTo] at h
  split_ifs at h
  · exact absurd h (hphase seq)
  · exact h

lemma Inv.append (h : s.Inv) (i : ℕ) (data : Bytes) (now : DateTime) :
    (s.moveTo i (s.fs.append data now) .appended).Inv where
  numbered := h.numbered
  full := h.full
  le_next := fun j seq hj => h.le_next j seq (eq_of_moveTo (by simp) hj)
  pending := by
    intro j hj
    have hlen := h.pending j (eq_of_moveTo (by simp) hj)
    refine Nat.le_trans hlen ?_
    simp [moveTo, StreamRotateFS.append]

lemma Inv.check (h : s.Inv) (i : ℕ) :
    (s.moveTo i s.fs
      (if s.fs.needsRotation then .full s.fs.state.nextSeq else .idle)).Inv where
  numbered := h.numbered
  full := h.full
  le_next := by
    intro j seq hj
    rw [phases_moveTo] at hj
    split_ifs at hj with hij hfull
    · exact (Phase.full.inj hj) ▸ le_rfl
    · exact h.le_next j seq hj
  pending := by
    intro j hj
    have hnext : (s.moveTo i s.fs
      (if s.fs.needsRotation then .full s.fs.state.nextSeq else .idle)).fs = s.fs := rfl
    rw [hnext] at hj ⊢
    rw [phases_moveTo] at hj
    split_ifs at hj with hij hfull
    · simpa [needsRotation] using hfull
    · exact h.pending j hj

lemma rotatedFull_rotate_iff (h : s.Inv) (i : ℕ) (now : DateTime) :
    (s.moveTo i (s.fs.rotate now) .idle).RotatedFull ↔
      s.fs.config.maxSize ≤ s.fs.state.current.data.length := by
  have harchived : (s.moveTo i (s.fs.rotate now) .idle).fs.archived = s.fs.archived ++
      [(s.fs.state.nextSeq, .file ⟨ascii "/archive/001.log"⟩ s.fs.state.current.data now)] :=
    archived_rotate h.numbered now
  rw [RotatedFull, harchived]
  constructor
  · intro hall
    exact hall _ (List.mem_append_right _ (List.mem_singleton_self _))
  · intro hlen e he
    rcases List.mem_append.1 he with he | he
    · exact h.full e he
    · rw [List.mem_singleton.1 he]
      exact hlen

lemma Inv.rotate (h : s.Inv) (i : ℕ) (now : DateTime)
    (hlen : s.fs.config.maxSize ≤ s.fs.state.current.data.length) :
    (s.moveTo i (s.fs.rotate now) .idle).Inv where
  numbered := h.numbered.rotate now
  full := (rotatedFull_rotate_iff h i now).2 hlen
  le_next := fun j seq hj => Nat.le_succ_of_le (h.le_next j seq (eq_of_moveTo (by simp) hj))
  pending := by
    intro j hj
    have hle := h.le_next j _ (eq_of_moveTo (by simp) hj)
    exact absurd hle (Nat.not_succ_le_self _)

/-- One section keeps the invariant exactly under the condition. -/
lemma inv_step {ev : Section} (h : s.Inv) (hok : s.Fresh ev) (hs : step s ev = some s') :
    s'.Inv := by
  cases ev with
  | append i data now =>
    rw [step] at hs
    split at hs
    · obtain rfl := Option.some.inj hs
      exact h.append i data now
    · cases hs
  | check i =>
    rw [step] at hs
    split at hs
    · obtain rfl := Option.some.inj hs
      exact h.check i
    · cases hs
  | rotate i now =>
    rw [step] at hs
    split at hs
    · obtain rfl := Option.some.inj hs
      exact h.rotate i now (hok.elim (h.pending i) id)
    · cases hs

lemma fresh_of_rotatedFull {ev : Section} (h : s.Inv) (hs : step s ev = some s')
    (hfull : s'.RotatedFull) : s.Fresh ev := by
  cases ev with
  | append i data now => trivial
  | check i => trivial
  | rotate i now =>
    rw [step] at hs
    split at hs
    · obtain rfl := Option.some.inj hs
      exact Or.inr ((rotatedFull_rotate_iff h i now).1 hfull)
    · cases hs

/-- Every archive file is full, in all states of a run of any writers, exactly when every writer
that rotates is the first one since its check, or enough has been appended since the last
rotation. -/
theorem rotatedFull_iff (config : RotateConfig) (now : DateTime) (evs : List Section) :
    StatesMeet step RotatedFull (new config now) evs ↔
      StepsMeet step Fresh (new config now) evs :=
  statesMeet_iff_of_invariant (I := Inv) (fun _ h => h.full)
    (fun _ _ _ h hs hfull => fresh_of_rotatedFull h hs hfull)
    (fun _ _ _ h hok hs => inv_step h hok hs) (inv_new config now)

/-- Two writers find the same two bytes and rotate them: the second archive file is empty, and
takes the place of the first one. -/
theorem not_rotatedFull_twoWriters :
    ¬ StatesMeet step RotatedFull (new ⟨2, 1, false, ⟨[]⟩⟩ 0)
      [.append 0 (ascii "a") 1, .append 1 (ascii "b") 2, .check 0, .check 1, .rotate 0 3,
        .rotate 1 4] := by
  intro h
  have hlast := ((((((h.2 _ rfl).2 _ rfl).2 _ rfl).2 _ rfl).2 _ rfl).2 _ rfl).head
  have hempty := hlast (2, .file ⟨ascii "/archive/001.log"⟩ [] 4)
    (List.mem_of_getElem? (i := 1) rfl)
  exact absurd hempty (by decide)

end Writers

end Racfs.StreamRotateFs
