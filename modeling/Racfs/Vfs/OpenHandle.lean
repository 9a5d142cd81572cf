/-
# Opening a file that is open

A whole call of `open_handle` that no other call comes between (`openHandle`): the limit check,
the lookup and the insertion, as in `Racfs.Vfs.HandleCalls`, where the call takes the same
sections (`run_openHandle`).

A key that has a handle should get that handle again, without a change of the tables, and the
limit should matter only for new handles.  The limit check comes first, though, so a full table
refuses the keys of its own handles too (`open_again_iff`).
-/
import Racfs.Vfs.HandleCalls

namespace Racfs.Vfs

namespace HandleManager

/-- Open a file, with the identifier that is generated if it is needed. -/
def openHandle (m : HandleManager) (path : PathBuf) (flags : OpenFlags) (id : HandleId)
    (now : ℕ) : Except FSError FileHandle × HandleManager :=
  if m.atLimit then (.error .TooManyOpenFiles, m)
  else
    match m.find (path, flags) with
    | some h => (.ok h, m)
    | none => (.ok (FileHandle.new path flags id), m.insertHandle (path, flags) id now)

variable {m : HandleManager} {path : PathBuf} {flags : OpenFlags}

lemma atLimit_iff : m.atLimit = true ↔ m.maxHandles ≤ m.handles.size := by
  simp [atLimit]

lemma openHandle_of_atLimit (h : m.atLimit = true) (id : HandleId) (now : ℕ) :
    m.openHandle path flags id now = (.error .TooManyOpenFiles, m) := by
  rw [openHandle, if_pos h]

lemma openHandle_of_find {fh : FileHandle} (h : ¬ m.atLimit = true)
    (hfind : m.find (path, flags) = some fh) (id : HandleId) (now : ℕ) :
    m.openHandle path flags id now = (.ok fh, m) := by
  rw [openHandle, if_neg h, hfind]

/-- Below the limit no call is refused. -/
lemma fst_openHandle_ne (h : ¬ m.atLimit = true) (id : HandleId) (now : ℕ) (e : FSError) :
    (m.openHandle path flags id now).1 ≠ .error e := by
  rw [openHandle, if_neg h]
  cases m.find (path, flags) <;> simp

/-- Opening a key again is harmless: a stored handle for it is returned and the tables stay as
they are, and the error about the limit means that there is no such handle. -/
structure OpensAgain (m : HandleManager) (path : PathBuf) (flags : OpenFlags) (id : HandleId)
    (now : ℕ) : Prop where
  same : ∀ i e, m.handles.get? i = some e → (e.key == (path, flags)) = true →
    m.openHandle path flags id now = (.ok e.handle, m)
  limit : (m.openHandle path flags id now).1 = .error .TooManyOpenFiles → ¬ m.Live (path, flags)

lemma Agree.opensAgain_iff (h : m.Agree) (id : HandleId) (now : ℕ) :
    m.OpensAgain path flags id now ↔
      ¬ (m.Live (path, flags) ∧ m.maxHandles ≤ m.handles.size) := by
  rw [← atLimit_iff]
  constructor
  · rintro hagain ⟨hlive, hfull⟩
    exact hagain.limit (by rw [openHandle_of_atLimit hfull]) hlive
  · intro hnot
    refine ⟨fun i e he hk => ?_, fun hrefused hlive => ?_⟩
    · have hroom : ¬ m.atLimit = true := fun hfull => hnot ⟨⟨i, e, he, hk⟩, hfull⟩
      exact openHandle_of_find hroom (h.find_eq_some_iff.2 ⟨i, e, he, hk, rfl⟩) id now
    · have hroom : ¬ m.atLimit = true := fun hfull => hnot ⟨hlive, hfull⟩
      exact fst_openHandle_ne hroom id now _ hrefused

end HandleManager

namespace HandleCalls

open HandleManager

/-- The sections of a call, taken one after the other. -/
def sections (i : ℕ) (path : PathBuf) (flags : OpenFlags) (id : HandleId) : List Event :=
  [.limitCheck i path flags, .firstLookup i, .insert i id]

/-- A call that is not interrupted does to the tables what its sections do: as many of them as
there are until it returns. -/
lemma run_openHandle (s : State) {i : ℕ} (hi : s.calls i = none) (path : PathBuf)
    (flags : OpenFlags) {id : HandleId} (hid : id ∉ s.issued) :
    ∃ k s', run step s ((sections i path flags id).take k) = some s' ∧ s'.calls i = none ∧
      s'.mgr = (s.mgr.openHandle path flags id s.clock).2 := by
  by_cases hfull : s.mgr.atLimit = true
  · refine ⟨1, s, ?_, hi, ?_⟩
    · simp [sections, run, step, exec, hi, hfull]
    · rw [openHandle_of_atLimit hfull]
  · cases hfind : s.mgr.find (path, flags) with
    | some fh =>
      refine ⟨2, (s.setCall i (some ⟨(path, flags), .lookup⟩)).setCall i none, ?_, ?_, ?_⟩
      · simp [sections, run, step, exec, hi, hfull, hfind, State.setCall]
      · simp [State.setCall]
      · rw [openHandle_of_find hfull hfind]
        rfl
    | none =>
      let called := (s.setCall i (some ⟨(path, flags), .lookup⟩)).setCall i
        (some ⟨(path, flags), .insert⟩)
      let mgr := s.mgr.insertHandle (path, flags) id s.clock
      refine ⟨3, { called.setCall i none with mgr, issued := id :: s.issued }, ?_, ?_, ?_⟩
      · simp [sections, run, step, exec, hi, hfull, hfind, hid, State.setCall, called, mgr]
      · simp [State.setCall]
      · simp [openHandle, hfull, hfind, mgr]

/-- In every state that an interleaving leads to, opening a key again is harmless exactly if it
has no handle or the table is not full. -/
theorem open_again_iff {leaseTimeoutSecs maxHandles : ℕ} {s : State}
    (h : Reachable step (init leaseTimeoutSecs maxHandles) s) (path : PathBuf)
    (flags : OpenFlags) (id : HandleId) (now : ℕ) :
    s.mgr.OpensAgain path flags id now ↔
      ¬ (s.mgr.Live (path, flags) ∧ s.mgr.maxHandles ≤ s.mgr.handles.size) :=
  Agree.opensAgain_iff (inv_of_reachable h).agree id now

/-- Two handles where three are allowed. -/
theorem open_again_iff_room :
    ∃ s, run step (init 30 3) (sections 0 ⟨ascii "/a"⟩ .READ ⟨1⟩ ++
        sections 1 ⟨ascii "/b"⟩ .READ ⟨2⟩) = some s ∧
      (s.mgr.OpensAgain ⟨ascii "/a"⟩ .READ ⟨3⟩ 0 ↔
        ¬ (s.mgr.Live (⟨ascii "/a"⟩, .READ) ∧ s.mgr.maxHandles ≤ s.mgr.handles.size)) := by
  refine ⟨_, rfl, ?_⟩
  exact @open_again_iff 30 3 _ ⟨sections 0 ⟨ascii "/a"⟩ .READ ⟨1⟩ ++
    sections 1 ⟨ascii "/b"⟩ .READ ⟨2⟩, rfl⟩ _ _ _ _

/-- A manager for one handle, which is open: a second open of the file is refused. -/
theorem not_opensAgain_full :
    ∃ s, run step (init 30 1) (sections 0 ⟨ascii "/f"⟩ .READ ⟨1⟩) = some s ∧
      s.mgr.Live (⟨ascii "/f"⟩, .READ) ∧
      (s.mgr.openHandle ⟨ascii "/f"⟩ .READ ⟨2⟩ 0).1 = .error .TooManyOpenFiles ∧
      ¬ s.mgr.OpensAgain ⟨ascii "/f"⟩ .READ ⟨2⟩ 0 := by
  refine ⟨_, rfl, ⟨⟨1⟩, _, rfl, by decide⟩, rfl, fun h => ?_⟩
  exact h.limit rfl ⟨⟨1⟩, _, rfl, by decide⟩

end HandleCalls

end Racfs.Vfs
