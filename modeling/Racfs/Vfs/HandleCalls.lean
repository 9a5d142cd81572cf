/-
# Interleaved calls of the handle manager

Any number of calls run at the same time.  A call of `open_handle` takes three sections: the
limit check, the first lookup, and the insertion with its second lookup; the other calls take
one.  A step of the system is one section, with the clock at the time.  The identifiers that
are generated for new handles are pairwise different (`State.issued` has the ones so far), and
`cleanup_expired` reads the clock before it has the locks, so it may use an older time.

Two results.  The two indexes agree in every state, whatever the interleaving
(`reachable_agree`): the insertion looks the key up again under the locks.  It does not check
the limit again, so the limit holds exactly as long as no insertion meets a full table
(`size_le_iff_insertsBelowLimit`).
-/
import Racfs.Vfs.HandleManager
import Racfs.Lib.Run

namespace Racfs.Vfs.HandleCalls

/-- The section that a call of `open_handle` takes next. -/
inductive Stage
  | lookup
  | insert
deriving DecidableEq

/-- A call of `open_handle` that has passed the limit check. -/
structure OpenCall where
  key : HandleKey
  stage : Stage

/-- The tables, the clock, the identifiers generated so far and the open calls. -/
structure State where
  mgr : HandleManager
  clock : ℕ
  issued : List HandleId
  calls : ℕ → Option OpenCall

/-- A new handle manager, and no calls. -/
def init (leaseTimeoutSecs maxHandles : ℕ) : State :=
  ⟨.withConfig leaseTimeoutSecs maxHandles, 0, [], fun _ => none⟩

/-- The sections, and the passing of time. -/
inductive Event
  | limitCheck (i : ℕ) (path : PathBuf) (flags : OpenFlags)
  | firstLookup (i : ℕ)
  /-- The insertion, with the identifier that is generated if it is needed. -/
  | insert (i : ℕ) (id : HandleId)
  | closeHandle (id : HandleId)
  | getHandle (id : HandleId)
  | renewLease (id : HandleId)
  | updateOffset (id : HandleId) (offset : Int64)
  | cleanupExpired (now : ℕ)
  | tick (d : ℕ)

/-- What a section returns to its caller. -/
inductive Output
  /-- The call goes on with its next section. -/
  | goesOn
  /-- A call of `open_handle` for the key returns. -/
  | opened (key : HandleKey) (r : Except FSError FileHandle)
  | got (r : Except FSError FileHandle)
  | done (r : Except FSError Unit)
  | cleaned (removed : ℕ)

/-- Set the progress of a call. -/
def State.setCall (s : State) (i : ℕ) (c : Option OpenCall) : State :=
  { s with calls := Function.update s.calls i c }

/-- One section. -/
def exec (s : State) : Event → Option (State × Output)
  | .limitCheck i path flags =>
    match s.calls i with
    | some _ => none
    | none =>
      if s.mgr.atLimit then some (s, .opened (path, flags) (.error .TooManyOpenFiles))
      else some (s.setCall i (some ⟨(path, flags), .lookup⟩), .goesOn)
  | .firstLookup i =>
    match s.calls i with
    | some ⟨key, .lookup⟩ =>
      match s.mgr.find key with
      | some h => some (s.setCall i none, .opened key (.ok h))
      | none => some (s.setCall i (some ⟨key, .insert⟩), .goesOn)
    | _ => none
  | .insert i id =>
    match s.calls i with
    | some ⟨key, .insert⟩ =>
      match s.mgr.find key with
      | some h => some (s.setCall i none, .opened key (.ok h))
      | none =>
        -- the lookup is repeated under the write locks, the limit check is not
        if id ∈ s.issued then none
        else some
          ({ s.setCall i none with
              mgr := s.mgr.insertHandle key id s.clock
              issued := id :: s.issued },
            .opened key (.ok (FileHandle.new key.1 key.2 id)))
    | _ => none
  | .closeHandle id =>
    some ({ s with mgr := (s.mgr.closeHandle id).2 }, .done (s.mgr.closeHandle id).1)
  | .getHandle id =>
    some ({ s with mgr := (s.mgr.getHandle id s.clock).2 }, .got (s.mgr.getHandle id s.clock).1)
  | .renewLease id =>
    some ({ s with mgr := (s.mgr.renewLease id s.clock).2 },
      .done (s.mgr.renewLease id s.clock).1)
  | .updateOffset id offset =>
    some ({ s with mgr := (s.mgr.updateOffset id offset s.clock).2 },
      .done (s.mgr.updateOffset id offset s.clock).1)
  | .cleanupExpired now =>
    if now ≤ s.clock then
      some ({ s with mgr := (s.mgr.cleanupExpired now).2 }, .cleaned (s.mgr.cleanupExpired now).1)
    else none
  | .tick d => some ({ s with clock := s.clock + d }, .goesOn)

/-- The state after a section. -/
def step (s : State) (ev : Event) : Option State := (exec s ev).map Prod.fst

/-! ### What a section does to the tables -/

/-- The ways in which a section changes the tables and the identifiers. -/
inductive Effect (s s' : State) : Event → Prop
  | same {ev : Event} (hm : s'.mgr = s.mgr) (hi : s'.issued = s.issued) : Effect s s' ev
  | insert {i : ℕ} {id : HandleId} (key : HandleKey) (hcall : s.calls i = some ⟨key, .insert⟩)
      (hfind : s.mgr.find key = none) (hid : id ∉ s.issued)
      (hm : s'.mgr = s.mgr.insertHandle key id s.clock) (hi : s'.issued = id :: s.issued) :
      Effect s s' (.insert i id)
  | update {ev : Event} (id : HandleId) (f : HandleEntry → HandleEntry)
      (hf : ∀ e, (f e).key = e.key ∧ (f e).handle.id = e.handle.id)
      (hm : s'.mgr = (s.mgr.updateEntry id f).2) (hi : s'.issued = s.issued) : Effect s s' ev
  | close (id : HandleId) (hm : s'.mgr = (s.mgr.closeHandle id).2) (hi : s'.issued = s.issued) :
      Effect s s' (.closeHandle id)
  | cleanup (now : ℕ) (hm : s'.mgr = (s.mgr.cleanupExpired now).2)
      (hi : s'.issued = s.issued) : Effect s s' (.cleanupExpired now)

/-- What a section does, and what a returned handle is: one that the lookup finds, or the one
that the section has added. -/
lemma exec_effect {s s' : State} {ev : Event} {out : Output} (h : exec s ev = some (s', out)) :
    Effect s s' ev ∧
      ∀ k fh, out = .opened k (.ok fh) →
        (s.mgr.find k = some fh ∧ s'.mgr = s.mgr) ∨
        (s.mgr.find k = none ∧ s'.mgr = s.mgr.insertHandle k fh.id s.clock) := by
  cases ev with
  | limitCheck i path flags =>
    simp only [exec] at h
    split at h
    · cases h
    · split at h <;> cases h <;> exact ⟨.same rfl rfl, by simp⟩
  | firstLookup i =>
    simp only [exec] at h
    split at h
    · split at h
      · next hfind =>
        cases h
        refine ⟨.same rfl rfl, ?_⟩
        rintro k fh ⟨⟩
        exact Or.inl ⟨hfind, rfl⟩
      · cases h
        exact ⟨.same rfl rfl, by simp⟩
    · cases h
  | insert i id =>
    simp only [exec] at h
    split at h
    · next key hcall =>
      split at h
      · next hfind =>
        cases h
        refine ⟨.same rfl rfl, ?_⟩
        rintro k fh ⟨⟩
        exact Or.inl ⟨hfind, rfl⟩
      · next hfind =>
        split at h
        · cases h
        · next hid =>
          cases h
          refine ⟨.insert key hcall hfind hid rfl rfl, ?_⟩
          rintro k fh ⟨⟩
          exact Or.inr ⟨hfind, rfl⟩
    · cases h
  | closeHandle id =>
    cases h
    exact ⟨.close id rfl rfl, by simp⟩
  | getHandle id =>
    cases h
    refine ⟨.update id _ ?_ rfl rfl, by simp⟩
    exact fun _ => ⟨rfl, rfl⟩
  | renewLease id =>
    cases h
    refine ⟨.update id _ ?_ rfl rfl, by simp⟩
    exact fun _ => ⟨rfl, rfl⟩
  | updateOffset id offset =>
    cases h
    refine ⟨.update id _ ?_ rfl rfl, by simp⟩
    exact fun _ => ⟨rfl, rfl⟩
  | cleanupExpired now =>
    simp only [exec] at h
    split at h
    · cases h
      exact ⟨.cleanup now rfl rfl, by simp⟩
    · cases h
  | tick d =>
    cases h
    exact ⟨.same rfl rfl, by simp⟩

lemma step_effect {s s' : State} {ev : Event} (h : step s ev = some s') : Effect s s' ev := by
  obtain ⟨⟨s'', out⟩, hexec, rfl⟩ := Option.map_eq_some_iff.1 h
  exact (exec_effect hexec).1

/-! ### The indexes agree -/

/-- The invariant of the system. -/
structure Inv (s : State) : Prop where
  agree : s.mgr.Agree
  named : s.mgr.Named
  issued : ∀ id e, s.mgr.handles.get? id = some e → id ∈ s.issued

lemma inv_init (leaseTimeoutSecs maxHandles : ℕ) : Inv (init leaseTimeoutSecs maxHandles) :=
  ⟨by simp [init, HandleManager.Agree, HandleManager.withConfig],
    by simp [init, HandleManager.Named, HandleManager.withConfig],
    by simp [init, HandleManager.withConfig]⟩

lemma Inv.removes {s s' : State} (h : Inv s) {R : HandleId → HandleEntry → Prop}
    (hr : HandleManager.RemovesOnly s.mgr s'.mgr R) (hi : s'.issued = s.issued) : Inv s' := by
  refine ⟨h.agree.removes hr, h.named.removes hr, fun id e he => ?_⟩
  rw [hi]
  exact h.issued id e ((hr.handles id e).1 he).1

/-- A new identifier is not in use. -/
lemma Inv.get?_eq_none {s : State} (h : Inv s) {id : HandleId} (hid : id ∉ s.issued) :
    s.mgr.handles.get? id = none := by
  cases hget : s.mgr.handles.get? id with
  | none => rfl
  | some e => exact absurd (h.issued id e hget) hid

lemma Inv.of_step {s s' : State} {ev : Event} (h : Inv s) (hs : step s ev = some s') : Inv s' := by
  cases step_effect hs with
  | same hm hi =>
    exact ⟨hm ▸ h.agree, hm ▸ h.named, by rw [hm, hi]; exact h.issued⟩
  | @insert i id key _ hfind hid hm hi =>
    refine ⟨?_, hm ▸ h.named.insertHandle key id s.clock, fun id' e he => ?_⟩
    · exact hm ▸ h.agree.insertHandle (h.get?_eq_none hid) (h.agree.find_eq_none_iff.1 hfind) _
    · rw [hm, HandleManager.get?_handles_insertHandle] at he
      rw [hi, List.mem_cons]
      split at he
      · next heq => exact Or.inl heq.symm
      · exact Or.inr (h.issued id' e he)
  | update id f hf hm hi =>
    refine ⟨hm ▸ h.agree.updateEntry id hf, hm ▸ h.named.updateEntry id hf, fun id' e he => ?_⟩
    obtain ⟨e', he', -⟩ := HandleManager.exists_of_updateEntry hf (hm ▸ he)
    exact hi ▸ h.issued id' e' he'
  | close id hm hi => exact h.removes (hm ▸ HandleManager.removesOnly_closeHandle id) hi
  | cleanup now hm hi => exact h.removes (hm ▸ HandleManager.removesOnly_cleanupExpired now) hi

/-! ### One handle for a key -/

/-- The section closes or expires the handle of a key. -/
def Removes (k : HandleKey) (s : State) : Event → Prop
  | .closeHandle id => ∃ e, s.mgr.handles.get? id = some e ∧ (e.key == k) = true
  | .cleanupExpired now =>
    ∃ id e, s.mgr.handles.get? id = some e ∧ s.mgr.isExpired now e = true ∧ (e.key == k) = true
  | _ => False

/-- A key keeps its handle until that is closed or expires. -/
lemma Inv.get?_pathIndex_step {s s' : State} {ev : Event} {k : HandleKey} {id : HandleId}
    (h : Inv s) (hs : step s ev = some s') (hr : ¬ Removes k s ev)
    (hk : s.mgr.pathIndex.get? k = some id) : s'.mgr.pathIndex.get? k = some id := by
  cases step_effect hs with
  | same hm hi => rw [hm, hk]
  | @insert i id' key _ hfind hid hm hi =>
    -- the key that is added was not live
    have hne : (key == k) = false := by
      by_contra hkk
      obtain ⟨e, he, hek⟩ := (h.agree k id).1 hk
      exact h.agree.find_eq_none_iff.1 hfind
        ⟨id, e, he, BEq.trans hek (BEq.symm ((Bool.not_eq_false _).mp hkk))⟩
    rw [hm]
    simp [HandleManager.insertHandle, AssocMap.get?_insert, hne, hk]
  | update id' f hf hm hi => rw [hm, HandleManager.pathIndex_updateEntry, hk]
  | close id' hm hi =>
    rw [hm, (HandleManager.removesOnly_closeHandle id').index]
    refine ⟨hk, ?_⟩
    rintro ⟨_, e, he, rfl, hek⟩
    exact hr ⟨e, he, hek⟩
  | cleanup now hm hi =>
    rw [hm, (HandleManager.removesOnly_cleanupExpired now).index]
    refine ⟨hk, ?_⟩
    rintro ⟨id', e, he, hexp, hek⟩
    exact hr ⟨id', e, he, hexp, hek⟩

lemma Inv.get?_pathIndex_run {s s' : State} {evs : List Event} {k : HandleKey} {id : HandleId}
    (h : Inv s) (hrun : run step s evs = some s')
    (hr : StepsMeet step (fun s ev => ¬ Removes k s ev) s evs)
    (hk : s.mgr.pathIndex.get? k = some id) :
    Inv s' ∧ s'.mgr.pathIndex.get? k = some id := by
  induction evs generalizing s with
  | nil =>
    obtain rfl : s = s' := by simpa [run] using hrun
    exact ⟨h, hk⟩
  | cons ev evs ih =>
    obtain ⟨t, ht, hrest⟩ := exists_of_run_cons hrun
    obtain ⟨hnot, hmeet⟩ := hr t ht
    exact ih (h.of_step ht) hrest hmeet (h.get?_pathIndex_step ht hnot hk)

/-- The handle that `open_handle` returns is the one that the index has for the key. -/
lemma Inv.get?_pathIndex_of_opened {s s' : State} {ev : Event} {k : HandleKey} {fh : FileHandle}
    (h : Inv s) (hexec : exec s ev = some (s', .opened k (.ok fh))) :
    s'.mgr.pathIndex.get? k = some fh.id := by
  rcases (exec_effect hexec).2 k fh rfl with ⟨hfind, hm⟩ | ⟨-, hm⟩
  · obtain ⟨id, e, he, hek, rfl⟩ := h.agree.find_eq_some_iff.1 hfind
    rw [hm, h.named id e he]
    exact (h.agree k id).2 ⟨e, he, hek⟩
  · simp [hm, HandleManager.insertHandle]

/-- A call of `open_handle` for a live key returns the live handle. -/
lemma Inv.id_of_opened {s s' : State} {ev : Event} {k : HandleKey} {fh : FileHandle}
    {id : HandleId} (h : Inv s) (hexec : exec s ev = some (s', .opened k (.ok fh)))
    (hk : s.mgr.pathIndex.get? k = some id) : fh.id = id := by
  rcases (exec_effect hexec).2 k fh rfl with ⟨hfind, hm⟩ | ⟨hfind, -⟩
  · have := h.get?_pathIndex_of_opened hexec
    rw [hm, hk] at this
    exact (Option.some.inj this).symm
  · obtain ⟨e, he, hek⟩ := (h.agree k id).1 hk
    exact absurd ⟨id, e, he, hek⟩ (h.agree.find_eq_none_iff.1 hfind)

lemma inv_of_reachable {leaseTimeoutSecs maxHandles : ℕ} {s : State}
    (h : Reachable step (init leaseTimeoutSecs maxHandles) s) : Inv s :=
  h.invariant (inv_init _ _) fun _ _ _ hs hstep => hs.of_step hstep

/-- In every state that an interleaving leads to, the two indexes agree; so there is at most
one handle for a key, and no entry of the path index is dangling.  Two calls of `open_handle`
for equal keys that both succeed return the same identifier, if the handle is neither closed
nor expires between their returns. -/
theorem reachable_agree {leaseTimeoutSecs maxHandles : ℕ} {s : State}
    (h : Reachable step (init leaseTimeoutSecs maxHandles) s) :
    (∀ k id, s.mgr.pathIndex.get? k = some id ↔
      ∃ e, s.mgr.handles.get? id = some e ∧ (e.key == k) = true) ∧
    (∀ id id' e e', s.mgr.handles.get? id = some e → s.mgr.handles.get? id' = some e' →
      (e.key == e'.key) = true → id = id') ∧
    (∀ k id, s.mgr.pathIndex.get? k = some id → ∃ e, s.mgr.handles.get? id = some e) ∧
    ∀ ev s₁ k fh evs s₂ ev' s₃ k' fh', exec s ev = some (s₁, .opened k (.ok fh)) →
      run step s₁ evs = some s₂ → StepsMeet step (fun s ev => ¬ Removes k s ev) s₁ evs →
      exec s₂ ev' = some (s₃, .opened k' (.ok fh')) → (k == k') = true → fh.id = fh'.id := by
  have hinv := inv_of_reachable h
  refine ⟨hinv.agree, fun id id' e e' he he' hk => hinv.agree.unique he he' hk,
    fun k id hk => ?_, ?_⟩
  · obtain ⟨e, he, -⟩ := (hinv.agree k id).1 hk
    exact ⟨e, he⟩
  · intro ev s₁ k fh evs s₂ ev' s₃ k' fh' hexec hrun hmeet hexec' hk
    have hstep : step s ev = some s₁ := by simp [step, hexec]
    have hinv₁ : Inv s₁ := hinv.of_step hstep
    obtain ⟨hinv₂, hk₂⟩ :=
      hinv₁.get?_pathIndex_run hrun hmeet (hinv.get?_pathIndex_of_opened hexec)
    rw [AssocMap.get?_congr _ hk] at hk₂
    exact (hinv₂.id_of_opened hexec' hk₂).symm

/-- Two calls for one file that both miss in their first lookup: the second insertion finds the
handle of the first. -/
theorem reachable_agree_race :
    ∃ s, run step (init 30 10) [.limitCheck 0 ⟨ascii "/f"⟩ .READ,
        .limitCheck 1 ⟨ascii "//f/"⟩ .READ, .firstLookup 0, .firstLookup 1] = some s ∧
      ∃ s₁ fh s₃ fh', exec s (.insert 0 ⟨1⟩) = some (s₁, .opened (⟨ascii "/f"⟩, .READ) (.ok fh)) ∧
        exec s₁ (.insert 1 ⟨2⟩) = some (s₃, .opened (⟨ascii "//f/"⟩, .READ) (.ok fh')) ∧
        fh.id = fh'.id := by
  refine ⟨_, rfl, _, _, _, _, rfl, rfl, ?_⟩
  have h := @reachable_agree 30 10 _
    ⟨[.limitCheck 0 ⟨ascii "/f"⟩ .READ, .limitCheck 1 ⟨ascii "//f/"⟩ .READ, .firstLookup 0,
      .firstLookup 1], rfl⟩
  exact h.2.2.2 (.insert 0 ⟨1⟩) _ (⟨ascii "/f"⟩, .READ) _ [] _ (.insert 1 ⟨2⟩) _
    (⟨ascii "//f/"⟩, .READ) _ rfl rfl trivial rfl (by decide)

/-! ### The limit -/

/-- What a step needs to keep the limit: a call that is about to add a handle finds the table
not yet full. -/
def InsertsBelowLimit (maxHandles : ℕ) (s : State) : Event → Prop
  | .insert i _ => ∀ key, s.calls i = some ⟨key, .insert⟩ → s.mgr.find key = none →
      s.mgr.handles.size < maxHandles
  | _ => True

lemma Inv.size_insertHandle {s : State} (h : Inv s) {id : HandleId} (hid : id ∉ s.issued)
    (key : HandleKey) (now : ℕ) :
    (s.mgr.insertHandle key id now).handles.size = s.mgr.handles.size + 1 := by
  have hnone := AssocMap.contains_eq_false_iff.2 (h.get?_eq_none hid)
  simp [HandleManager.insertHandle, AssocMap.size_insert, hnone]

/-- Only an insertion makes the table larger. -/
lemma size_step {s s' : State} {ev : Event} (hs : step s ev = some s') :
    s'.mgr.handles.size ≤ s.mgr.handles.size ∨
      ∃ i id key, ev = .insert i id ∧ s.calls i = some ⟨key, .insert⟩ ∧ s.mgr.find key = none := by
  cases step_effect hs with
  | same hm hi => exact Or.inl (hm ▸ le_rfl)
  | @insert i id key hcall hfind hid hm hi => exact Or.inr ⟨i, id, key, rfl, hcall, hfind⟩
  | update id f hf hm hi => exact Or.inl (by rw [hm, (HandleManager.size_updateEntry id f).1])
  | close id hm hi => exact Or.inl (hm ▸ (HandleManager.removesOnly_closeHandle id).size.1)
  | cleanup now hm hi =>
    exact Or.inl (hm ▸ (HandleManager.removesOnly_cleanupExpired now).size.1)

lemma Inv.step_size_le_iff {s s' : State} {ev : Event} {maxHandles : ℕ} (h : Inv s)
    (hsize : s.mgr.handles.size ≤ maxHandles) (hs : step s ev = some s') :
    s'.mgr.handles.size ≤ maxHandles ↔ InsertsBelowLimit maxHandles s ev := by
  constructor
  · intro hle
    cases ev with
    | insert i id =>
      intro key hcall hfind
      -- a call that finds nothing adds its handle
      simp only [step, exec, hcall, hfind] at hs
      split at hs
      · cases hs
      · next hid =>
        cases hs
        have := h.size_insertHandle hid key s.clock
        simp only at hle
        omega
    | _ => trivial
  · intro hok
    rcases size_step hs with hle | ⟨i, id, key, rfl, hcall, hfind⟩
    · exact hle.trans hsize
    · have hlt := hok key hcall hfind
      simp only [step, exec, hcall, hfind] at hs
      split at hs
      · cases hs
      · next hid =>
        cases hs
        have := h.size_insertHandle hid key s.clock
        simp only
        omega

/-- The table stays within its limit in all states of an interleaving exactly when every
insertion of a new handle meets a table that is not full. -/
theorem size_le_iff_insertsBelowLimit (leaseTimeoutSecs maxHandles : ℕ) (evs : List Event) :
    StatesMeet step (fun s => s.mgr.handles.size ≤ maxHandles)
        (init leaseTimeoutSecs maxHandles) evs ↔
      StepsMeet step (InsertsBelowLimit maxHandles) (init leaseTimeoutSecs maxHandles) evs :=
  statesMeet_iff_stepsMeet (A := Inv) (fun _ _ _ h hs => h.of_step hs)
    (fun _ _ _ h hsize hs => h.step_size_le_iff hsize hs) (inv_init _ _) (Nat.zero_le _)

/-- Two calls pass the check of a manager for one handle, and both add theirs. -/
theorem not_size_le_two_opens :
    ∃ s, run step (init 30 1) [.limitCheck 0 ⟨ascii "/a"⟩ .READ, .limitCheck 1 ⟨ascii "/b"⟩ .READ,
        .firstLookup 0, .firstLookup 1, .insert 0 ⟨1⟩, .insert 1 ⟨2⟩] = some s ∧
      ¬ s.mgr.handles.size ≤ 1 := by
  refine ⟨_, rfl, ?_⟩
  decide

end Racfs.Vfs.HandleCalls
