/-
# The leases of handles

A handle of the handle manager (`racfs-vfs/src/handle_manager.rs`) is kept for the lease timeout
after its last access; `get_handle`, `renew_lease` and `update_offset` are accesses.  A caller that
gets a handle from `open_handle` should have it for the lease timeout as well.  For a new handle
this is so; when there is already a handle for the path and the flags, both lookups of
`open_handle` return it as it is, with the last access of somebody else.

We add to the system of `Racfs.Vfs.HandleCalls` a record of when handles have been handed out or
renewed, and of when they have expired.  `leasesLast_iff` says that leases last in a run exactly
if `open_handle` never finds a handle with an older access.
-/
import Racfs.Vfs.HandleCalls

namespace Racfs.Vfs.Leases

open HandleCalls HandleManager

/-! ### The record -/

/-- A handle has been handed out or renewed. -/
structure Grant where
  id : HandleId
  time : ℕ
deriving DecidableEq

/-- A handle has been removed because it had expired: the time that `cleanup_expired` has read,
and the time when it has removed the handle. -/
structure Removal where
  id : HandleId
  now : ℕ
  time : ℕ
deriving DecidableEq

/-- The handle manager with its calls, and the record. -/
structure State where
  calls : HandleCalls.State
  grants : List Grant
  removals : List Removal

/-- A new handle manager. -/
def init (leaseTimeoutSecs maxHandles : ℕ) : State :=
  ⟨HandleCalls.init leaseTimeoutSecs maxHandles, [], []⟩

/-- The handle that a section hands out or renews. -/
def granted : Event → Output → Option HandleId
  | .firstLookup _, .opened _ (.ok h) => some h.id
  | .insert _ _, .opened _ (.ok h) => some h.id
  | .getHandle id, .got (.ok _) => some id
  | .renewLease id, .done (.ok _) => some id
  | .updateOffset id _, .done (.ok _) => some id
  | _, _ => none

/-- The handles that are stored before `cleanup_expired` and not after it. -/
def removed (s : HandleCalls.State) : Event → List Removal
  | .cleanupExpired now =>
    (s.mgr.handles.keys.filter fun id =>
      !(s.mgr.cleanupExpired now).2.handles.contains id).map (⟨·, now, s.clock⟩)
  | _ => []

/-- One section. -/
def step (s : State) (ev : Event) : Option State :=
  (exec s.calls ev).map fun r =>
    { calls := r.1
      grants := (granted ev r.2).toList.map (⟨·, s.calls.clock⟩) ++ s.grants
      removals := removed s.calls ev ++ s.removals }

/-- The lease timeout. -/
def State.lease (s : State) : ℕ := s.calls.mgr.leaseTimeout

/-- Leases last: a handle that has been handed out or renewed has not been removed before its
lease was over, and a handle that is stored is not removed by a clean-up at a time, from now on,
at which its lease is not over. -/
structure LeasesLast (s : State) : Prop where
  removed : ∀ g ∈ s.grants, ∀ r ∈ s.removals, r.id = g.id →
    g.time + s.lease ≤ r.time ∧ (0 < s.lease → g.time + s.lease ≤ r.now)
  kept : ∀ g ∈ s.grants, ∀ e, s.calls.mgr.handles.get? g.id = some e →
    ∀ now, s.calls.clock ≤ now → now < g.time + s.lease →
      (s.calls.mgr.cleanupExpired now).2.handles.get? g.id = some e

/-- The stored handle for a key. -/
def findEntry (m : HandleManager) (key : HandleKey) : Option HandleEntry :=
  (m.pathIndex.get? key).bind m.handles.get?

/-- The stored handle that a section of `open_handle` finds. -/
def found (s : HandleCalls.State) : Event → Option HandleEntry
  | .firstLookup i | .insert i _ => (s.calls i).bind fun call => findEntry s.mgr call.key
  | _ => none

/-- The condition for a section: a handle that is found has just been accessed. -/
def StepOk (s : State) (ev : Event) : Prop :=
  0 < s.lease → ∀ e, found s.calls ev = some e → s.calls.clock ≤ e.lastAccessed

/-! ### Accesses -/

lemma find_eq (m : HandleManager) (key : HandleKey) :
    m.find key = (findEntry m key).map HandleEntry.handle := by
  rw [HandleManager.find, findEntry, Option.map_bind]
  rfl

/-- A handle that is found is stored under its identifier. -/
lemma get?_of_findEntry {m : HandleManager} (hnamed : m.Named) {key : HandleKey}
    {e : HandleEntry} (h : findEntry m key = some e) :
    m.handles.get? e.handle.id = some e := by
  obtain ⟨id, -, he⟩ := Option.bind_eq_some_iff.1 h
  rw [hnamed id e he]
  exact he

/-- What a section does to the times of access. -/
structure Accesses (s s' : HandleCalls.State) (ev : Event) (out : Output) : Prop where
  lease : s'.mgr.leaseTimeout = s.mgr.leaseTimeout
  clock : s.clock ≤ s'.clock
  issued : ∀ id ∈ s.issued, id ∈ s'.issued
  /-- A stored handle was stored before, or is new; its access is the one before, or is now. -/
  entry : ∀ id e', s'.mgr.handles.get? id = some e' →
    (∃ e, s.mgr.handles.get? id = some e ∧
      (e'.lastAccessed = e.lastAccessed ∨ e'.lastAccessed = s.clock)) ∨
    (id ∉ s.issued ∧ e'.lastAccessed = s.clock)
  /-- A handle that is handed out or renewed is stored; it has been found, or the access is
  now. -/
  granted : ∀ id, granted ev out = some id → ∃ e, s'.mgr.handles.get? id = some e ∧
    (found s ev = some e ∨ e.lastAccessed = s.clock)

section Accesses

variable {s s' : HandleCalls.State} {ev : Event} {out : Output}

lemma accesses_same (hm : s'.mgr = s.mgr) (hc : s.clock ≤ s'.clock) (hi : s'.issued = s.issued)
    (hgranted : ∀ id, granted ev out = some id →
      ∃ e, s.mgr.handles.get? id = some e ∧ found s ev = some e) :
    Accesses s s' ev out where
  lease := by rw [hm]
  clock := hc
  issued id hid := by rwa [hi]
  entry id e' he' := by
    rw [hm] at he'
    exact Or.inl ⟨e', he', Or.inl rfl⟩
  granted id hid := by
    obtain ⟨e, he, hfound⟩ := hgranted id hid
    rw [hm]
    exact ⟨e, he, Or.inl hfound⟩

lemma accesses_none (hm : s'.mgr = s.mgr) (hc : s.clock ≤ s'.clock) (hi : s'.issued = s.issued)
    (hgranted : granted ev out = none) : Accesses s s' ev out := by
  refine accesses_same hm hc hi fun id hid => ?_
  rw [hgranted] at hid
  cases hid

lemma accesses_found {key : HandleKey} {h : FileHandle} (hnamed : s.mgr.Named)
    (hfind : s.mgr.find key = some h) (hm : s'.mgr = s.mgr) (hc : s.clock ≤ s'.clock)
    (hi : s'.issued = s.issued) (hfound : found s ev = findEntry s.mgr key)
    (hgranted : granted ev out = some h.id) : Accesses s s' ev out := by
  refine accesses_same hm hc hi fun id hid => ?_
  rw [find_eq, Option.map_eq_some_iff] at hfind
  obtain ⟨e, he, rfl⟩ := hfind
  obtain rfl : e.handle.id = id := Option.some.inj (hgranted.symm.trans hid)
  exact ⟨e, get?_of_findEntry hnamed he, hfound.trans he⟩

/-- A new handle. -/
lemma accesses_insert {key : HandleKey} {id : HandleId} (hid : id ∉ s.issued)
    (hm : s'.mgr = s.mgr.insertHandle key id s.clock) (hc : s.clock ≤ s'.clock)
    (hi : s'.issued = id :: s.issued) (hgranted : granted ev out = some id) :
    Accesses s s' ev out where
  lease := by
    rw [hm]
    rfl
  clock := hc
  issued id' hid' := by
    rw [hi]
    exact List.mem_cons_of_mem _ hid'
  entry id' e' he' := by
    rw [hm, get?_handles_insertHandle] at he'
    split at he'
    · next heq =>
      subst heq
      rw [← Option.some.inj he']
      exact Or.inr ⟨hid, rfl⟩
    · exact Or.inl ⟨e', he', Or.inl rfl⟩
  granted id' hid' := by
    obtain rfl : id = id' := Option.some.inj (hgranted.symm.trans hid')
    rw [hm]
    exact ⟨_, by rw [get?_handles_insertHandle, if_pos rfl], Or.inr rfl⟩

/-- An access to a handle. -/
lemma accesses_update {id : HandleId} {f : HandleEntry → HandleEntry}
    (hf : ∀ e, (f e).lastAccessed = s.clock)
    (hgranted : ∀ id', granted ev out = some id' →
      id' = id ∧ ∃ e, (s.mgr.updateEntry id f).1 = .ok e) :
    Accesses s { s with mgr := (s.mgr.updateEntry id f).2 } ev out where
  lease := by
    rw [updateEntry]
    split <;> rfl
  clock := Nat.le_refl _
  issued _ hid := hid
  entry id' e' he' := by
    rw [get?_handles_updateEntry] at he'
    split at he'
    · obtain ⟨e, he, rfl⟩ := Option.map_eq_some_iff.1 he'
      exact Or.inl ⟨e, he, Or.inr (hf e)⟩
    · exact Or.inl ⟨e', he', Or.inl rfl⟩
  granted id' hid' := by
    obtain ⟨rfl, e', he'⟩ := hgranted id' hid'
    rw [updateEntry] at he'
    cases hget : s.mgr.handles.get? id' with
    | none =>
      rw [hget] at he'
      cases he'
    | some e =>
      refine ⟨f e, ?_, Or.inr (hf e)⟩
      rw [get?_handles_updateEntry, if_pos rfl, hget, Option.map_some]

/-- An access that fails renews nothing. -/
lemma of_granted_map {A B : Type*} {r : Except FSError A} {f : A → B} {id id' : HandleId}
    {g : Except FSError B → Option HandleId} (herror : ∀ x, g (.error x) = none)
    (hok : ∀ b, g (.ok b) = some id) (h : g (r.map f) = some id') :
    id' = id ∧ ∃ a, r = .ok a := by
  cases r with
  | error x =>
    rw [Except.map, herror] at h
    cases h
  | ok a =>
    rw [Except.map, hok] at h
    exact ⟨(Option.some.inj h).symm, a, rfl⟩

lemma accesses_removes {m' : HandleManager} {R : HandleId → HandleEntry → Prop}
    (hr : RemovesOnly s.mgr m' R) (hlease : m'.leaseTimeout = s.mgr.leaseTimeout)
    (hgranted : granted ev out = none) : Accesses s { s with mgr := m' } ev out where
  lease := hlease
  clock := Nat.le_refl _
  issued _ hid := hid
  entry id e' he' := Or.inl ⟨e', ((hr.handles id e').1 he').1, Or.inl rfl⟩
  granted id hid := by
    rw [hgranted] at hid
    cases hid

/-- What every section does to the times of access. -/
lemma exec_accesses (hnamed : s.mgr.Named) (h : exec s ev = some (s', out)) :
    Accesses s s' ev out := by
  cases ev with
  | limitCheck i path flags =>
    simp only [exec] at h
    split at h
    · cases h
    · split at h <;> cases h <;>
        exact accesses_none rfl (Nat.le_refl _) rfl rfl
  | firstLookup i =>
    simp only [exec] at h
    split at h
    · next key hcall =>
      split at h
      · next fh hfind =>
        cases h
        refine accesses_found hnamed hfind rfl (Nat.le_refl _) rfl ?_ rfl
        simp [found, hcall]
      · cases h
        exact accesses_none rfl (Nat.le_refl _) rfl rfl
    · cases h
  | insert i id =>
    simp only [exec] at h
    split at h
    · next key hcall =>
      split at h
      · next fh hfind =>
        cases h
        refine accesses_found hnamed hfind rfl (Nat.le_refl _) rfl ?_ rfl
        simp [found, hcall]
      · split at h
        · cases h
        · next hid =>
          cases h
          exact accesses_insert hid rfl (Nat.le_refl _) rfl rfl
    · cases h
  | closeHandle id =>
    cases h
    refine accesses_removes (removesOnly_closeHandle id) ?_ rfl
    rw [closeHandle]
    split <;> rfl
  | getHandle id =>
    cases h
    exact accesses_update (fun _ => rfl) fun _ hid =>
      of_granted_map (g := fun r => granted (.getHandle id) (.got r)) (fun _ => rfl)
        (fun _ => rfl) hid
  | renewLease id =>
    cases h
    exact accesses_update (fun _ => rfl) fun _ hid =>
      of_granted_map (g := fun r => granted (.renewLease id) (.done r)) (fun _ => rfl)
        (fun _ => rfl) hid
  | updateOffset id offset =>
    cases h
    exact accesses_update (fun _ => rfl) fun _ hid =>
      of_granted_map (g := fun r => granted (.updateOffset id offset) (.done r)) (fun _ => rfl)
        (fun _ => rfl) hid
  | cleanupExpired now =>
    simp only [exec] at h
    split at h
    · cases h
      exact accesses_removes (removesOnly_cleanupExpired now) rfl rfl
    · cases h
  | tick d =>
    cases h
    exact accesses_none rfl (Nat.le_add_right _ _) rfl rfl

/-- A section that finds a handle hands it out. -/
lemma exec_of_found {e : HandleEntry} (h : exec s ev = some (s', out))
    (hfound : found s ev = some e) :
    granted ev out = some e.handle.id ∧ s'.mgr = s.mgr ∧ s'.clock = s.clock := by
  cases ev with
  | firstLookup i =>
    obtain ⟨call, hcall, he⟩ := Option.bind_eq_some_iff.1 hfound
    have hfind : s.mgr.find call.key = some e.handle := by rw [find_eq, he, Option.map_some]
    obtain ⟨key, stage⟩ := call
    cases stage with
    | lookup =>
      simp only [exec, hcall, hfind, Option.some.injEq] at h
      cases h
      exact ⟨rfl, rfl, rfl⟩
    | insert => simp [exec, hcall] at h
  | insert i id =>
    obtain ⟨call, hcall, he⟩ := Option.bind_eq_some_iff.1 hfound
    have hfind : s.mgr.find call.key = some e.handle := by rw [find_eq, he, Option.map_some]
    obtain ⟨key, stage⟩ := call
    cases stage with
    | lookup => simp [exec, hcall] at h
    | insert =>
      simp only [exec, hcall, hfind, Option.some.injEq] at h
      cases h
      exact ⟨rfl, rfl, rfl⟩
  | _ => cases hfound

/-- The handle that a section finds is stored. -/
lemma get?_of_found (hnamed : s.mgr.Named) {e : HandleEntry} (hfound : found s ev = some e) :
    s.mgr.handles.get? e.handle.id = some e := by
  rw [found.eq_def] at hfound
  split at hfound
  · obtain ⟨call, -, he⟩ := Option.bind_eq_some_iff.1 hfound
    exact get?_of_findEntry hnamed he
  · obtain ⟨call, -, he⟩ := Option.bind_eq_some_iff.1 hfound
    exact get?_of_findEntry hnamed he
  · cases hfound

end Accesses

/-! ### The invariant -/

/-- The invariant of the runs under the condition. -/
structure Inv (s : State) : Prop where
  base : HandleCalls.Inv s.calls
  past : ∀ g ∈ s.grants, g.time ≤ s.calls.clock
  /-- Every stored handle has been accessed when it was last handed out, or later. -/
  accessed : 0 < s.lease → ∀ g ∈ s.grants, ∀ e, s.calls.mgr.handles.get? g.id = some e →
    g.time ≤ e.lastAccessed
  /-- A handle that has been removed does not come back. -/
  gone : ∀ r ∈ s.removals, r.id ∈ s.calls.issued ∧ s.calls.mgr.handles.get? r.id = none
  removed : ∀ g ∈ s.grants, ∀ r ∈ s.removals, r.id = g.id →
    g.time + s.lease ≤ r.time ∧ (0 < s.lease → g.time + s.lease ≤ r.now)

lemma isExpired_iff {m : HandleManager} {now : ℕ} {e : HandleEntry} :
    m.isExpired now e = true ↔ m.leaseTimeout ≤ now - e.lastAccessed := by
  simp [isExpired]

lemma inv_init (leaseTimeoutSecs maxHandles : ℕ) : Inv (init leaseTimeoutSecs maxHandles) where
  base := HandleCalls.inv_init leaseTimeoutSecs maxHandles
  past _ hg := nomatch hg
  accessed _ _ hg := nomatch hg
  gone _ hr := nomatch hr
  removed _ hg := nomatch hg

lemma Inv.leasesLast {s : State} (h : Inv s) : LeasesLast s where
  removed := h.removed
  kept g hg e he now hclock hnow := by
    rw [(removesOnly_cleanupExpired now).handles]
    refine ⟨he, fun hexp => ?_⟩
    have hpast := h.past g hg
    have hlease : s.lease ≤ now - e.lastAccessed := isExpired_iff.1 hexp
    by_cases hpos : 0 < s.lease
    · have haccessed := h.accessed hpos g hg e he
      omega
    · omega

/-- What has been removed was stored, and had expired. -/
lemma of_mem_removed {s : HandleCalls.State} {ev : Event} {r : Removal}
    (h : r ∈ Leases.removed s ev) :
    ∃ e, ev = .cleanupExpired r.now ∧ r.time = s.clock ∧ s.mgr.handles.get? r.id = some e ∧
      s.mgr.isExpired r.now e = true ∧ (s.mgr.cleanupExpired r.now).2.handles.get? r.id = none := by
  cases ev with
  | cleanupExpired now =>
    obtain ⟨id, hid, rfl⟩ := List.mem_map.1 h
    obtain ⟨hkey, hnot⟩ := List.mem_filter.1 hid
    obtain ⟨⟨id', e⟩, hmem, hsame⟩ := List.mem_map.1 hkey
    obtain rfl : id' = id := hsame
    have he := AssocMap.get?_of_mem hmem
    have hnone : (s.mgr.cleanupExpired now).2.handles.get? id' = none := by
      simpa using AssocMap.contains_eq_false_iff.1 (by simpa using hnot)
    refine ⟨e, rfl, rfl, he, ?_, hnone⟩
    by_contra hexp
    have hkept := ((removesOnly_cleanupExpired now).handles id' e).2 ⟨he, hexp⟩
    rw [hnone] at hkept
    cases hkept
  | _ => cases h

lemma mem_new_grants {o : Option HandleId} {clock : ℕ} {g : Grant}
    (h : g ∈ o.toList.map (⟨·, clock⟩)) : o = some g.id ∧ g.time = clock := by
  obtain ⟨id, hid, rfl⟩ := List.mem_map.1 h
  exact ⟨Option.mem_toList.1 hid, rfl⟩

section Step

variable {s : State} {c : HandleCalls.State} {ev : Event} {out : Output}

/-- A handle that has been handed out or renewed is accessed then, or later. -/
lemma Inv.accessed_step (h : Inv s) (hok : StepOk s ev) (hexec : exec s.calls ev = some (c, out))
    (hlease : 0 < s.lease) {g : Grant}
    (hg : g ∈ (granted ev out).toList.map (⟨·, s.calls.clock⟩) ++ s.grants) {e' : HandleEntry}
    (he' : c.mgr.handles.get? g.id = some e') : g.time ≤ e'.lastAccessed := by
  have hacc := exec_accesses h.base.named hexec
  rcases List.mem_append.1 hg with hg | hg
  · obtain ⟨hid, htime⟩ := mem_new_grants hg
    obtain ⟨e, he, hfound | hnow⟩ := hacc.granted g.id hid
    · obtain rfl : e = e' := Option.some.inj (he.symm.trans he')
      exact htime ▸ hok hlease e hfound
    · obtain rfl : e = e' := Option.some.inj (he.symm.trans he')
      omega
  · have hpast := h.past g hg
    rcases hacc.entry g.id e' he' with ⟨e, he, hsame | hnow⟩ | ⟨-, hnow⟩
    · exact hsame ▸ h.accessed hlease g hg e he
    · omega
    · omega

/-- What is removed is gone. -/
lemma Inv.gone_step (h : Inv s) (hexec : exec s.calls ev = some (c, out)) {r : Removal}
    (hr : r ∈ Leases.removed s.calls ev ++ s.removals) :
    r.id ∈ c.issued ∧ c.mgr.handles.get? r.id = none := by
  have hacc := exec_accesses h.base.named hexec
  rcases List.mem_append.1 hr with hr | hr
  · obtain ⟨e, rfl, -, he, -, hnone⟩ := of_mem_removed hr
    obtain ⟨-, hc⟩ := Option.ite_none_right_eq_some.1 hexec
    obtain ⟨rfl, -⟩ := Prod.mk.inj (Option.some.inj hc)
    exact ⟨h.base.issued r.id e he, hnone⟩
  · obtain ⟨hissued, hnone⟩ := h.gone r hr
    refine ⟨hacc.issued r.id hissued, ?_⟩
    rw [Option.eq_none_iff_forall_ne_some]
    intro e' he'
    rcases hacc.entry r.id e' he' with ⟨e, he, -⟩ | ⟨hnew, -⟩
    · rw [hnone] at he
      cases he
    · exact hnew hissued

/-- A clean-up removes no handle whose lease is not over. -/
lemma Inv.removed_step (h : Inv s) (hexec : exec s.calls ev = some (c, out)) {g : Grant}
    (hg : g ∈ s.grants) {r : Removal} (hr : r ∈ Leases.removed s.calls ev) (hid : r.id = g.id) :
    g.time + s.lease ≤ r.time ∧ (0 < s.lease → g.time + s.lease ≤ r.now) := by
  obtain ⟨e, rfl, htime, he, hexp, -⟩ := of_mem_removed hr
  obtain ⟨hnow, -⟩ := Option.ite_none_right_eq_some.1 hexec
  have hpast := h.past g hg
  have hover : s.lease ≤ r.now - e.lastAccessed := isExpired_iff.1 hexp
  rw [hid] at he
  by_cases hlease : 0 < s.lease
  · have haccessed := h.accessed hlease g hg e he
    omega
  · omega

lemma Inv.of_step (h : Inv s) {s' : State} (hok : StepOk s ev) (hs : step s ev = some s') :
    Inv s' := by
  obtain ⟨⟨c, out⟩, hexec, rfl⟩ := Option.map_eq_some_iff.1 hs
  have hacc := exec_accesses h.base.named hexec
  have hlease : c.mgr.leaseTimeout = s.lease := hacc.lease
  have hcalls : HandleCalls.step s.calls ev = some c := by simp [HandleCalls.step, hexec]
  refine ⟨h.base.of_step hcalls, fun g hg => ?_, fun hpos g hg e he => ?_,
    fun r hr => h.gone_step hexec hr, fun g hg r hr hid => ?_⟩
  · have hclock := hacc.clock
    rcases List.mem_append.1 hg with hg | hg
    · exact (mem_new_grants hg).2 ▸ hclock
    · exact Nat.le_trans (h.past g hg) hclock
  · exact h.accessed_step hok hexec (hlease ▸ hpos) hg he
  · simp only [State.lease, hlease]
    rcases List.mem_append.1 hg with hg | hg
    · -- what is handed out is stored, and what has been removed is not
      obtain ⟨e, he, -⟩ := hacc.granted g.id (mem_new_grants hg).1
      rw [← hid, (h.gone_step hexec hr).2] at he
      cases he
    · rcases List.mem_append.1 hr with hr | hr
      · exact h.removed_step hexec hg hr hid
      · exact h.removed g hg r hr hid

/-- A section that keeps the leases is one under the condition. -/
lemma Inv.stepOk (h : Inv s) {s' : State} (hs : step s ev = some s') (hlast : LeasesLast s') :
    StepOk s ev := by
  intro hlease e hfound
  obtain ⟨⟨c, out⟩, hexec, rfl⟩ := Option.map_eq_some_iff.1 hs
  obtain ⟨hgranted, hmgr, hclock⟩ := exec_of_found hexec hfound
  have he := get?_of_found h.base.named hfound
  by_contra hold
  -- the handle is handed out, and its old lease is over before the new one
  have hg : (⟨e.handle.id, s.calls.clock⟩ : Grant) ∈
      (granted ev out).toList.map (⟨·, s.calls.clock⟩) ++ s.grants := by
    rw [hgranted]
    exact List.mem_cons_self
  let now := max s.calls.clock (e.lastAccessed + s.lease)
  have hkept := hlast.kept _ hg e (by rw [hmgr]; exact he) now (by rw [hclock]; omega) (by
    simp only [State.lease, hmgr, now] at hlease ⊢
    omega)
  rw [hmgr, (removesOnly_cleanupExpired now).handles] at hkept
  refine hkept.2 (isExpired_iff.2 ?_)
  simp only [State.lease, now]
  omega

end Step

/-- In all runs, leases last exactly as long as no call of `open_handle` finds a handle that has
not been accessed at that very time. -/
theorem leasesLast_iff (leaseTimeoutSecs maxHandles : ℕ) (evs : List Event) :
    StatesMeet step LeasesLast (init leaseTimeoutSecs maxHandles) evs ↔
      StepsMeet step StepOk (init leaseTimeoutSecs maxHandles) evs :=
  statesMeet_iff_of_invariant (fun _ h => h.leasesLast) (fun _ _ _ h hs hlast => h.stepOk hs hlast)
    (fun _ _ _ h hok hs => h.of_step hok hs) (inv_init leaseTimeoutSecs maxHandles)

/-- A file is opened, and opened again shortly before the lease of its handle is over; then
expired handles are removed. -/
def secondOpener : List Event :=
  [.limitCheck 0 ⟨ascii "/f"⟩ .READ, .firstLookup 0, .insert 0 ⟨1⟩, .tick 900000000,
    .limitCheck 1 ⟨ascii "/f"⟩ .READ, .firstLookup 1, .tick 200000000, .cleanupExpired 1100000000]

lemma run_secondOpener :
    ((run step (init 1 10) secondOpener).map fun s => (s.lease, s.grants, s.removals)) =
      some (1000000000, [⟨⟨1⟩, 900000000⟩, ⟨⟨1⟩, 0⟩], [⟨⟨1⟩, 1100000000, 1100000000⟩]) := by
  decide +kernel

/-- The second caller loses the handle after a fifth of its lease of one second. -/
theorem not_leasesLast_secondOpener :
    (∃ s, run step (init 1 10) secondOpener = some s ∧
      ∃ g ∈ s.grants, ∃ r ∈ s.removals, r.id = g.id ∧ r.time < g.time + s.lease) ∧
    ¬ StatesMeet step LeasesLast (init 1 10) secondOpener := by
  obtain ⟨s, hrun, hrecord⟩ := Option.map_eq_some_iff.1 run_secondOpener
  obtain ⟨hlease, hrest⟩ := Prod.mk.inj hrecord
  obtain ⟨hgrants, hremovals⟩ := Prod.mk.inj hrest
  have hg : ⟨⟨1⟩, 900000000⟩ ∈ s.grants := by simp [hgrants]
  have hr : ⟨⟨1⟩, 1100000000, 1100000000⟩ ∈ s.removals := by simp [hremovals]
  have hlt : 1100000000 < 900000000 + s.lease := by omega
  refine ⟨⟨s, hrun, _, hg, _, hr, rfl, hlt⟩, fun h => ?_⟩
  have hlast := (h.run_invariant (fun _ _ _ _ _ _ => trivial) trivial hrun).2
  exact Nat.not_le_of_lt hlt (hlast.removed _ hg _ hr rfl).1

end Racfs.Vfs.Leases
