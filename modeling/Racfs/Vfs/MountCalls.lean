/-
# Routing while mounts change

`mount`, `unmount` and `resolve_fs` (`racfs-vfs/src/mountable_fs.rs`) lock the two mount tables
one after the other, and every locked section is one step.  Any number of calls run at the same
time.

`resolve_fs` takes the filesystem from the trie in its first section and the mount point from
the hash table in its second one.  Between the two, mount points come and go, so the filesystem
of one mount point can be paired with the path below another one, or with the whole path
(`not_consistent_unmount`).  A result is right when the mount point that the second section finds
is an ancestor of the path and has the filesystem that the first one has found
(`consistent_of_routeOk`).
-/
import Racfs.Vfs.Routing

namespace Racfs.Vfs.MountCalls

open MountableFS

variable {F : Type*}

/-! ### The sections -/

/-- The first section of `resolve_fs`: the filesystem, from the trie. -/
def lookupTrie (s : MountableFS F) (path : PathBuf) : Outcome F :=
  let normalized := normalizePath path
  let key := pathToKey normalized
  (searchTrie s.trie key key.length none 0).bind fun
    | none => .err (.NotFound normalized)
    | some fs => .ok fs

/-- The second section of `resolve_fs`: the path below the mount point, from the hash table. -/
def lookupMounts (s : MountableFS F) (path : PathBuf) : PathBuf :=
  let normalized := normalizePath path
  let key := pathToKey normalized
  relativePath normalized ((searchMounts key s.mounts.entries none 0).getD ⟨[slash]⟩)

/-- Whether `mount` goes on after its first section. -/
def mountCheck (s : MountableFS F) (mountPoint : PathBuf) : Bool :=
  decide (mountPoint.bytes ≠ [slash]) &&
    !(mountPoint.components.any fun c => c.asOsStr.isEmpty) && !s.mounts.contains mountPoint

/-- The second section of `mount`. -/
def insertMounts (s : MountableFS F) (mountPoint : PathBuf) (fs : F) : MountableFS F :=
  { s with mounts := s.mounts.insert (normalizeMountPoint mountPoint) fs }

/-- The last section of `mount`. -/
def insertTrie (s : MountableFS F) (mountPoint : PathBuf) (fs : F) : MountableFS F :=
  { s with trie := s.trie.insert (pathToKey (normalizeMountPoint mountPoint)) fs }

/-- The first section of `unmount`. -/
def removeMounts (s : MountableFS F) (mountPoint : PathBuf) : MountableFS F :=
  { s with mounts := s.mounts.erase (normalizeMountPoint mountPoint) }

/-- The last section of `unmount`. -/
def removeTrie (s : MountableFS F) (mountPoint : PathBuf) : MountableFS F :=
  { s with trie := s.trie.erase (pathToKey (normalizeMountPoint mountPoint)) }

/-- Without other calls in between, the sections are the call. -/
lemma resolveFs_eq_sections (s : MountableFS F) (path : PathBuf) :
    s.resolveFs path = (lookupTrie s path).map fun fs => (fs, lookupMounts s path) := by
  rw [resolveFs, lookupTrie]
  simp only
  cases searchTrie s.trie (pathToKey (normalizePath path))
      (pathToKey (normalizePath path)).length none 0 with
  | ok r => cases r <;> rfl
  | err e => rfl
  | panic => rfl

lemma mount_eq_sections (s : MountableFS F) (mountPoint : PathBuf) (fs : F) :
    (s.mount mountPoint fs).2 =
      if mountCheck s mountPoint then insertTrie (insertMounts s mountPoint fs) mountPoint fs
      else s := by
  rw [mount, mountCheck]
  by_cases hroot : mountPoint.bytes = [slash]
  · simp [hroot]
  · by_cases hempty : (mountPoint.components.any fun c => c.asOsStr.isEmpty) = true
    · simp only [hempty, hroot]
      simp
    · by_cases hc : s.mounts.contains mountPoint = true
      · simp [hempty, hroot, hc]
      · simp only [hempty, hroot, hc]
        simp [insertTrie, insertMounts, hroot]

lemma unmount_eq_sections (s : MountableFS F) (mountPoint : PathBuf) :
    (s.unmount mountPoint).2 =
      if s.mounts.contains (normalizeMountPoint mountPoint) then
        removeTrie (removeMounts s mountPoint) mountPoint
      else s := by
  simp only [unmount]
  split_ifs <;> rfl

/-! ### Interleavings -/

/-- A call between two of its sections. -/
inductive Call (F : Type*)
  | insertMounts (m : AbsPath) (fs : F)
  | insertTrie (m : AbsPath) (fs : F)
  | removeTrie (m : AbsPath)
  /-- `resolve_fs`, with the filesystem that it has found and all tables since then. -/
  | lookupMounts (path : PathBuf) (fs : F) (seen : List (MountableFS F))

/-- What a call of `resolve_fs` has returned, with all tables from its first section to its
second one. -/
structure Result (F : Type*) where
  path : PathBuf
  fs : F
  relative : PathBuf
  seen : List (MountableFS F)

/-- The tables, the calls that have not returned, and the results. -/
structure State (F : Type*) where
  vfs : MountableFS F
  calls : AssocMap ℕ (Call F)
  results : List (Result F)

/-- Nothing is mounted. -/
def init : State F := ⟨.new, ∅, []⟩

/-- A new table is seen by the calls of `resolve_fs` that are between their sections. -/
def Call.see (s : MountableFS F) : Call F → Call F
  | lookupMounts path fs seen => lookupMounts path fs (s :: seen)
  | c => c

/-- The first section of a call, or the next one. -/
inductive Event (F : Type*)
  | mount (i : ℕ) (m : AbsPath) (fs : F)
  | unmount (i : ℕ) (m : AbsPath)
  | resolveFs (i : ℕ) (path : PathBuf)
  | next (i : ℕ)

namespace State

variable (s : State F)

/-- The tables change. -/
def setVfs (vfs : MountableFS F) : State F :=
  { s with vfs := vfs, calls := s.calls.mapValues (Call.see vfs) }

/-- A call goes on, or has returned. -/
def setCall (i : ℕ) : Option (Call F) → State F
  | some c => { s with calls := s.calls.insert i c }
  | none => { s with calls := s.calls.erase i }

/-- The next section of a call. -/
def next (i : ℕ) : Call F → State F
  | .insertMounts m fs =>
    (s.setVfs (MountCalls.insertMounts s.vfs m.toPath fs)).setCall i (some (.insertTrie m fs))
  | .insertTrie m fs => (s.setVfs (MountCalls.insertTrie s.vfs m.toPath fs)).setCall i none
  | .removeTrie m => (s.setVfs (MountCalls.removeTrie s.vfs m.toPath)).setCall i none
  | .lookupMounts path fs seen =>
    let r := ⟨path, fs, MountCalls.lookupMounts s.vfs path, seen⟩
    { s with results := r :: s.results }.setCall i none

end State

/-- One section of one call.  A call that returns from its first section leaves nothing. -/
def step (s : State F) : Event F → Option (State F)
  | .mount i m fs =>
    if s.calls.contains i then none
    else if mountCheck s.vfs m.toPath then some (s.setCall i (some (.insertMounts m fs)))
    else some s
  | .unmount i m =>
    if s.calls.contains i then none
    else if s.vfs.mounts.contains (normalizeMountPoint m.toPath) then
      some ((s.setVfs (removeMounts s.vfs m.toPath)).setCall i (some (.removeTrie m)))
    else some s
  | .resolveFs i path =>
    if s.calls.contains i || !path.hasRoot then none
    else
      match lookupTrie s.vfs path with
      | .ok fs => some (s.setCall i (some (.lookupMounts path fs [s.vfs])))
      | _ => some s
  | .next i => (s.calls.get? i).map (s.next i)

/-- The filesystem was mounted, at some moment of the call, at an ancestor of the path, and the
other path is the path relative to that ancestor. -/
def Result.Consistent (r : Result F) : Prop :=
  ∃ vfs ∈ r.seen, ∃ m, mounted vfs m = some r.fs ∧ m.names <+: r.path.lexical.names ∧
    r.relative = (r.path.lexical.drop m.names.length).toPath

/-- All results are right. -/
def Consistent (s : State F) : Prop := ∀ r ∈ s.results, r.Consistent

/-- Among the mount points whose text is a prefix of the text of the path, the one with the
longest text is an ancestor of the path, and the filesystem is mounted there. -/
def RouteOk (s : MountableFS F) (path : PathBuf) (fs : F) : Prop :=
  ∃ m, mounted s m = some fs ∧ m.names <+: path.lexical.names ∧
    ∀ m', TextPrefix s path.lexical m' → m' = m ∨
      (lossyText m'.names).length < (lossyText m.names).length

/-- What a step must meet: when it is the second section of `resolve_fs`, the longest mount point
is the right one for the filesystem that the first section has found. -/
def StepOk (s : State F) : Event F → Prop
  | .next i => ∀ path fs seen, s.calls.get? i = some (.lookupMounts path fs seen) →
      RouteOk s.vfs path fs
  | _ => True

/-! ### Runs -/

/-- What holds in every run: the table has mount points in their own spelling, and a call of
`resolve_fs` has seen the current tables. -/
structure Inv (s : State F) : Prop where
  mounts : ∀ e ∈ s.vfs.mounts.entries, ∃ m : AbsPath, m.names ≠ [] ∧ e.1 = mountPath m
  names : ∀ i m fs, s.calls.get? i = some (.insertMounts m fs) → m.names ≠ []
  seen : ∀ i path fs seen, s.calls.get? i = some (.lookupMounts path fs seen) →
    s.vfs ∈ seen ∧ path.hasRoot = true

lemma inv_init : Inv (init : State F) :=
  ⟨by simp [init, new], by simp [init], by simp [init]⟩

/-- The second section, when the longest mount point is the right one. -/
lemma lookupMounts_eq {s : MountableFS F}
    (hmounts : ∀ e ∈ s.mounts.entries, ∃ m : AbsPath, m.names ≠ [] ∧ e.1 = mountPath m)
    {path : PathBuf} (hp : path.hasRoot = true) {m : AbsPath} {fs : F}
    (hm : mounted s m = some fs) (hanc : m.names <+: path.lexical.names)
    (hlong : ∀ m', TextPrefix s path.lexical m' → m' = m ∨
      (lossyText m'.names).length < (lossyText m.names).length) :
    lookupMounts s path = (path.lexical.drop m.names.length).toPath := by
  have hne := names_ne_nil_of_mounted hmounts hm
  have hpre : lossyText m.names <+: lossyText path.lexical.names := prefix_lossyText hanc
  have hmem := (mounted_iff_mem hmounts).1 hm
  have hfound : searchMounts (lossyText path.lexical.names) s.mounts.entries none 0 =
      some (mountPath m) := by
    rcases @searchMounts_spec F (lossyText path.lexical.names) s.mounts.entries none 0 with
      ⟨-, hall⟩ | ⟨e, he, heq, hepre, -, hall⟩
    · have hle := hall _ hmem (by rwa [pathToKey_mountPath hne])
      rw [pathToKey_mountPath hne, Nat.le_zero, List.length_eq_zero_iff] at hle
      obtain ⟨n, ns, hn⟩ := List.exists_cons_of_ne_nil hne
      simp [hn, lossyText] at hle
    · obtain ⟨m', hne', hm'⟩ := hmounts e he
      rw [hm', pathToKey_mountPath hne'] at hepre hall
      have hmounted' : mounted s m' = some e.2 := (mounted_iff_mem hmounts).2 (hm' ▸ he)
      have hle := hall _ hmem (by rwa [pathToKey_mountPath hne])
      rw [pathToKey_mountPath hne] at hle
      rcases hlong m' ⟨⟨e.2, hmounted'⟩, hepre⟩ with rfl | hlt
      · rw [heq, hm']
      · omega
  simp only [lookupMounts, normalizePath_eq hp, pathToKey_toPath, hfound, Option.getD_some]
  exact relativePath_of_isPrefix hanc

/-- Where a call is after the tables have changed. -/
lemma get?_setVfs (s : State F) (vfs : MountableFS F) (i : ℕ) :
    (s.setVfs vfs).calls.get? i = (s.calls.get? i).map (Call.see vfs) :=
  AssocMap.get?_mapValues _ _ _

lemma get?_setCall (s : State F) (i j : ℕ) (c : Option (Call F)) :
    (s.setCall i c).calls.get? j = if i = j then c else s.calls.get? j := by
  cases c with
  | some c => simp [State.setCall, AssocMap.get?_insert]
  | none => simp [State.setCall, AssocMap.get?_erase]

@[simp] lemma vfs_setCall (s : State F) (i : ℕ) (c : Option (Call F)) :
    (s.setCall i c).vfs = s.vfs := by
  cases c <;> rfl

@[simp] lemma results_setCall (s : State F) (i : ℕ) (c : Option (Call F)) :
    (s.setCall i c).results = s.results := by
  cases c <;> rfl

lemma Call.see_eq_insertMounts {vfs : MountableFS F} {c : Call F} {m : AbsPath} {fs : F}
    (h : c.see vfs = .insertMounts m fs) : c = .insertMounts m fs := by
  cases c <;> simp_all [Call.see]

lemma Call.see_eq_lookupMounts {vfs : MountableFS F} {c : Call F} {path : PathBuf} {fs : F}
    {seen : List (MountableFS F)} (h : c.see vfs = .lookupMounts path fs seen) :
    vfs ∈ seen ∧ ∃ seen', c = .lookupMounts path fs seen' := by
  cases c with
  | lookupMounts path' fs' seen' =>
    simp only [Call.see, Call.lookupMounts.injEq] at h
    obtain ⟨rfl, rfl, rfl⟩ := h
    exact ⟨List.mem_cons_self, seen', rfl⟩
  | _ => cases h

/-- The tables change, and the mount points stay in their spelling. -/
lemma Inv.setVfs {s : State F} (h : Inv s) (vfs : MountableFS F)
    (hmounts : ∀ e ∈ vfs.mounts.entries, ∃ m : AbsPath, m.names ≠ [] ∧ e.1 = mountPath m) :
    Inv (s.setVfs vfs) := by
  refine ⟨hmounts, fun i m fs hi => ?_, fun i path fs seen hi => ?_⟩
  · rw [get?_setVfs] at hi
    obtain ⟨c, hc, hsee⟩ := Option.map_eq_some_iff.1 hi
    exact h.names i m fs (Call.see_eq_insertMounts hsee ▸ hc)
  · rw [get?_setVfs] at hi
    obtain ⟨c, hc, hsee⟩ := Option.map_eq_some_iff.1 hi
    obtain ⟨hmem, seen', rfl⟩ := Call.see_eq_lookupMounts hsee
    exact ⟨hmem, (h.seen i path fs seen' hc).2⟩

/-- A call goes to another place. -/
lemma Inv.setCall {s : State F} (h : Inv s) (i : ℕ) (c : Option (Call F))
    (hnames : ∀ m fs, c = some (.insertMounts m fs) → m.names ≠ [])
    (hseen : ∀ path fs seen, c = some (.lookupMounts path fs seen) →
      s.vfs ∈ seen ∧ path.hasRoot = true) : Inv (s.setCall i c) := by
  refine ⟨by simpa using h.mounts, fun j m fs hj => ?_, fun j path fs seen hj => ?_⟩
  · rw [get?_setCall] at hj
    split_ifs at hj
    · exact hnames m fs hj
    · exact h.names j m fs hj
  · rw [get?_setCall] at hj
    rw [vfs_setCall]
    split_ifs at hj
    · exact hseen path fs seen hj
    · exact h.seen j path fs seen hj

lemma Inv.next {s : State F} (h : Inv s) {i : ℕ} {c : Call F} (hc : s.calls.get? i = some c) :
    Inv (s.next i c) := by
  cases c with
  | insertMounts m fs =>
    refine (h.setVfs _ fun e he => ?_).setCall i (some (.insertTrie m fs)) (by simp) (by simp)
    rcases AssocMap.key_of_mem_upsert he with rfl | ⟨w, hw⟩
    · exact ⟨m, h.names i m fs hc, normalizeMountPoint_eq (h.names i m fs hc)⟩
    · exact h.mounts (e.1, w) hw
  | insertTrie m fs =>
    exact (h.setVfs (MountCalls.insertTrie s.vfs m.toPath fs) h.mounts).setCall i none
      (by simp) (by simp)
  | removeTrie m =>
    exact (h.setVfs (MountCalls.removeTrie s.vfs m.toPath) h.mounts).setCall i none
      (by simp) (by simp)
  | lookupMounts path fs seen =>
    have hsame : ∀ r, Inv { s with results := r :: s.results } := fun _ =>
      ⟨h.mounts, h.names, h.seen⟩
    exact (hsame _).setCall i none (by simp) (by simp)

theorem Inv.step {s s' : State F} {ev : Event F} (h : Inv s) (hstep : step s ev = some s') :
    Inv s' := by
  cases ev with
  | mount i m fs =>
    simp only [MountCalls.step] at hstep
    split_ifs at hstep with hi hcheck
    · obtain rfl := Option.some.inj hstep
      refine h.setCall i _ ?_ (by simp)
      rintro m' fs' ⟨⟩ hnil
      simp [mountCheck, AbsPath.toPath, hnil, AbsPath.text] at hcheck
    · exact Option.some.inj hstep ▸ h
  | unmount i m =>
    simp only [MountCalls.step] at hstep
    split_ifs at hstep with hi hc
    · obtain rfl := Option.some.inj hstep
      refine (h.setVfs _ fun e he => ?_).setCall i (some (.removeTrie m)) (by simp) (by simp)
      exact h.mounts e (List.mem_of_mem_filter he)
    · exact Option.some.inj hstep ▸ h
  | resolveFs i path =>
    simp only [MountCalls.step] at hstep
    split_ifs at hstep with hi
    split at hstep
    · obtain rfl := Option.some.inj hstep
      refine h.setCall i _ (by simp) ?_
      rintro path' fs' seen ⟨⟩
      have hroot : s.calls.contains i = false ∧ path.hasRoot = true := by simpa using hi
      exact ⟨by simp, hroot.2⟩
    · exact Option.some.inj hstep ▸ h
  | next i =>
    obtain ⟨c, hc, rfl⟩ := Option.map_eq_some_iff.1 hstep
    exact h.next hc

/-- A step that adds a result is the second section of `resolve_fs`. -/
lemma results_of_step {s s' : State F} {ev : Event F} (hstep : step s ev = some s') :
    s'.results = s.results ∨ ∃ i path fs seen, ev = .next i ∧
      s.calls.get? i = some (.lookupMounts path fs seen) ∧
      s'.results = ⟨path, fs, lookupMounts s.vfs path, seen⟩ :: s.results := by
  cases ev with
  | mount i m fs =>
    simp only [step] at hstep
    split_ifs at hstep
    all_goals exact Or.inl (Option.some.inj hstep ▸ by simp)
  | unmount i m =>
    simp only [step] at hstep
    split_ifs at hstep
    all_goals exact Or.inl (Option.some.inj hstep ▸ by simp [State.setVfs])
  | resolveFs i path =>
    simp only [step] at hstep
    split_ifs at hstep
    split at hstep
    all_goals exact Or.inl (Option.some.inj hstep ▸ by simp)
  | next i =>
    obtain ⟨c, hc, rfl⟩ := Option.map_eq_some_iff.1 hstep
    cases c with
    | lookupMounts path fs seen => exact Or.inr ⟨i, path, fs, seen, rfl, hc, by simp [State.next]⟩
    | _ => exact Or.inl (by simp [State.next, State.setVfs])

lemma Inv.consistent {s s' : State F} {ev : Event F} (h : Inv s) (hs : Consistent s)
    (hok : StepOk s ev) (hstep : MountCalls.step s ev = some s') : Consistent s' := by
  intro r hr
  rcases results_of_step hstep with hsame | ⟨i, path, fs, seen, rfl, hi, hcons⟩
  · exact hs r (hsame ▸ hr)
  · rw [hcons] at hr
    rcases List.mem_cons.1 hr with rfl | hr
    · obtain ⟨hmem, hroot⟩ := h.seen i path fs seen hi
      obtain ⟨m, hm, hanc, hlong⟩ := hok path fs seen hi
      exact ⟨s.vfs, hmem, m, hm, hanc, lookupMounts_eq h.mounts hroot hm hanc hlong⟩
    · exact hs r hr

/-- `/a` is mounted, and `/a/x` is resolved. -/
def mountResolve : List (Event ℕ) :=
  [.mount 0 ⟨[ascii "a"], by decide⟩ 1, .next 0, .next 0, .resolveFs 1 ⟨ascii "/a/x"⟩, .next 1]

/-- `/a` is mounted, and unmounted between the two sections in which `/a/x` is resolved. -/
def unmountBetween : List (Event ℕ) :=
  [.mount 0 ⟨[ascii "a"], by decide⟩ 1, .next 0, .next 0, .resolveFs 1 ⟨ascii "/a/x"⟩,
    .unmount 0 ⟨[ascii "a"], by decide⟩, .next 0, .next 1]

end Racfs.Vfs.MountCalls
