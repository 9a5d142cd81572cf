/-
# What a call of the client does on the server

The server does not recognize a request that it gets a second time (`Racfs.Client.Resend`).  A
write to the tail of a queue then puts a second message there.  A file that is to be created
exists already, and one that is to be removed or renamed is gone: these requests are spent after
their first delivery, and the client reports the failure of its own retry.  Only a rename to the
same place can be repeated.
-/
import Racfs.Client.Resend
import Racfs.QueueFs.Model
import Racfs.Server.Api

namespace Racfs.Client

open Server MemFs Vfs QueueFs

/-! ### Creating, removing and renaming files -/

section Files

variable {ι : Type*} [DecidableEq ι]

/-- The handlers that change one path of the filesystem. -/
def onePath (operation message path : Bytes)
    (f : DateTime → MemFS → PathBuf → Outcome Reply × MemFS) (s : ServerState ι) :
    Response Bytes × ServerState ι :=
  match validatePath path with
  | some e => (.error e, s)
  | none => s.change operation ⟨path⟩ message (f s.clock)

lemma createFile_eq_onePath (s : ServerState ι) (path : Bytes) :
    s.createFile path = onePath (ascii "create") (ascii "Created file: " ++ path) path
      (fun t fs p => fs.create p t) s := by
  rw [ServerState.createFile, Server.createFile, onePath]
  cases validatePath path with
  | some e => rfl
  | none => rfl

lemma deleteFile_eq_onePath (s : ServerState ι) (path : Bytes) :
    s.deleteFile path = onePath (ascii "remove") (ascii "Deleted: " ++ path) path
      (fun _ fs p => fs.remove p) s := rfl

/-- The requests of a call: the same request, at the times of its deliveries. -/
def atTimes (time : ℕ → DateTime) (request : ServerState ι → Response Bytes × ServerState ι)
    (a : ℕ) (s : ServerState ι) : Response Bytes × ServerState ι :=
  request { s with clock := time a }

omit [DecidableEq ι] in
@[simp] lemma app_conclude (s : ServerState ι) (r : Response Bytes × AppState ι)
    (drop : StatCache → StatCache) : (s.conclude r drop).2.app = r.2 := by
  obtain ⟨x, app⟩ := r
  cases x <;> rfl

omit [DecidableEq ι] in
@[simp] lemma fst_conclude (s : ServerState ι) (r : Response Bytes × AppState ι)
    (drop : StatCache → StatCache) : (s.conclude r drop).1 = r.1 := by
  obtain ⟨x, app⟩ := r
  cases x <;> rfl

lemma isApplied_respond {A B : Type*} (operation : Bytes) (path : PathBuf) (f : A → B)
    (x : Outcome A) : isApplied (respond operation path f x) = x.isOk := by
  cases x <;> rfl

variable {time : ℕ → DateTime} {pattern : ℕ → Delivery} {s : ServerState ι}
  {delay latency : ℕ → ℕ} {c : CircuitState} {now : Instant}

omit [DecidableEq ι] in
/-- A request that the server refuses in every state of its filesystem is spent from the start. -/
lemma spends_of_refused {request : ServerState ι → Response Bytes × ServerState ι}
    (h : ∀ s' : ServerState ι, s'.app = s.app →
      isApplied (request s').1 = false ∧ (request s').2.app = s.app) :
    Spends (atTimes time request) s fun s' => s'.app = s.app where
  first a := (h { s with clock := time a } rfl).2
  again a s' hs' := (h { s' with clock := time a } hs').2
  fails a s' hs' := (h { s' with clock := time a } hs').1
  error a s' happlied _ := by
    have hnot := (h { s with clock := time 0 } rfl).1
    rw [atTimes, hnot] at happlied
    cases happlied
  time a := (h { s with clock := time a } rfl).1.trans (h { s with clock := time 0 } rfl).1.symm

/-- A request that is an operation of the mounted filesystem `i`, as long as the mounts stay as
they are. -/
def ActsOn (request : ServerState ι → Response Bytes × ServerState ι) (s : ServerState ι) (i : ι)
    (g : DateTime → MemFS → Outcome Reply × MemFS) : Prop :=
  ∀ s' : ServerState ι, s'.app.vfs = s.app.vfs → ∃ operation path message,
    (request s').1 =
        respond operation path (fun _ => message) (g s'.clock (s'.app.backend i)).1 ∧
      (request s').2.app =
        ⟨s'.app.vfs, Function.update s'.app.backend i (g s'.clock (s'.app.backend i)).2⟩

section Acting

variable {request : ServerState ι → Response Bytes × ServerState ι} {i : ι}
  {g : DateTime → MemFS → Outcome Reply × MemFS}

variable (h : ActsOn request s i g) {s' : ServerState ι} (hvfs : s'.app.vfs = s.app.vfs)
include h hvfs

lemma ActsOn.isApplied (a : ℕ) :
    isApplied (atTimes time request a s').1 = (g (time a) (s'.app.backend i)).1.isOk := by
  obtain ⟨operation, path, message, hresp, -⟩ := h { s' with clock := time a } hvfs
  rw [atTimes, hresp, isApplied_respond]

lemma ActsOn.vfs (a : ℕ) : (atTimes time request a s').2.app.vfs = s.app.vfs := by
  obtain ⟨operation, path, message, -, happ⟩ := h { s' with clock := time a } hvfs
  rw [atTimes, happ]
  exact hvfs

lemma ActsOn.backend (a : ℕ) :
    (atTimes time request a s').2.app.backend i = (g (time a) (s'.app.backend i)).2 := by
  obtain ⟨operation, path, message, -, happ⟩ := h { s' with clock := time a } hvfs
  rw [atTimes, happ]
  exact Function.update_self ..

omit hvfs

/-- An operation after which it fails makes the request spent. -/
lemma ActsOn.spends (gone : MemFS → Prop) (hfirst : ∀ t, gone (g t (s.app.backend i)).2)
    (hagain : ∀ t fs, gone fs → gone (g t fs).2)
    (hgone : ∀ t fs, gone fs → ∃ e, (g t fs).1 = .err e)
    (htime : ∀ t t' fs, (g t fs).1.isOk = (g t' fs).1.isOk) :
    Spends (atTimes time request) s fun s' =>
      s'.app.vfs = s.app.vfs ∧ gone (s'.app.backend i) where
  first a := ⟨h.vfs rfl a, by rw [h.backend rfl]; exact hfirst _⟩
  again a s' hs' := ⟨h.vfs hs'.1 a, by rw [h.backend hs'.1]; exact hagain _ _ hs'.2⟩
  fails a s' hs' := by
    obtain ⟨e, he⟩ := hgone (time a) _ hs'.2
    rw [h.isApplied hs'.1, he]
    rfl
  error a s' _ hs' := by
    obtain ⟨e, he⟩ := hgone (time a) _ hs'.2
    obtain ⟨operation, path, message, hresp, -⟩ := h { s' with clock := time a } hs'.1
    exact ⟨_, by rw [atTimes, hresp, he, respond]⟩
  time a := by
    rw [h.isApplied rfl, h.isApplied rfl]
    exact htime _ _ _

/-- An operation that keeps succeeding. -/
lemma ActsOn.repeats (good : MemFS → Prop) (hstart : good (s.app.backend i))
    (hgood : ∀ t fs, good fs → (g t fs).1.isOk = true ∧ good (g t fs).2) :
    Repeats (atTimes time request) s fun s' =>
      s'.app.vfs = s.app.vfs ∧ good (s'.app.backend i) where
  start := ⟨rfl, hstart⟩
  keeps a s' hs' := ⟨h.vfs hs'.1 a, by rw [h.backend hs'.1]; exact (hgood _ _ hs'.2).2⟩
  succeeds a s' hs' := by
    rw [h.isApplied hs'.1]
    exact (hgood _ _ hs'.2).1

end Acting

/-- The filesystem that a path is routed to, and the path inside of it. -/
def Target (s : ServerState ι) (path : Bytes) (i : ι) (p : PathBuf) : Prop :=
  validatePath path = none ∧ s.app.vfs.resolveFs ⟨path⟩ = .ok (i, p)

section OnePath

variable {f : DateTime → MemFS → PathBuf → Outcome Reply × MemFS} {gone : PathBuf → MemFS → Prop}
  {operation message path : Bytes}

lemma onePath_of_no_target (h : ∀ i p, ¬ Target s path i p) :
    isApplied (onePath operation message path f s).1 = false ∧
      (onePath operation message path f s).2.app = s.app := by
  rw [onePath]
  cases hvalid : validatePath path with
  | some e => exact ⟨rfl, rfl⟩
  | none =>
    simp only [ServerState.change, AppState.mutate, fst_conclude, app_conclude, isApplied_respond]
    cases hresolve : s.app.vfs.resolveFs ⟨path⟩ with
    | ok r => exact absurd ⟨hvalid, hresolve⟩ (h r.1 r.2)
    | err e => exact ⟨rfl, rfl⟩
    | panic => exact ⟨rfl, rfl⟩

lemma actsOn_onePath {i : ι} {p : PathBuf} (h : Target s path i p) :
    ActsOn (onePath operation message path f) s i fun t fs => f t fs p := by
  intro s' hvfs
  refine ⟨operation, ⟨path⟩, message, ?_⟩
  rw [onePath, h.1]
  simp only [ServerState.change, AppState.mutate, hvfs, h.2, fst_conclude, app_conclude, and_self]

variable (gone) in
/-- When a call for one path fails by its own retry. -/
lemma failedByRetry_onePath_iff (hfirst : ∀ t fs p, gone p (f t fs p).2)
    (hgone : ∀ t fs p, gone p fs → ∃ e, (f t fs p).1 = .err e)
    (htime : ∀ t t' fs p, (f t fs p).1.isOk = (f t' fs p).1.isOk) :
    FailedByRetry (atTimes time (onePath operation message path f)) pattern s
        (clientCall (atTimes time (onePath operation message path f)) pattern s delay latency c
          now) ↔
      isApplied (atTimes time (onePath operation message path f) 0 s).1 = true ∧
        (c.check now).isSome = true ∧ AnsweredAfterLoss pattern := by
  by_cases htarget : ∃ i p, Target s path i p
  · obtain ⟨i, p, h⟩ := htarget
    refine ((actsOn_onePath h).spends (gone p) (fun t => hfirst t _ p) ?_ ?_ ?_).failedByRetry_iff
    · exact fun t fs _ => hfirst t fs p
    · exact fun t fs hfs => hgone t fs p hfs
    · exact fun t t' fs => htime t t' fs p
  · refine (spends_of_refused fun s' hs' => ?_).failedByRetry_iff
    rw [← hs']
    refine onePath_of_no_target fun i p h => htarget ⟨i, p, h.1, ?_⟩
    rw [← h.2, hs']

end OnePath

/-! #### The operations of the in-memory filesystem -/

lemma ensureParentExists_ne_panic (fs : MemFS) (p : PathBuf) :
    fs.ensureParentExists p ≠ .panic := by
  intro h
  rw [MemFS.ensureParentExists] at h
  split at h
  · cases h
  · split_ifs at h
    split at h
    · cases h
    · split_ifs at h

/-- Whether a file can be created does not depend on the time; when it cannot, nothing changes. -/
lemma create_cases (fs : MemFS) (p : PathBuf) :
    (∃ e, ∀ t, fs.create p t = (.err e, fs)) ∨
    (fs.files.contains p = false ∧ ∀ t, fs.create p t =
      (.ok .unit, { fs with files := fs.files.insert p (MemFS.fileEntry p t) })) := by
  cases hparent : fs.ensureParentExists p with
  | panic => exact absurd hparent (ensureParentExists_ne_panic fs p)
  | err e => exact .inl ⟨e, fun t => by rw [MemFS.create, hparent, MemFS.check]⟩
  | ok u =>
    cases hused : fs.files.contains p with
    | true =>
      refine .inl ⟨.AlreadyExists p, fun t => ?_⟩
      rw [MemFS.create, MemFS.check_of_ok hparent, MemFS.addEntry_of_contains hused]
    | false =>
      refine .inr ⟨rfl, fun t => ?_⟩
      rw [MemFS.create, MemFS.check_of_ok hparent, MemFS.addEntry_of_not_contains hused]

/-- A file cannot be created twice. -/
lemma create_again (fs : MemFS) (p : PathBuf) (t t' : DateTime) :
    ∃ e, ((fs.create p t).2.create p t').1 = .err e := by
  rcases create_cases fs p with ⟨e, he⟩ | ⟨-, hok⟩
  · exact ⟨e, by rw [he t, he t']⟩
  · rw [hok t]
    rcases create_cases { fs with files := fs.files.insert p (MemFS.fileEntry p t) } p with
      ⟨e, he⟩ | ⟨hnew, -⟩
    · exact ⟨e, by rw [he t']⟩
    · simp [AssocMap.contains] at hnew

lemma isOk_create (fs : MemFS) (p : PathBuf) (t t' : DateTime) :
    (fs.create p t).1.isOk = (fs.create p t').1.isOk := by
  rcases create_cases fs p with ⟨e, he⟩ | ⟨-, hok⟩
  · rw [he t, he t']
  · rw [hok t, hok t']

/-- After a removal, also one that fails, the path is gone. -/
lemma get?_remove_self (fs : MemFS) (p : PathBuf) : (fs.remove p).2.files.get? p = none := by
  rw [MemFS.remove]
  cases h : fs.files.get? p with
  | none => exact h
  | some e =>
    simp only
    split <;> exact AssocMap.get?_erase_self _ _

/-- The renames that cannot succeed. -/
def RenameFails (fs : MemFS) (o n : PathBuf) : Prop :=
  fs.files.get? o = none ∨ (fs.files.erase o).contains n = true

lemma rename_of_fails {fs : MemFS} {o n : PathBuf} (h : RenameFails fs o n) :
    ∃ e, (fs.rename o n).1 = .err e := by
  rw [MemFS.rename]
  cases hget : fs.files.get? o with
  | none => exact ⟨_, rfl⟩
  | some e =>
    rcases h with h | h
    · rw [hget] at h
      cases h
    · simp only [if_pos h]
      exact ⟨_, rfl⟩

/-- A rename to another path cannot succeed twice. -/
lemma renameFails_rename {o n : PathBuf} (hne : (o == n) = false) (fs : MemFS) :
    RenameFails (fs.rename o n).2 o n := by
  have hne' : (n == o) = false := by rw [BEq.comm, hne]
  rw [MemFS.rename]
  cases hget : fs.files.get? o with
  | none => exact .inl hget
  | some e =>
    simp only
    split
    · next hused =>
      right
      rw [AssocMap.contains, AssocMap.get?_erase, hne, AssocMap.get?_insert, hne]
      exact hused
    · left
      show ((fs.files.erase o).insert n _).get? o = none
      rw [AssocMap.get?_insert, hne']
      exact AssocMap.get?_erase_self _ _

/-- A rename to the same path succeeds if there is something to rename, and can be repeated. -/
lemma rename_same {o n : PathBuf} (heq : (o == n) = true) {fs : MemFS}
    (h : fs.files.contains o = true) :
    (fs.rename o n).1 = .ok .unit ∧ (fs.rename o n).2.files.contains o = true := by
  obtain ⟨e, he⟩ := AssocMap.contains_iff.1 h
  have hfree : (fs.files.erase o).contains n = false := by
    rw [AssocMap.contains, AssocMap.get?_erase, heq]
    rfl
  rw [MemFS.rename]
  simp only [he, hfree, Bool.false_eq_true, if_false, true_and]
  rw [AssocMap.contains, AssocMap.get?_insert, BEq.symm heq]
  rfl

/-! #### Calls -/

/-- The handlers of the requests of a call. -/
def createRequest (time : ℕ → DateTime) (path : Bytes) :
    ℕ → ServerState ι → Response Bytes × ServerState ι :=
  atTimes time fun s => s.createFile path

/-- The same for a removal, -/
def removeRequest (time : ℕ → DateTime) (path : Bytes) :
    ℕ → ServerState ι → Response Bytes × ServerState ι :=
  atTimes time fun s => s.deleteFile path

/-- and for a rename. -/
def renameRequest (time : ℕ → DateTime) (oldPath newPath : Bytes) :
    ℕ → ServerState ι → Response Bytes × ServerState ι :=
  atTimes time fun s => s.rename oldPath newPath

lemma failedByRetry_create_iff (path : Bytes) :
    FailedByRetry (createRequest time path) pattern s
        (clientCall (createRequest time path) pattern s delay latency c now) ↔
      isApplied (createRequest time path 0 s).1 = true ∧ (c.check now).isSome = true ∧
        AnsweredAfterLoss pattern := by
  have heq : (createRequest time path : ℕ → ServerState ι → _) = atTimes time
      (onePath (ascii "create") (ascii "Created file: " ++ path) path fun t fs p =>
        fs.create p t) :=
    congrArg (atTimes time) (funext fun s => createFile_eq_onePath s path)
  rw [heq]
  exact failedByRetry_onePath_iff (fun p fs => ∀ t, ∃ e, (fs.create p t).1 = .err e)
    (fun t fs p t' => create_again fs p t t') (fun t fs p h => h t)
    (fun t t' fs p => isOk_create fs p t t')

lemma failedByRetry_remove_iff (path : Bytes) :
    FailedByRetry (removeRequest time path) pattern s
        (clientCall (removeRequest time path) pattern s delay latency c now) ↔
      isApplied (removeRequest time path 0 s).1 = true ∧ (c.check now).isSome = true ∧
        AnsweredAfterLoss pattern := by
  have heq : (removeRequest time path : ℕ → ServerState ι → _) = atTimes time
      (onePath (ascii "remove") (ascii "Deleted: " ++ path) path fun _ fs p => fs.remove p) :=
    congrArg (atTimes time) (funext fun s => deleteFile_eq_onePath s path)
  rw [heq]
  refine failedByRetry_onePath_iff (fun p fs => fs.files.get? p = none)
    (fun t fs p => get?_remove_self fs p) (fun t fs p h => ?_) (fun t t' fs p => rfl)
  exact ⟨.NotFound p, by simp only [MemFS.remove, h]⟩

/-- Both paths of a rename are routed to the same filesystem. -/
def RenameTarget (s : ServerState ι) (oldPath newPath : Bytes) (i : ι) (o n : PathBuf) : Prop :=
  Target s oldPath i o ∧ Target s newPath i n

lemma rename_of_no_target {oldPath newPath : Bytes}
    (h : ∀ i o n, ¬ RenameTarget s oldPath newPath i o n) :
    isApplied (s.rename oldPath newPath).1 = false ∧ (s.rename oldPath newPath).2.app = s.app := by
  rw [ServerState.rename]
  cases hold : validatePath oldPath with
  | some e => exact ⟨rfl, rfl⟩
  | none =>
    cases hnew : validatePath newPath with
    | some e => exact ⟨rfl, rfl⟩
    | none =>
      simp only [AppState.rename, fst_conclude, app_conclude, isApplied_respond]
      cases ho : s.app.vfs.resolveFs ⟨oldPath⟩ with
      | err e => exact ⟨rfl, rfl⟩
      | panic => exact ⟨rfl, rfl⟩
      | ok r =>
        cases hn : s.app.vfs.resolveFs ⟨newPath⟩ with
        | err e => exact ⟨rfl, rfl⟩
        | panic => exact ⟨rfl, rfl⟩
        | ok r' =>
          simp only
          split
          · next hsame =>
            refine absurd ?_ (h r.1 r.2 r'.2)
            exact ⟨⟨hold, ho⟩, hnew, by rw [hn, hsame]⟩
          · exact ⟨rfl, rfl⟩

lemma actsOn_rename {oldPath newPath : Bytes} {i : ι} {o n : PathBuf}
    (h : RenameTarget s oldPath newPath i o n) :
    ActsOn (fun s => s.rename oldPath newPath) s i fun _ fs => fs.rename o n := by
  intro s' hvfs
  refine ⟨ascii "rename", ⟨oldPath⟩,
    ascii "Renamed " ++ oldPath ++ ascii " to " ++ newPath, ?_⟩
  simp only [ServerState.rename, h.1.1, h.2.1, AppState.rename, hvfs, h.1.2, h.2.2, if_true,
    fst_conclude, app_conclude, and_self]

/-- The two paths of a rename are one. -/
def SamePlace (s : ServerState ι) (oldPath newPath : Bytes) : Prop :=
  ∃ i o n, RenameTarget s oldPath newPath i o n ∧ (o == n) = true

omit [DecidableEq ι] in
lemma samePlace_iff {oldPath newPath : Bytes} {i : ι} {o n : PathBuf}
    (h : RenameTarget s oldPath newPath i o n) :
    SamePlace s oldPath newPath ↔ (o == n) = true := by
  refine ⟨?_, fun heq => ⟨i, o, n, h, heq⟩⟩
  rintro ⟨i', o', n', h', heq⟩
  obtain ⟨rfl, rfl⟩ := Prod.mk.inj (Outcome.ok.inj (h.1.2.symm.trans h'.1.2))
  obtain ⟨-, rfl⟩ := Prod.mk.inj (Outcome.ok.inj (h.2.2.symm.trans h'.2.2))
  exact heq

/-- A rename to the same place does not fail by its own retry: it can be repeated, or fails from
the start. -/
lemma not_failedByRetry_of_samePlace {oldPath newPath : Bytes}
    (h : SamePlace s oldPath newPath) :
    ¬ FailedByRetry (renameRequest time oldPath newPath) pattern s
      (clientCall (renameRequest time oldPath newPath) pattern s delay latency c now) := by
  obtain ⟨i, o, n, htarget, heq⟩ := h
  have hacts := actsOn_rename htarget
  cases hstored : (s.app.backend i).files.contains o with
  | true =>
    refine (hacts.repeats (fun fs => fs.files.contains o = true) hstored
      fun _ fs hfs => ?_).not_failedByRetry
    obtain ⟨hok, hafter⟩ := rename_same heq hfs
    exact ⟨by rw [hok]; rfl, hafter⟩
  | false =>
    have hnone := AssocMap.contains_eq_false_iff.1 hstored
    have hrename : ∀ fs : MemFS, fs.files.get? o = none →
        fs.rename o n = (.err (.NotFound o), fs) := by
      intro fs hfs
      simp only [MemFS.rename, hfs]
    rw [renameRequest,
      (hacts.spends (fun fs => fs.files.get? o = none) ?_ ?_ ?_ ?_).failedByRetry_iff]
    · rw [hacts.isApplied rfl, hrename _ hnone]
      simp [Outcome.isOk]
    · exact fun _ => by rw [hrename _ hnone]; exact hnone
    · exact fun _ fs hfs => by rw [hrename fs hfs]; exact hfs
    · exact fun _ fs hfs => ⟨_, by rw [hrename fs hfs]⟩
    · exact fun _ _ _ => rfl

lemma failedByRetry_rename_iff (oldPath newPath : Bytes) :
    FailedByRetry (renameRequest time oldPath newPath) pattern s
        (clientCall (renameRequest time oldPath newPath) pattern s delay latency c now) ↔
      ¬ SamePlace s oldPath newPath ∧ isApplied (renameRequest time oldPath newPath 0 s).1 = true ∧
        (c.check now).isSome = true ∧ AnsweredAfterLoss pattern := by
  by_cases hsame : SamePlace s oldPath newPath
  · simp only [hsame, not_true_eq_false, false_and, iff_false]
    exact not_failedByRetry_of_samePlace hsame
  · simp only [hsame, not_false_eq_true, true_and]
    by_cases htarget : ∃ i o n, RenameTarget s oldPath newPath i o n
    · obtain ⟨i, o, n, h⟩ := htarget
      have hne : (o == n) = false := by
        rw [samePlace_iff h] at hsame
        exact eq_false_of_ne_true hsame
      refine ((actsOn_rename h).spends (fun fs => RenameFails fs o n) ?_ ?_ ?_ ?_).failedByRetry_iff
      · exact fun _ => renameFails_rename hne _
      · exact fun _ fs _ => renameFails_rename hne fs
      · exact fun _ fs hfs => rename_of_fails hfs
      · exact fun _ _ _ => rfl
    · refine (spends_of_refused fun s' hs' => ?_).failedByRetry_iff
      rw [← hs']
      refine rename_of_no_target fun i o n h => htarget ⟨i, o, n, ?_⟩
      rw [RenameTarget, Target, Target, hs'] at h
      exact h

end Files

/-! ### Queues -/

section Queues

variable {ι : Type*} [DecidableEq ι]

/-- A server whose mounted filesystems are message queues. -/
structure QueueServer (ι : Type*) where
  vfs : MountableFS ι
  backend : ι → QueueFS

/-- `PUT`: write data at an offset. -/
def QueueServer.writeFile (s : QueueServer ι) (body : WriteRequest) :
    Response Bytes × QueueServer ι :=
  match validatePath body.path with
  | some e => (.error e, s)
  | none =>
    match validateWriteDataLen body.data.length with
    | some e => (.error e, s)
    | none =>
      match s.vfs.resolveFs ⟨body.path⟩ with
      | .ok (i, p) =>
        let r := (s.backend i).write p body.data (body.offset.getD 0) .NONE
        (respond (ascii "write") ⟨body.path⟩ (fun n => wroteMessage (.written n)) r.1,
          { s with backend := Function.update s.backend i r.2 })
      | .err e => (respond (ascii "write") ⟨body.path⟩ wroteMessage (.err e), s)
      | .panic => (.panic, s)

/-- The path of a write is the tail of a queue. -/
structure IsTail (s : QueueServer ι) (path : Bytes) (i : ι) (name : Bytes) : Prop where
  routed : ∃ p, s.vfs.resolveFs ⟨path⟩ = .ok (i, p) ∧
    QueueFS.parseQueuePath p = (name, [ascii "tail"])

/-- The write passes the checks of its parameters. -/
def Accepted (body : WriteRequest) : Prop :=
  validatePath body.path = none ∧ validateWriteDataLen body.data.length = none

/-- A write to the tail appends a message. -/
lemma write_tail {fs : QueueFS} {p : PathBuf} {name : Bytes} {q : Queue}
    (hp : QueueFS.parseQueuePath p = (name, [ascii "tail"])) (hq : fs.queues.get? name = some q)
    (data : Bytes) (offset : Int64) (flags : WriteFlags) :
    (fs.write p data offset flags).2.queues.get? name = some (q.enqueue data).2 := by
  have hstored : fs.queues.contains name = true := AssocMap.contains_iff.2 ⟨q, hq⟩
  simp [QueueFS.write, hp, hstored, QueueFS.onQueue, hq, AssocMap.get?_modify]

/-- The messages that a queue has got between two states, by its counter. -/
def enqueued (q q' : Queue) : ℕ := (q'.nextId - q.nextId).toNat

/-- The handler of the requests of a write. -/
def writeRequest (body : WriteRequest) (_ : ℕ) (s : QueueServer ι) :
    Response Bytes × QueueServer ι :=
  s.writeFile body

variable {s : QueueServer ι} {body : WriteRequest} {i : ι} {name : Bytes} {q : Queue}
  {pattern : ℕ → Delivery} {delay latency : ℕ → ℕ} {c : CircuitState} {now : Instant}

omit [DecidableEq ι] in
lemma IsTail.congr (h : IsTail s body.path i name) {s' : QueueServer ι} (hvfs : s'.vfs = s.vfs) :
    IsTail s' body.path i name := by
  obtain ⟨p, hresolve, hp⟩ := h.routed
  exact ⟨p, by rw [hvfs, hresolve], hp⟩

/-- A write that passes the checks leaves the mounts as they are and appends its message. -/
lemma writeFile_tail (hbody : Accepted body) (htail : IsTail s body.path i name)
    (hq : (s.backend i).queues.get? name = some q) :
    (s.writeFile body).2.vfs = s.vfs ∧
      ((s.writeFile body).2.backend i).queues.get? name = some (q.enqueue body.data).2 := by
  obtain ⟨p, hresolve, hp⟩ := htail.routed
  simp only [QueueServer.writeFile, hbody.1, hbody.2, hresolve, Function.update_self, true_and]
  exact write_tail hp hq _ _ _

lemma writeFile_of_not_accepted (hbody : ¬ Accepted body) : (s.writeFile body).2 = s := by
  rw [QueueServer.writeFile]
  cases hpath : validatePath body.path with
  | some e => rfl
  | none =>
    cases hdata : validateWriteDataLen body.data.length with
    | some e => rfl
    | none => exact absurd ⟨hpath, hdata⟩ hbody

variable (pattern) in
/-- Every delivery of the write appends a message. -/
lemma serverAfter_tail (hbody : Accepted body) (htail : IsTail s body.path i name)
    (hq : (s.backend i).queues.get? name = some q) (n : ℕ) :
    (serverAfter (writeRequest body) pattern s n).vfs = s.vfs ∧
    ∃ q', ((serverAfter (writeRequest body) pattern s n).backend i).queues.get? name = some q' ∧
      q'.nextId = q.nextId + UInt64.ofNat (deliveries pattern n) := by
  induction n with
  | zero => exact ⟨rfl, q, hq, by simp [deliveries]⟩
  | succ n ih =>
    obtain ⟨hvfs, q', hq', hid⟩ := ih
    rw [serverAfter]
    by_cases hreach : (pattern n).reaches = true
    · obtain ⟨hvfs', hq''⟩ := writeFile_tail hbody (htail.congr hvfs) hq'
      rw [if_pos hreach]
      refine ⟨hvfs'.trans hvfs, _, hq'', ?_⟩
      show q'.nextId + 1 = _
      rw [hid, deliveries, deliveries, Nat.count_succ, if_pos hreach, UInt64.ofNat_add,
        UInt64.add_assoc]
      rfl
    · rw [if_neg hreach]
      refine ⟨hvfs, q', hq', ?_⟩
      rw [hid, deliveries, deliveries, Nat.count_succ, if_neg hreach, Nat.add_zero]

lemma serverAfter_of_not_accepted (hbody : ¬ Accepted body) (n : ℕ) :
    serverAfter (writeRequest body) pattern s n = s := by
  induction n with
  | zero => rfl
  | succ n ih =>
    rw [serverAfter, ih]
    split
    · exact writeFile_of_not_accepted hbody
    · rfl

/-- The counter of a queue shows how many of the at most four requests of a call were applied. -/
lemma enqueued_eq {q' : Queue} (h : q'.nextId = q.nextId + UInt64.ofNat (deliveries pattern
      (clientCall (writeRequest body) pattern s delay latency c now).requests)) :
    enqueued q q' = deliveries pattern
      (clientCall (writeRequest body) pattern s delay latency c now).requests := by
  have hlt : deliveries pattern
      (clientCall (writeRequest body) pattern s delay latency c now).requests < 2 ^ 64 :=
    calc deliveries pattern (clientCall (writeRequest body) pattern s delay latency c now).requests
        ≤ (clientCall (writeRequest body) pattern s delay latency c now).requests :=
          Nat.count_le _
      _ ≤ DEFAULT_MAX_RETRIES + 1 := requests_le ..
      _ < 2 ^ 64 := by decide
  rw [enqueued, h, UInt64.add_comm, UInt64.add_sub_cancel]
  exact UInt64.toNat_ofNat_of_lt' hlt

variable (pattern delay latency c now) in
/-- When a call of `write_file` puts at most one message on a queue. -/
lemma enqueued_le_one_iff (htail : IsTail s body.path i name)
    (hq : (s.backend i).queues.get? name = some q) :
    ∃ q', ((serverAfter (writeRequest body) pattern s (clientCall (writeRequest body) pattern s
        delay latency c now).requests).backend i).queues.get? name = some q' ∧
      (enqueued q q' ≤ 1 ↔
        ¬ (Accepted body ∧ (c.check now).isSome = true ∧ Resent pattern)) := by
  by_cases hbody : Accepted body
  · obtain ⟨-, q', hq', hid⟩ := serverAfter_tail pattern hbody htail hq
      (clientCall (writeRequest body) pattern s delay latency c now).requests
    refine ⟨q', hq', ?_⟩
    rw [enqueued_eq hid, ← not_lt]
    cases hcheck : c.check now with
    | none =>
      rw [clientCall_of_refused hcheck]
      simp [deliveries]
    | some c' => simp [one_lt_deliveries_iff hcheck, hbody]
  · refine ⟨q, by rw [serverAfter_of_not_accepted hbody, hq], ?_⟩
    simp [hbody, enqueued]

end Queues

/-- **What a call does when responses are lost.**  A `write_file` call on the tail of a queue puts
at most one message there, and a call that creates, removes or renames a file and was applied is
not reported as failed because of its own retry, exactly unless the call is let through by the
breaker, its request is accepted, and the network loses the response of an applied request and
delivers a later one (for the second part: answers a later one).  A rename to the same place never
fails so. -/
theorem effects_of_resending {ι : Type*} [DecidableEq ι] (pattern : ℕ → Delivery)
    (delay latency : ℕ → ℕ) (c : CircuitState) (now : Instant) :
    (∀ (s : QueueServer ι) (body : WriteRequest) (i : ι) (name : Bytes) (q : Queue),
      IsTail s body.path i name → (s.backend i).queues.get? name = some q →
      ∃ q', ((serverAfter (writeRequest body) pattern s (clientCall (writeRequest body) pattern s
          delay latency c now).requests).backend i).queues.get? name = some q' ∧
        (enqueued q q' ≤ 1 ↔
          ¬ (Accepted body ∧ (c.check now).isSome = true ∧ Resent pattern))) ∧
    ∀ (s : ServerState ι) (time : ℕ → DateTime),
      (∀ path, ¬ FailedByRetry (createRequest time path) pattern s
          (clientCall (createRequest time path) pattern s delay latency c now) ↔
        ¬ (isApplied (createRequest time path 0 s).1 = true ∧ (c.check now).isSome = true ∧
          AnsweredAfterLoss pattern)) ∧
      (∀ path, ¬ FailedByRetry (removeRequest time path) pattern s
          (clientCall (removeRequest time path) pattern s delay latency c now) ↔
        ¬ (isApplied (removeRequest time path 0 s).1 = true ∧ (c.check now).isSome = true ∧
          AnsweredAfterLoss pattern)) ∧
      ∀ oldPath newPath, ¬ FailedByRetry (renameRequest time oldPath newPath) pattern s
          (clientCall (renameRequest time oldPath newPath) pattern s delay latency c now) ↔
        ¬ (¬ SamePlace s oldPath newPath ∧
          isApplied (renameRequest time oldPath newPath 0 s).1 = true ∧
          (c.check now).isSome = true ∧ AnsweredAfterLoss pattern) := by
  refine ⟨fun s body i name q htail hq => enqueued_le_one_iff _ _ _ _ _ htail hq, fun s time => ?_⟩
  refine ⟨fun path => ?_, fun path => ?_, fun oldPath newPath => ?_⟩
  · rw [failedByRetry_create_iff]
  · rw [failedByRetry_remove_iff]
  · rw [failedByRetry_rename_iff]

/-- A queue `jobs`, mounted at `/q`. -/
def jobs : QueueServer Unit where
  vfs := (MountableFS.new.mount ⟨ascii "/q"⟩ ()).2
  backend _ := (QueueFS.new.mkdir ⟨ascii "/jobs"⟩ 0o755).2

/-- A write to its tail. -/
def newJob : WriteRequest := ⟨ascii "/q/jobs/tail", ascii "x", none⟩

/-- An empty filesystem, mounted at `/m`. -/
def emptyServer : ServerState Unit where
  app := ⟨(MountableFS.new.mount ⟨ascii "/m"⟩ ()).2, fun _ => MemFS.new 0⟩
  statCache := ⟨∅, 0⟩
  clock := 0

/-- The first response is lost. -/
def lostOnce (a : ℕ) : Delivery := if a = 0 then .responseLost else .answered

lemma isTail_jobs : IsTail jobs newJob.path () (ascii "jobs") :=
  ⟨⟨ascii "/jobs/tail"⟩, rfl, by decide +kernel⟩

/-- Over a network that loses nothing one message is enqueued. -/
theorem effects_of_resending_jobs :
    ∃ q', ((serverAfter (writeRequest newJob) (fun _ => .answered) jobs
        (clientCall (writeRequest newJob) (fun _ => .answered) jobs (fun _ => 0) (fun _ => 0) .new
          0).requests).backend ()).queues.get? (ascii "jobs") = some q' ∧
      enqueued Queue.new q' ≤ 1 := by
  obtain ⟨q', hq', hone⟩ := (@effects_of_resending Unit _ (fun _ => .answered) (fun _ => 0)
    (fun _ => 0) .new 0).1 jobs newJob () (ascii "jobs") Queue.new isTail_jobs rfl
  refine ⟨q', hq', hone.2 ?_⟩
  rintro ⟨-, -, a, b, -, -, hlost, -⟩
  cases hlost

lemma resent_lostOnce : Resent lostOnce :=
  ⟨0, 1, by decide, ⟨by decide, by decide⟩, rfl, rfl⟩

lemma answeredAfterLoss_lostOnce : AnsweredAfterLoss lostOnce :=
  ⟨0, 1, by decide, ⟨by decide, by decide⟩, rfl, rfl⟩

/-- When the first response is lost and the second request is answered, two messages are enqueued
by one call, and a file that was created is reported to exist already. -/
theorem resent_write_and_create :
    (∃ q', ((serverAfter (writeRequest newJob) lostOnce jobs
        (clientCall (writeRequest newJob) lostOnce jobs (fun _ => 0) (fun _ => 0) .new
          0).requests).backend ()).queues.get? (ascii "jobs") = some q' ∧
      ¬ enqueued Queue.new q' ≤ 1) ∧
    FailedByRetry (createRequest (fun _ => 0) (ascii "/m/a")) lostOnce emptyServer
      (clientCall (createRequest (fun _ => 0) (ascii "/m/a")) lostOnce emptyServer (fun _ => 0)
        (fun _ => 0) .new 0) := by
  constructor
  · obtain ⟨q', hq', hone⟩ := enqueued_le_one_iff lostOnce (fun _ => 0) (fun _ => 0) .new 0
      isTail_jobs (q := Queue.new) rfl
    refine ⟨q', hq', fun hle => hone.1 hle ⟨?_, rfl, resent_lostOnce⟩⟩
    exact ⟨by decide +kernel, by decide +kernel⟩
  · rw [failedByRetry_create_iff]
    exact ⟨rfl, rfl, answeredAfterLoss_lostOnce⟩

end Racfs.Client
