/-
# The two tables of the key-value filesystem in memory

The contents and the metadata are edited separately, but they should describe one set of
files: a path has a content exactly when its metadata is that of a regular file, and then the
metadata has the path and the length of the content (`InStep`).  Also a path that an
operation reports as removed should be in neither table.

Three operations can break this.  `remove` leaves the metadata of a file behind, `removeAll`
leaves directories behind, and `rename` moves the metadata with the old path in it.
`inStep_iff` says that nothing else can: the tables are in step in all states of a run
exactly when every step of the run is taken where the operation does no harm.
-/
import Racfs.KvFs.Model
import Racfs.Lib.Run

namespace Racfs.KvFs

namespace KvMemory

/-- The content and the metadata of a path fit together. -/
def Fit (path : PathBuf) : Option Bytes → Option FileMetadata → Prop
  | none, none => True
  | none, some m => m.isFile = false
  | some _, none => False
  | some data, some m =>
    m.isFile = true ∧ (m.path == path) = true ∧ m.size = data.length.toUInt64

/-- The two tables describe the same files. -/
def InStep (fs : KvMemory) : Prop := ∀ p, Fit p (fs.store.get? p) (fs.metadata.get? p)

/-- A path is at or below another one. -/
def under (path p : PathBuf) : Bool := p.startsWith path || p == path

/-- The paths that a call reports as removed. -/
def reported : KvOp PathBuf → Outcome Reply → PathBuf → Bool
  | .remove path, .ok _, p => p == path
  | .removeAll path, .ok _, p => under path p
  | _, _, _ => false

/-- A filesystem, with the last call and its result. -/
structure Logged where
  fs : KvMemory
  last : Option (KvOp PathBuf × Outcome Reply)

/-- One call, at a time. -/
def logStep (s : Logged) (c : KvOp PathBuf × DateTime) : Option Logged :=
  some ⟨(s.fs.exec c.2 c.1).2, some (c.1, (s.fs.exec c.2 c.1).1)⟩

/-- What the last call reports as removed is in neither table. -/
def Gone (s : Logged) : Prop :=
  ∀ op r p, s.last = some (op, r) → reported op r p = true →
    s.fs.store.get? p = none ∧ s.fs.metadata.get? p = none

/-- The tables are in step, and what was removed is gone. -/
def Orderly (s : Logged) : Prop := InStep s.fs ∧ Gone s

/-- The calls that do no harm: `remove` for anything but a file, `removeAll` where there are only
files, and a `rename` that has nothing to move or whose target is a file. -/
def Harmless (s : Logged) (c : KvOp PathBuf × DateTime) : Prop :=
  match c.1 with
  | .remove path => s.fs.store.contains path = false
  | .removeAll path =>
    ∀ p m, s.fs.metadata.get? p = some m → under path p = true → m.isFile = true
  | .rename oldPath newPath =>
    s.fs.store.contains oldPath = true → s.fs.store.contains newPath = true
  | _ => True

variable {fs : KvMemory}

/-! ### What fits together -/

lemma isFile_file (path : PathBuf) (size : UInt64) (now : DateTime) :
    (FileMetadata.file path size now).isFile = true := by
  change (FileMetadata.fileMode &&& S_IFMT == S_IFREG) = true
  decide

lemma isFile_directory (path : PathBuf) (now : DateTime) :
    (FileMetadata.directory path now).isFile = false := by
  change (FileMetadata.dirMode &&& S_IFMT == S_IFREG) = false
  decide

lemma isFile_setPermissions (m : FileMetadata) (mode : UInt32) :
    (m.setPermissions mode).isFile = m.isFile := by
  rw [FileMetadata.isFile, FileMetadata.type_setPermissions, FileMetadata.isFile]

lemma fit_none_iff {path : PathBuf} {m? : Option FileMetadata} :
    Fit path none m? ↔ ∀ m, m? = some m → m.isFile = false := by
  cases m? <;> simp [Fit]

lemma exists_of_fit {path : PathBuf} {data : Bytes} {m? : Option FileMetadata}
    (h : Fit path (some data) m?) :
    ∃ m, m? = some m ∧ m.isFile = true ∧ (m.path == path) = true ∧
      m.size = data.length.toUInt64 := by
  cases m? with
  | none => exact absurd h (by simp [Fit])
  | some m => exact ⟨m, rfl, h⟩

/-- A path has a content exactly when it has the metadata of a regular file. -/
lemma InStep.contains_iff (h : InStep fs) (p : PathBuf) :
    fs.store.contains p = true ↔ ∃ m, fs.metadata.get? p = some m ∧ m.isFile = true := by
  have hp := h p
  rw [AssocMap.contains_iff]
  cases hdata : fs.store.get? p with
  | none =>
    rw [hdata, fit_none_iff] at hp
    simpa using hp
  | some data =>
    rw [hdata] at hp
    obtain ⟨m, hm, hfile, -⟩ := exists_of_fit hp
    simp [hm, hfile]

/-- New entries for a path that fit together keep the tables in step. -/
lemma InStep.set (h : InStep fs) (path : PathBuf) {fs' : KvMemory} (d? : Option Bytes)
    (m? : Option FileMetadata) (hfit : ∀ p, (path == p) = true → Fit p d? m?)
    (hstore : ∀ p, fs'.store.get? p = if path == p then d? else fs.store.get? p)
    (hmeta : ∀ p, fs'.metadata.get? p = if path == p then m? else fs.metadata.get? p) :
    InStep fs' := by
  intro p
  rw [hstore, hmeta]
  by_cases hp : (path == p) = true
  · rw [if_pos hp, if_pos hp]
    exact hfit p hp
  · rw [if_neg hp, if_neg hp]
    exact h p

/-! ### The operations that do no harm -/

lemma inStep_withData (data : AssocMap PathBuf Bytes) (now : DateTime) :
    InStep (withData data now) := by
  intro p
  simp only [withData]
  rcases data.get?_mapWithKey_cases (fun path d => FileMetadata.file path d.length.toUInt64 now) p
    with ⟨hnone, hmeta⟩ | ⟨a, d, ha, hd, hmeta⟩
  · rw [hnone, hmeta]
    trivial
  · rw [hd, hmeta]
    exact ⟨isFile_file a _ now, ha, rfl⟩

lemma inStep_create (h : InStep fs) (path : PathBuf) (now : DateTime) :
    InStep (fs.create path now).2 := by
  unfold create
  split_ifs with hc
  · exact h
  · refine h.set path (some []) (some (.file path 0 now)) ?_
      (fun p => fs.store.get?_insert path p []) (fun p => fs.metadata.get?_insert path p _)
    exact fun p hp => ⟨isFile_file path 0 now, hp, rfl⟩

lemma inStep_mkdir (h : InStep fs) (path : PathBuf) (now : DateTime) :
    InStep (fs.mkdir path now).2 := by
  unfold mkdir
  split_ifs with hc
  · exact h
  · -- without metadata there is no content either
    rw [Bool.not_eq_true, AssocMap.contains_eq_false_iff] at hc
    have hnone : fs.store.get? path = none := by
      have hpath := h path
      rw [hc] at hpath
      cases hdata : fs.store.get? path with
      | none => rfl
      | some data => rw [hdata] at hpath; exact absurd hpath (by simp [Fit])
    refine h.set path none (some (.directory path now))
      (fun p _ => isFile_directory path now) (fun p => ?_)
      (fun p => fs.metadata.get?_insert path p _)
    split_ifs with hp
    · exact (AssocMap.get?_congr _ hp).symm.trans hnone
    · rfl

lemma inStep_write (h : InStep fs) (path : PathBuf) (data : Bytes) (offset : Int64)
    (flags : WriteFlags) : InStep (fs.write path data offset flags).2 := by
  cases hdata : fs.store.get? path with
  | none =>
    rw [write_of_none hdata]
    exact h
  | some entry =>
    rw [write_of_some hdata]
    cases hnew : writeData entry data offset flags with
    | err e => exact h
    | panic => exact h
    | ok new =>
      have hpath := h path
      rw [hdata] at hpath
      obtain ⟨m, hm, hfile, hself, -⟩ := exists_of_fit hpath
      refine h.set path (some new) (some { m with size := new.length.toUInt64 })
        (fun p hp => ?_) (fun p => ?_)
        (fun p => ?_)
      · exact ⟨hfile, BEq.trans hself hp, rfl⟩
      · rw [AssocMap.get?_modify]
        split_ifs with hp
        · rw [← AssocMap.get?_congr _ hp, hdata]
          rfl
        · rfl
      · rw [AssocMap.get?_modify]
        split_ifs with hp
        · rw [← AssocMap.get?_congr _ hp, hm]
          rfl
        · rfl

lemma inStep_chmod (h : InStep fs) (path : PathBuf) (mode : UInt32) :
    InStep (fs.chmod path mode).2 := by
  unfold chmod
  split_ifs with hc
  · intro p
    have hp := h p
    simp only [AssocMap.get?_modify]
    split_ifs with hpath
    · cases hdata : fs.store.get? p with
      | none =>
        rw [hdata, fit_none_iff] at hp
        rw [fit_none_iff]
        intro m' hm'
        obtain ⟨m, hm, rfl⟩ := Option.map_eq_some_iff.1 hm'
        rw [isFile_setPermissions]
        exact hp m hm
      | some data =>
        rw [hdata] at hp
        obtain ⟨m, hm, hfile, hself⟩ := exists_of_fit hp
        rw [hm]
        exact ⟨(isFile_setPermissions m mode).trans hfile, hself⟩
    · exact hp
  · exact h

/-! ### Removing -/

lemma under_congr {path p q : PathBuf} (h : (p == q) = true) : under path p = under path q := by
  rw [under, under, PathBuf.startsWith, PathBuf.startsWith, PathBuf.beq_iff.1 h,
    BEq.congr_left h]

/-- The keys that `removeAll` collects. -/
lemma any_keys_under (m : AssocMap PathBuf Bytes) (path p : PathBuf) :
    (m.keys.filter fun a => a.startsWith path || a == path).any (fun a => a == p) =
      (m.contains p && under path p) :=
  m.any_keys_filter (f := under path) fun _ ha => under_congr ha

lemma get?_store_removeAll (fs : KvMemory) (path p : PathBuf) :
    (fs.removeAll path).2.store.get? p =
      if fs.store.contains p && under path p then none else fs.store.get? p := by
  simp only [removeAll]
  rw [AssocMap.get?_foldl_erase, any_keys_under]

lemma get?_metadata_removeAll (fs : KvMemory) (path p : PathBuf) :
    (fs.removeAll path).2.metadata.get? p =
      if fs.store.contains p && under path p then none else fs.metadata.get? p := by
  simp only [removeAll]
  rw [AssocMap.get?_foldl_erase, any_keys_under]

lemma gone_of_not_reported {fs : KvMemory} {op : KvOp PathBuf} {r : Outcome Reply}
    (h : ∀ p, reported op r p = false) : Gone ⟨fs, some (op, r)⟩ := by
  rintro op' r' p hlast hp
  obtain ⟨rfl, rfl⟩ := Prod.mk.inj (Option.some.inj hlast)
  rw [h p] at hp
  cases hp

lemma gone_iff {fs : KvMemory} {op : KvOp PathBuf} {r : Outcome Reply} :
    Gone ⟨fs, some (op, r)⟩ ↔ ∀ p, reported op r p = true →
      fs.store.get? p = none ∧ fs.metadata.get? p = none := by
  constructor
  · exact fun h p hp => h op r p rfl hp
  · rintro h op' r' p hlast hp
    obtain ⟨rfl, rfl⟩ := Prod.mk.inj (Option.some.inj hlast)
    exact h p hp

lemma orderly_remove_iff (h : InStep fs) (path : PathBuf) :
    Orderly ⟨(fs.remove path).2, some (.remove path, (fs.remove path).1)⟩ ↔
      fs.store.contains path = false := by
  cases hc : fs.store.contains path with
  | true =>
    -- the content goes, the metadata stays
    rw [remove_of_file hc]
    refine iff_of_false (fun hord => ?_) (by simp)
    obtain ⟨m, hm, -⟩ := (h.contains_iff path).1 hc
    have hgone := (gone_iff.1 hord.2 path BEq.rfl).2
    simp [hm] at hgone
  | false =>
    refine iff_of_true ?_ rfl
    rw [remove_of_not_file hc]
    rw [AssocMap.contains_eq_false_iff] at hc
    split_ifs with hmeta
    · refine ⟨h.set path none none (fun p _ => trivial) (fun p => ?_)
        (fun p => fs.metadata.get?_erase path p), gone_iff.2 fun p hp => ?_⟩
      · split_ifs with hp
        · exact (AssocMap.get?_congr _ hp).symm.trans hc
        · rfl
      · have hp' : (path == p) = true := BEq.symm hp
        exact ⟨(AssocMap.get?_congr _ hp').symm.trans hc, by
          rw [AssocMap.get?_erase, if_pos hp']⟩
    · exact ⟨h, gone_of_not_reported fun _ => rfl⟩

lemma orderly_removeAll_iff (h : InStep fs) (path : PathBuf) :
    Orderly ⟨(fs.removeAll path).2, some (.removeAll path, (fs.removeAll path).1)⟩ ↔
      ∀ p m, fs.metadata.get? p = some m → under path p = true → m.isFile = true := by
  constructor
  · intro hord p m hm hp
    by_contra hfile
    -- what is not a file has no content, so its metadata stays
    have hdata : fs.store.contains p = false := by
      rw [← Bool.not_eq_true, h.contains_iff]
      rintro ⟨m', hm', hfile'⟩
      rw [hm, Option.some.injEq] at hm'
      exact hfile (hm' ▸ hfile')
    have hgone := (gone_iff.1 hord.2 p hp).2
    rw [get?_metadata_removeAll, hdata, Bool.false_and, if_neg Bool.false_ne_true, hm] at hgone
    cases hgone
  · intro hfiles
    refine ⟨fun p => ?_, gone_iff.2 fun p hp => ?_⟩
    · rw [get?_store_removeAll, get?_metadata_removeAll]
      split_ifs
      · trivial
      · exact h p
    · replace hp : under path p = true := hp
      rw [get?_store_removeAll, get?_metadata_removeAll, hp, Bool.and_true]
      split_ifs with hc
      · exact ⟨rfl, rfl⟩
      · refine ⟨AssocMap.contains_eq_false_iff.1 (Bool.not_eq_true _ ▸ hc), ?_⟩
        rw [h.contains_iff] at hc
        push Not at hc
        cases hm : fs.metadata.get? p with
        | none => rfl
        | some m => exact absurd (hfiles p m hm hp) (hc m hm)

/-! ### Renaming -/

/-- A file that is taken out and put back under its own path leaves the tables in step. -/
lemma InStep.putBack (h : InStep fs) {oldPath path : PathBuf} (hpath : (oldPath == path) = true)
    {data : Bytes} {m : FileMetadata}
    (hfit : ∀ p, (path == p) = true → Fit p (some data) (some m)) :
    InStep ⟨(fs.store.erase oldPath).insert path data, (fs.metadata.erase oldPath).insert path m⟩ :=
  h.set path (some data) (some m) hfit (fs.store.get?_insert_erase hpath data)
    (fs.metadata.get?_insert_erase hpath m)

lemma orderly_rename_iff (h : InStep fs) (oldPath newPath : PathBuf) :
    Orderly ⟨(fs.rename oldPath newPath).2,
        some (.rename oldPath newPath, (fs.rename oldPath newPath).1)⟩ ↔
      (fs.store.contains oldPath = true → fs.store.contains newPath = true) := by
  have hord : ∀ fs' r, Orderly ⟨fs', some (.rename oldPath newPath, r)⟩ ↔ InStep fs' :=
    fun fs' r => and_iff_left (gone_of_not_reported fun _ => rfl)
  rw [hord]
  cases hdata : fs.store.get? oldPath with
  | none =>
    rw [rename_of_none hdata]
    refine iff_of_true h fun hc => ?_
    rw [AssocMap.contains, hdata] at hc
    cases hc
  | some data =>
    have hcontains : fs.store.contains oldPath = true := AssocMap.contains_iff.2 ⟨data, hdata⟩
    have hold := h oldPath
    rw [hdata] at hold
    obtain ⟨m, hm, hfile, hself, hsize⟩ := exists_of_fit hold
    have hfit : ∀ p, (oldPath == p) = true → Fit p (some data) (some m) :=
      fun p hp => ⟨hfile, BEq.trans hself hp, hsize⟩
    rw [rename_of_some hdata hm, AssocMap.contains, AssocMap.get?_erase]
    by_cases hsame : (oldPath == newPath) = true
    · -- the file is its own target, and is put back
      rw [if_pos hsame, if_neg (by simp)]
      have hnew : fs.store.contains newPath = true := by
        rwa [AssocMap.contains, ← AssocMap.get?_congr _ hsame]
      exact iff_of_true (h.putBack hsame fun p hp => hfit p (BEq.trans hsame hp)) fun _ => hnew
    · rw [if_neg hsame]
      by_cases hnew : (fs.store.get? newPath).isSome = true
      · rw [if_pos hnew]
        exact iff_of_true (h.putBack BEq.rfl hfit) fun _ => hnew
      · -- the metadata moves with the old path in it
        rw [if_neg hnew]
        refine iff_of_false (fun hstep => ?_) fun hc => hnew (hc hcontains)
        have hmoved := hstep newPath
        rw [AssocMap.get?_insert_self, AssocMap.get?_insert_self] at hmoved
        exact hsame (BEq.trans (BEq.symm hself) hmoved.2.1)

/-! ### Runs -/

/-- What one call needs to keep the tables in order. -/
lemma orderly_step_iff {s s' : Logged} {c : KvOp PathBuf × DateTime} (h : Orderly s)
    (hstep : logStep s c = some s') : Orderly s' ↔ Harmless s c := by
  obtain ⟨op, now⟩ := c
  obtain rfl := Option.some.inj hstep
  have hquiet : ∀ fs' r, InStep fs' → (∀ p, reported op r p = false) →
      Orderly ⟨fs', some (op, r)⟩ := fun fs' r hin hr => ⟨hin, gone_of_not_reported hr⟩
  cases op with
  | remove path => exact orderly_remove_iff h.1 path
  | removeAll path => exact orderly_removeAll_iff h.1 path
  | rename oldPath newPath => exact orderly_rename_iff h.1 oldPath newPath
  | create path =>
    exact iff_of_true (hquiet _ _ (inStep_create h.1 path now) fun _ => rfl) trivial
  | mkdir path perm =>
    exact iff_of_true (hquiet _ _ (inStep_mkdir h.1 path now) fun _ => rfl) trivial
  | write path data offset flags =>
    exact iff_of_true (hquiet _ _ (inStep_write h.1 path data offset flags) fun _ => rfl) trivial
  | chmod path mode =>
    exact iff_of_true (hquiet _ _ (inStep_chmod h.1 path mode) fun _ => rfl) trivial
  | read path offset size => exact iff_of_true (hquiet _ _ h.1 fun _ => rfl) trivial
  | stat path => exact iff_of_true (hquiet _ _ h.1 fun _ => rfl) trivial
  | readDir path => exact iff_of_true (hquiet _ _ h.1 fun _ => rfl) trivial

/-- A new filesystem, with or without files. -/
def start (data : AssocMap PathBuf Bytes) (now : DateTime) : Logged := ⟨withData data now, none⟩

lemma orderly_start (data : AssocMap PathBuf Bytes) (now : DateTime) :
    Orderly (start data now) :=
  ⟨inStep_withData data now, fun _ _ _ hlast => by cases hlast⟩

/-- The tables stay in step, and what is removed is gone, exactly in the runs of calls that do
no harm. -/
theorem inStep_iff (data : AssocMap PathBuf Bytes) (now : DateTime)
    (cs : List (KvOp PathBuf × DateTime)) :
    StatesMeet logStep Orderly (start data now) cs ↔
      StepsMeet logStep Harmless (start data now) cs :=
  statesMeet_iff_stepsMeet (A := fun _ => True) (fun _ _ _ _ _ => trivial)
    (fun _ _ _ _ hs hstep => orderly_step_iff hs hstep) trivial (orderly_start data now)

/-- A file that is created and removed still has its metadata, of a regular file without a
content. -/
theorem not_inStep_removed : ¬ StatesMeet logStep Orderly (start ∅ 0)
    [(.create ⟨ascii "/f"⟩, 1), (.remove ⟨ascii "/f"⟩, 2)] := by
  rintro ⟨-, h⟩
  obtain ⟨-, h⟩ := h _ rfl
  have hgone := (h _ rfl).2 _ _ ⟨ascii "/f"⟩ rfl (by decide)
  have hmeta := hgone.2
  revert hmeta
  decide

end KvMemory

end Racfs.KvFs
