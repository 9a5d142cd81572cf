/-
# The listing of the archive

A file of the archive has a number in the map, a path in its metadata, and a name in the listing.
The name is made from the number, and a request for it leads back to the number
(`getEntry_archivePath`), so every listed file can be read.  But a rotation gives every file the
path of the first one, and `stat` returns it.  So a listing agrees with `stat` only while there is
no other file in the archive than the first one (`usable_iff_one`), and in all states of a run
exactly when nothing is rotated after the first rotation, or nothing is kept (`usable_iff`).

The sections of the calls under the lock are the steps here, so that the runs have all
interleavings of calls: `write` lets go of the lock before it rotates.
-/
import Racfs.StreamRotateFs.Sizes

namespace Racfs.StreamRotateFs

/-- A section of a call that changes the log. -/
inductive LogSection
  | append (data : Bytes) (now : DateTime)
  | rotate (now : DateTime)
  | truncate (path : PathBuf) (size : UInt64) (now : DateTime)
  | touch (path : PathBuf) (now : DateTime)
  | remove (path : PathBuf)
  | removeAll (path : PathBuf)

namespace StreamRotateFS

/-- One section. -/
def sectionStep (fs : StreamRotateFS) : LogSection → Option StreamRotateFS
  | .append data now => some (fs.append data now)
  | .rotate now => some (fs.rotate now)
  | .truncate path size now => some (fs.truncate path size now).2
  | .touch path now => some (fs.touch path now).2
  | .remove path => some (fs.remove path).2
  | .removeAll path => some (fs.removeAll path).2

variable {fs : StreamRotateFS}

/-- Every call is made of sections. -/
theorem exists_sections (fs : StreamRotateFS) (now : DateTime) (op : RotateOp) :
    ∃ secs, run sectionStep fs secs = some (fs.exec now op) := by
  cases op with
  | write path data offset flags =>
    rcases write_cases fs ⟨path, data, offset, flags, now⟩ with ⟨-, heq⟩ | ⟨-, heq | heq⟩
    · rw [exec, heq, checkRotate]
      split_ifs
      · exact ⟨[.append data now, .rotate now], rfl⟩
      · exact ⟨[.append data now], rfl⟩
    · rw [exec, heq]
      exact ⟨[.rotate now], rfl⟩
    · rw [exec, heq]
      exact ⟨[], rfl⟩
  | truncate path size => exact ⟨[.truncate path size now], rfl⟩
  | touch path => exact ⟨[.touch path now], rfl⟩
  | remove path => exact ⟨[.remove path], rfl⟩
  | removeAll path => exact ⟨[.removeAll path], rfl⟩

/-! ### The files of the archive -/

/-- The path under which a file of the archive is listed. -/
def archivePath (seq : ℕ) : PathBuf := ⟨archiveDir ++ zeroPadded 3 seq ++ ascii ".log"⟩

/-- The listing of the archive has one entry for each file, with different paths; `stat` returns the
entry for its path, and a read returns the data of the file, which are as long as it says. -/
def Usable (fs : StreamRotateFS) : Prop :=
  ∀ now now', ∃ entries, fs.readDir ⟨ascii "/archive"⟩ now = .ok entries ∧
    (entries.map FileMetadata.path).Nodup ∧
    List.Forall₂ (fun file e => fs.stat e.path now' = .ok e ∧
        fs.read e.path 0 (-1) now' = .ok file.2.data ∧
        e.size = file.2.data.length.toUInt64)
      fs.state.archive.toList entries

lemma archivePath_injective : Function.Injective archivePath := by
  intro m n h
  have hbytes : archiveDir ++ zeroPadded 3 m ++ ascii ".log" =
      archiveDir ++ zeroPadded 3 n ++ ascii ".log" := congrArg PathBuf.bytes h
  exact zeroPadded_injective 3 (List.append_cancel_left (List.append_cancel_right hbytes))

lemma toStringLossy_archivePath (seq : ℕ) :
    (archivePath seq).toStringLossy = (archivePath seq).bytes := by
  have hdir : IsAscii archiveDir := by decide
  have hlog : IsAscii (ascii ".log") := by decide
  refine fromUtf8Lossy_of_isAscii fun b hb => ?_
  rcases List.mem_append.1 hb with hb | hb
  · rcases List.mem_append.1 hb with hb | hb
    · exact hdir b hb
    · exact isAscii_zeroPadded 3 seq b hb
  · exact hlog b hb

lemma normalizePath_archivePath (seq : ℕ) : normalizePath (archivePath seq) = archivePath seq := by
  rw [normalizePath, toStringLossy_archivePath]
  rfl

/-- The name of a file leads back to its number. -/
lemma archiveSeq_archivePath {seq : ℕ} (h : seq < 2 ^ 64) :
    archiveSeq (archivePath seq).bytes = some seq := by
  have hbytes : (archivePath seq).bytes = archiveDir ++ (zeroPadded 3 seq ++ ascii ".log") :=
    List.append_assoc ..
  have hnat : seq.toUInt64.toNat = seq := UInt64.toNat_ofNat_of_lt' h
  have hparse := parseU64_zeroPadded 3 seq.toUInt64
  rw [hnat] at hparse
  rw [archiveSeq, hbytes, List.dropPrefix?_append_of_beq _ BEq.rfl, Option.getD_some,
    List.dropSuffix?_eq_some_iff.2 ⟨ascii ".log", rfl, BEq.rfl⟩, Option.getD_some, hparse,
    Option.map_some, hnat]

lemma archiveDir_prefix (seq : ℕ) : archiveDir <+: (archivePath seq).bytes :=
  ⟨zeroPadded 3 seq ++ ascii ".log", (List.append_assoc ..).symm⟩

/-- What there is under a name in the listing. -/
lemma getEntry_archivePath (fs : StreamRotateFS) (seq : ℕ) (now : DateTime) :
    fs.getEntry (archivePath seq) now =
      ((archiveSeq (archivePath seq).bytes).bind fun n => fs.state.archive[n]?).elim
        (.err (.NotFound (archivePath seq))) .ok := by
  have hpre := archiveDir_prefix seq
  have hother {text : Bytes} (hnot : ¬ archiveDir <+: text) : (archivePath seq).bytes ≠ text := by
    rintro rfl
    exact hnot hpre
  have hvalid : validatePath (archivePath seq) = .ok () := by
    simp only [validatePath, normalizePath_archivePath, toStringLossy_archivePath, hpre, or_true,
      if_true]
  simp only [getEntry, normalizePath_archivePath, toStringLossy_archivePath, hvalid,
    Outcome.ok_bind]
  rw [if_neg (hother (by decide)), if_neg (hother (by decide)), if_neg (hother (by decide)),
    if_neg (hother (by decide)), if_neg (hother (by decide)), if_pos hpre]
  cases (archiveSeq (archivePath seq).bytes).bind fun n => fs.state.archive[n]? <;> rfl

/-- A file of the archive is found under its name. -/
lemma getEntry_of_get? {seq : ℕ} {e : FileEntry} (h : seq < 2 ^ 64)
    (he : fs.state.archive[seq]? = some e) (now : DateTime) :
    fs.getEntry (archivePath seq) now = .ok e := by
  rw [getEntry_archivePath, archiveSeq_archivePath h, Option.bind_some, he, Option.elim_some]

/-- What is found under such a name is a file of the archive. -/
lemma exists_of_getEntry {seq : ℕ} {now : DateTime} {e : FileEntry}
    (h : fs.getEntry (archivePath seq) now = .ok e) :
    ∃ n : ℕ, fs.state.archive[n]? = some e := by
  rw [getEntry_archivePath] at h
  cases hfound : (archiveSeq (archivePath seq).bytes).bind fun n => fs.state.archive[n]? with
  | none => rw [hfound] at h; cases h
  | some e' =>
    rw [hfound] at h
    obtain rfl := Outcome.ok.inj h
    obtain ⟨n, -, hn⟩ := Option.bind_eq_some_iff.1 hfound
    exact ⟨n, hn⟩

/-! ### When the listing is usable -/

/-- What holds of the archive in all states: a rotation makes the path of every file that of the
first one, and the numbers are counted from one. -/
structure Filed (fs : StreamRotateFS) : Prop where
  file : ∀ (seq : ℕ) (e : FileEntry), fs.state.archive[seq]? = some e →
    ∃ now, e.metadata = .file (archivePath 1) e.data.length.toUInt64 now
  numbers : ∀ seq ∈ fs.state.archive, 1 ≤ seq ∧ seq < fs.state.nextSeq
  next : 1 ≤ fs.state.nextSeq

/-- The listing of the archive. -/
lemma readDir_archive (fs : StreamRotateFS) (now : DateTime) :
    fs.readDir ⟨ascii "/archive"⟩ now =
      .ok (fs.state.archive.toList.map fun e => { e.2.metadata with path := archivePath e.1 }) :=
  rfl

lemma mem_toList {seq : ℕ} {e : FileEntry} :
    (seq, e) ∈ fs.state.archive.toList ↔ fs.state.archive[seq]? = some e :=
  Std.TreeMap.mem_toList_iff_getElem?_eq_some

lemma mem_archive {seq : ℕ} : seq ∈ fs.state.archive ↔ ∃ e, fs.state.archive[seq]? = some e := by
  rw [Std.TreeMap.mem_iff_isSome_getElem?, Option.isSome_iff_exists]

/-- The paths in the listing are different. -/
lemma nodup_paths (fs : StreamRotateFS) :
    ((fs.state.archive.toList.map fun e =>
      { e.2.metadata with path := archivePath e.1 }).map FileMetadata.path).Nodup := by
  have hpaths : ((fs.state.archive.toList.map fun e =>
      { e.2.metadata with path := archivePath e.1 }).map FileMetadata.path) =
        fs.state.archive.keys.map archivePath := by
    rw [← Std.TreeMap.map_fst_toList_eq_keys, List.map_map, List.map_map]
    rfl
  rw [hpaths]
  exact Std.TreeMap.nodup_keys.map archivePath_injective

/-- A listed file is read under its name, and is as long as the listing says. -/
lemma Filed.read (h : fs.Filed) {seq : ℕ} {e : FileEntry} (hlt : seq < 2 ^ 64)
    (he : fs.state.archive[seq]? = some e) (now : DateTime) :
    fs.read (archivePath seq) 0 (-1) now = .ok e.data ∧
      e.metadata.size = e.data.length.toUInt64 := by
  obtain ⟨t, hmeta⟩ := h.file seq e he
  have hfile : e.isFile = true := by
    rw [FileEntry.isFile, hmeta]
    show (FileMetadata.fileMode &&& S_IFMT == S_IFREG) = true
    decide
  rw [StreamRotateFS.read, getEntry_of_get? hlt he, Outcome.ok_bind, hfile, Bool.not_true,
    if_neg Bool.false_ne_true, MemFs.MemFS.readData_whole, hmeta]
  exact ⟨rfl, rfl⟩

/-- In such a state, the listing is usable exactly when there is no other file than the first
one. -/
theorem usable_iff_one (h : fs.Filed) :
    fs.Usable ↔ ∀ seq ∈ fs.state.archive, seq = 1 := by
  constructor
  · intro husable seq hseq
    obtain ⟨e, he⟩ := mem_archive.1 hseq
    obtain ⟨entries, hlist, -, hall⟩ := husable 0 0
    rw [readDir_archive] at hlist
    rw [← Outcome.ok.inj hlist, List.forall₂_map_right_iff, List.forall₂_same] at hall
    obtain ⟨hstat, -, -⟩ := hall (seq, e) (mem_toList.2 he)
    rw [stat] at hstat
    cases hentry : fs.getEntry (archivePath seq) 0 with
    | err x => rw [hentry] at hstat; cases hstat
    | panic => rw [hentry] at hstat; cases hstat
    | ok e' =>
      -- whichever file this is, its path is that of the first one
      obtain ⟨n, hn⟩ := exists_of_getEntry hentry
      obtain ⟨t, hmeta⟩ := h.file n e' hn
      rw [hentry, Outcome.map, Outcome.ok_bind, hmeta] at hstat
      have hpath := congrArg FileMetadata.path (Outcome.ok.inj hstat)
      exact (archivePath_injective hpath).symm
  · intro hone now now'
    refine ⟨_, readDir_archive fs now, nodup_paths fs, ?_⟩
    rw [List.forall₂_map_right_iff, List.forall₂_same]
    rintro ⟨seq, e⟩ hmem
    have he := mem_toList.1 hmem
    obtain rfl := hone seq (mem_archive.2 ⟨e, he⟩)
    obtain ⟨hread, hsize⟩ := h.read (by decide) he now'
    refine ⟨?_, hread, hsize⟩
    obtain ⟨t, hmeta⟩ := h.file 1 e he
    rw [stat, getEntry_of_get? (by decide) he, Outcome.map, Outcome.ok_bind, hmeta]
    rfl

/-! ### The sections -/

lemma filed_withConfig (config : RotateConfig) (now : DateTime) :
    (withConfig config now).Filed where
  file seq e he := by simp [withConfig] at he
  numbers seq hseq := by simp [withConfig] at hseq
  next := le_rfl

/-- No file has come into the archive. -/
structure NoneFiled (fs fs' : StreamRotateFS) : Prop where
  old : ∀ (seq : ℕ) (e : FileEntry), fs'.state.archive[seq]? = some e →
    fs.state.archive[seq]? = some e
  next : fs'.state.nextSeq = fs.state.nextSeq

lemma NoneFiled.refl (fs : StreamRotateFS) : fs.NoneFiled fs := ⟨fun _ _ h => h, rfl⟩

/-- Files that are taken from the archive, and the current file, do not matter. -/
lemma Filed.of_noneFiled (h : fs.Filed) {fs' : StreamRotateFS} (hnone : fs.NoneFiled fs') :
    fs'.Filed where
  file seq e he := h.file seq e (hnone.old seq e he)
  numbers seq hseq := by
    obtain ⟨e, he⟩ := mem_archive.1 hseq
    rw [hnone.next]
    exact h.numbers seq (mem_archive.2 ⟨e, hnone.old seq e he⟩)
  next := by
    rw [hnone.next]
    exact h.next

lemma noneFiled_remove (fs : StreamRotateFS) (path : PathBuf) :
    fs.NoneFiled (fs.remove path).2 := by
  refine withPath_induction (.refl fs) fun normalized text => ?_
  split_ifs
  · exact .refl fs
  · split
    · refine ⟨fun seq e he => ?_, rfl⟩
      rw [Std.TreeMap.getElem?_erase] at he
      split_ifs at he
      exact he
    · exact .refl fs
  · exact .refl fs

/-- The sections other than a rotation add nothing to the archive. -/
lemma noneFiled_sectionStep {fs' : StreamRotateFS} {sec : LogSection}
    (hsec : ∀ now, sec ≠ .rotate now) (hstep : sectionStep fs sec = some fs') :
    fs.NoneFiled fs' := by
  cases sec with
  | append data now =>
    obtain rfl := Option.some.inj hstep
    exact ⟨fun _ _ h => h, rfl⟩
  | rotate now => exact absurd rfl (hsec now)
  | truncate path size now =>
    obtain rfl := Option.some.inj hstep
    refine withPath_induction (.refl fs) fun normalized text => ?_
    split_ifs
    · exact ⟨fun _ _ h => h, rfl⟩
    · exact .refl fs
  | touch path now =>
    obtain rfl := Option.some.inj hstep
    refine withPath_induction (.refl fs) fun normalized text => ?_
    split_ifs
    · exact ⟨fun _ _ h => h, rfl⟩
    all_goals exact .refl fs
  | remove path =>
    obtain rfl := Option.some.inj hstep
    exact noneFiled_remove fs path
  | removeAll path =>
    obtain rfl := Option.some.inj hstep
    refine withPath_induction (.refl fs) fun normalized text => ?_
    split_ifs
    · exact ⟨fun seq e he => by simp at he, rfl⟩
    · exact .refl fs
    · exact noneFiled_remove fs path
    · exact .refl fs

/-- What is in the archive after a rotation: the file of the new number if anything is kept, and
files that were there. -/
lemma mem_rotate (h : fs.Filed) (now : DateTime) :
    (fs.state.nextSeq ∈ (fs.rotate now).state.archive ↔ fs.config.maxFiles ≠ 0) ∧
      ∀ (seq : ℕ) (e : FileEntry), (fs.rotate now).state.archive[seq]? = some e →
        (seq = fs.state.nextSeq ∧ e = .file (archivePath 1) fs.state.current.data now) ∨
          fs.state.archive[seq]? = some e := by
  let archive := fs.state.archive.insert fs.state.nextSeq
    (.file (archivePath 1) fs.state.current.data now)
  have hlast : archive.toList = fs.state.archive.toList ++
      [(fs.state.nextSeq, .file (archivePath 1) fs.state.current.data now)] :=
    TreeMap.toList_insert_last (fun k hk => Nat.compare_eq_lt.2 (h.numbers k hk).2) _
  have hsplit : (pruneLoop fs.config.maxFiles archive.size archive).1 ++
      (fs.rotate now).state.archive.toList = fs.state.archive.toList ++
        [(fs.state.nextSeq, .file (archivePath 1) fs.state.current.data now)] :=
    (pruneLoop_append fs.config.maxFiles archive.size archive).trans hlast
  refine ⟨⟨fun hmem hzero => ?_, fun hne => ?_⟩, fun seq e he => ?_⟩
  · obtain ⟨e, he⟩ := mem_archive.1 hmem
    have hpos := List.length_pos_of_mem (mem_toList.2 he)
    have hsize := size_archive_rotate_le fs now
    rw [Std.TreeMap.length_toList] at hpos
    omega
  · -- the last file of all is kept
    have hmin : min fs.config.maxFiles archive.size ≤ (fs.rotate now).state.archive.size :=
      min_le_size_pruneLoop fs.config.maxFiles archive.size archive
    rw [← Std.TreeMap.length_toList, hlast, List.length_append, List.length_singleton,
      ← Std.TreeMap.length_toList] at hmin
    rcases List.eq_nil_or_concat (fs.rotate now).state.archive.toList with hnil | ⟨l, x, hl⟩
    · rw [hnil, List.length_nil] at hmin
      omega
    · rw [List.concat_eq_append] at hl
      rw [hl, ← List.append_assoc] at hsplit
      obtain rfl := List.singleton_inj.1 (List.append_inj' hsplit rfl).2
      have hmem : (fs.state.nextSeq, .file (archivePath 1) fs.state.current.data now) ∈
          (fs.rotate now).state.archive.toList := by
        rw [hl]
        exact List.mem_append_right _ (List.mem_singleton_self _)
      exact mem_archive.2 ⟨_, mem_toList.1 hmem⟩
  · have hmem : (seq, e) ∈ fs.state.archive.toList ++
        [(fs.state.nextSeq, .file (archivePath 1) fs.state.current.data now)] := by
      rw [← hsplit]
      exact List.mem_append_right _ (mem_toList.2 he)
    rcases List.mem_append.1 hmem with hmem | hmem
    · exact Or.inr (mem_toList.1 hmem)
    · exact Or.inl (Prod.mk.inj (List.mem_singleton.1 hmem))

lemma Filed.rotate (h : fs.Filed) (now : DateTime) : (fs.rotate now).Filed := by
  have hnext : (fs.rotate now).state.nextSeq = fs.state.nextSeq + 1 := rfl
  refine ⟨fun seq e he => ?_, fun seq hseq => ?_, Nat.le_add_left _ _⟩
  · rcases (mem_rotate h now).2 seq e he with ⟨-, rfl⟩ | hold
    · exact ⟨now, rfl⟩
    · exact h.file seq e hold
  · obtain ⟨e, he⟩ := mem_archive.1 hseq
    rw [hnext]
    rcases (mem_rotate h now).2 seq e he with ⟨rfl, -⟩ | hold
    · exact ⟨h.next, Nat.lt_succ_self _⟩
    · obtain ⟨hone, hlt⟩ := h.numbers seq (mem_archive.2 ⟨e, hold⟩)
      exact ⟨hone, Nat.lt_succ_of_lt hlt⟩

lemma Filed.step (h : fs.Filed) {sec : LogSection} {fs' : StreamRotateFS}
    (hstep : sectionStep fs sec = some fs') : fs'.Filed := by
  by_cases hsec : ∃ now, sec = .rotate now
  · obtain ⟨now, rfl⟩ := hsec
    rw [← Option.some.inj hstep]
    exact h.rotate now
  · exact h.of_noneFiled (noneFiled_sectionStep (not_exists.1 hsec) hstep)

/-- A rotation is the first one, or no files are kept. -/
def RotatesOnce (fs : StreamRotateFS) : LogSection → Prop
  | .rotate _ => fs.state.nextSeq = 1 ∨ fs.config.maxFiles = 0
  | _ => True

/-- What one section needs to keep the listing usable. -/
lemma usable_step_iff {fs' : StreamRotateFS} {sec : LogSection} (h : fs.Filed) (husable : fs.Usable)
    (hstep : sectionStep fs sec = some fs') : fs'.Usable ↔ fs.RotatesOnce sec := by
  have hone := (usable_iff_one h).1 husable
  rw [usable_iff_one (h.step hstep)]
  by_cases hsec : ∃ now, sec = .rotate now
  · obtain ⟨now, rfl⟩ := hsec
    obtain rfl := Option.some.inj hstep
    obtain ⟨hnew, hall⟩ := mem_rotate h now
    constructor
    · intro hones
      by_contra hnot
      obtain ⟨hnext, hkeep⟩ := not_or.1 hnot
      exact hnext (hones _ (hnew.2 hkeep))
    · intro hok seq hseq
      obtain ⟨e, he⟩ := mem_archive.1 hseq
      rcases hall seq e he with ⟨rfl, -⟩ | hold
      · exact hok.resolve_right (hnew.1 hseq)
      · exact hone seq (mem_archive.2 ⟨e, hold⟩)
  · have hnone := noneFiled_sectionStep (not_exists.1 hsec) hstep
    refine iff_of_true (fun seq hseq => ?_) ?_
    · obtain ⟨e, he⟩ := mem_archive.1 hseq
      exact hone seq (mem_archive.2 ⟨e, hnone.old seq e he⟩)
    · cases sec with
      | rotate now => exact absurd ⟨now, rfl⟩ hsec
      | _ => trivial

/-- **The listing of the archive.**  In every run of sections of calls, the listing is usable in
all states if and only if every rotation is the first one, or no files are kept. -/
theorem usable_iff (config : RotateConfig) (now : DateTime) (secs : List LogSection) :
    StatesMeet sectionStep Usable (withConfig config now) secs ↔
      StepsMeet sectionStep RotatesOnce (withConfig config now) secs := by
  have hfiled := filed_withConfig config now
  have hempty : (withConfig config now).Usable :=
    (usable_iff_one hfiled).2 fun seq hseq => by simp [withConfig] at hseq
  exact statesMeet_iff_stepsMeet (A := Filed) (fun _ _ _ h hstep => h.step hstep)
    (fun _ _ _ h husable hstep => usable_step_iff h husable hstep) hfiled hempty

/-- The second rotation: two files are listed under different names, and `stat` says of the second
one that its path is that of the first. -/
theorem not_usable_twoRotations :
    (∃ fs, run sectionStep (withConfig smallConfig 0) [.rotate 1, .append (ascii "abc") 2,
        .rotate 3] = some fs ∧
      (fs.readDir ⟨ascii "/archive"⟩ 4).map (·.map FileMetadata.path) =
        .ok [⟨ascii "/archive/001.log"⟩, ⟨ascii "/archive/002.log"⟩] ∧
      (fs.stat ⟨ascii "/archive/002.log"⟩ 4).map FileMetadata.path =
        .ok ⟨ascii "/archive/001.log"⟩) ∧
    ¬ StatesMeet sectionStep Usable (withConfig smallConfig 0) [.rotate 1,
      .append (ascii "abc") 2, .rotate 3] := by
  refine ⟨⟨_, rfl, rfl, rfl⟩, fun h => ?_⟩
  have husable := ((h.2 _ rfl).2 _ rfl).2 _ rfl
  have hfiled : (((withConfig smallConfig 0).rotate 1).append (ascii "abc") 2).Filed :=
    ((filed_withConfig smallConfig 0).rotate 1).of_noneFiled ⟨fun _ _ h => h, rfl⟩
  have hone := (usable_iff_one (hfiled.rotate 3)).1 husable 2 (by decide)
  exact absurd hone (by decide)

end StreamRotateFS

end Racfs.StreamRotateFs
