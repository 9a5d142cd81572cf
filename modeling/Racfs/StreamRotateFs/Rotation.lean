/-
# What a rotating log keeps

The bytes that are written to the log are in three places: the archive files that have been
pruned, those that are left, and the current file.  A rotation moves the current bytes to the
end of the archive, and pruning takes files from its beginning, so in this order the three
places always have all the bytes in the order in which they came (`NoLoss`).
-/
import Racfs.Lib.Run
import Racfs.Lib.TreeMap
import Racfs.StreamRotateFs.Model

namespace Racfs.StreamRotateFs

namespace StreamRotateFS

/-! ### Pruning -/

/-- What is removed is the beginning of the archive. -/
lemma pruneLoop_append (maxFiles fuel : ℕ) (archive : Std.TreeMap ℕ FileEntry) :
    (pruneLoop maxFiles fuel archive).1 ++ (pruneLoop maxFiles fuel archive).2.toList =
      archive.toList := by
  induction fuel generalizing archive with
  | zero => rfl
  | succ fuel ih =>
    rw [pruneLoop]
    split_ifs
    · cases hl : archive.toList with
      | nil => exact hl
      | cons e l =>
        simp only [List.head?_cons]
        rw [List.cons_append, ih, TreeMap.toList_erase_first hl]
    · rfl

/-- The loop has enough rounds. -/
lemma size_pruneLoop_le (maxFiles : ℕ) {fuel : ℕ} {archive : Std.TreeMap ℕ FileEntry}
    (hfuel : archive.size ≤ fuel) : (pruneLoop maxFiles fuel archive).2.size ≤ maxFiles := by
  induction fuel generalizing archive with
  | zero => exact Nat.le_trans hfuel (Nat.zero_le _)
  | succ fuel ih =>
    rw [pruneLoop]
    split_ifs with hsize
    · cases hl : archive.toList with
      | nil =>
        rw [← Std.TreeMap.length_toList, hl] at hsize
        exact absurd hsize (Nat.not_lt_zero _)
      | cons e l =>
        refine ih ?_
        rw [← Std.TreeMap.length_toList, TreeMap.toList_erase_first hl]
        rw [← Std.TreeMap.length_toList, hl] at hfuel
        exact Nat.le_of_succ_le_succ hfuel
    · exact Nat.le_of_not_lt hsize

/-- The loop does not remove too many. -/
lemma min_le_size_pruneLoop (maxFiles fuel : ℕ) (archive : Std.TreeMap ℕ FileEntry) :
    min maxFiles archive.size ≤ (pruneLoop maxFiles fuel archive).2.size := by
  induction fuel generalizing archive with
  | zero => exact Nat.min_le_right _ _
  | succ fuel ih =>
    rw [pruneLoop]
    split_ifs with hsize
    · cases hl : archive.toList with
      | nil => exact Nat.min_le_right _ _
      | cons e l =>
        refine Nat.le_trans ?_ (ih (archive.erase e.1))
        rw [← Std.TreeMap.length_toList, hl, List.length_cons] at hsize ⊢
        rw [← Std.TreeMap.length_toList, TreeMap.toList_erase_first hl]
        omega
    · exact Nat.min_le_right _ _

/-! ### The files and their bytes -/

variable {fs : StreamRotateFS}

/-- All archive files that there have been, the pruned ones first. -/
def archived (fs : StreamRotateFS) : List (ℕ × FileEntry) :=
  fs.pruned ++ fs.state.archive.toList

/-- The archive files are numbered one after the other. -/
def Numbered (fs : StreamRotateFS) : Prop :=
  fs.archived.map Prod.fst = List.range' 1 (fs.state.nextSeq - 1) ∧ 1 ≤ fs.state.nextSeq

lemma Numbered.lt (h : fs.Numbered) {seq : ℕ} (hseq : seq ∈ fs.state.archive) :
    seq < fs.state.nextSeq := by
  rw [← Std.TreeMap.mem_keys, ← Std.TreeMap.map_fst_toList_eq_keys] at hseq
  have hmem : seq ∈ fs.archived.map Prod.fst := by
    rw [archived, List.map_append]
    exact List.mem_append_right _ hseq
  rw [h.1, List.mem_range'_1] at hmem
  have hpos := h.2
  omega

/-- A rotation puts the current bytes behind all archive files. -/
lemma archived_rotate (h : fs.Numbered) (now : DateTime) :
    (fs.rotate now).archived = fs.archived ++
      [(fs.state.nextSeq, .file ⟨ascii "/archive/001.log"⟩ fs.state.current.data now)] := by
  rw [archived, rotate, prune, List.append_assoc, pruneLoop_append,
    TreeMap.toList_insert_last fun k hk => Nat.compare_eq_lt.2 (h.lt hk), ← List.append_assoc]
  rfl

lemma Numbered.rotate (h : fs.Numbered) (now : DateTime) : (fs.rotate now).Numbered := by
  obtain ⟨hseqs, hpos⟩ := h
  refine ⟨?_, Nat.le_add_left _ _⟩
  have hnext : (fs.rotate now).state.nextSeq - 1 = fs.state.nextSeq - 1 + 1 := by
    show fs.state.nextSeq + 1 - 1 = _
    omega
  have hlast : 1 + 1 * (fs.state.nextSeq - 1) = fs.state.nextSeq := by omega
  rw [archived_rotate ⟨hseqs, hpos⟩, List.map_append, hseqs, hnext, List.range'_concat, hlast]
  rfl

/-- The bytes of the archive files, and then the current ones. -/
def bytes (fs : StreamRotateFS) : Bytes :=
  (fs.archived.flatMap fun e => e.2.data) ++ fs.state.current.data

lemma bytes_append (data : Bytes) (now : DateTime) :
    (fs.append data now).bytes = fs.bytes ++ data := by
  rw [bytes, bytes, append, List.append_assoc]
  rfl

lemma bytes_rotate (h : fs.Numbered) (now : DateTime) : (fs.rotate now).bytes = fs.bytes := by
  rw [bytes, archived_rotate h]
  simp [bytes, rotate, FileEntry.file]

/-- At most as many files as configured are kept. -/
lemma size_archive_rotate_le (fs : StreamRotateFS) (now : DateTime) :
    (fs.rotate now).state.archive.size ≤ fs.config.maxFiles :=
  size_pruneLoop_le _ le_rfl

/-- What is true of a log of which nothing but pruned files is missing. -/
structure NoLoss (fs : StreamRotateFS) (written : Bytes) : Prop where
  /-- The pruned files, the archive in the order of its numbers, and the current file have all
  bytes. -/
  bytes : written = (fs.pruned.flatMap fun e => e.2.data) ++
    ((fs.state.archive.toList.flatMap fun e => e.2.data) ++ fs.state.current.data)
  /-- The pruned files come before those that are left, and the numbers are consecutive. -/
  seqs : fs.pruned.map Prod.fst ++ fs.state.archive.keys = List.range' 1 (fs.state.nextSeq - 1)
  size_le : fs.state.archive.size ≤ fs.config.maxFiles
  length_lt : fs.state.current.data.length < fs.config.maxSize

/-- What the calls keep; the lengths of the current file apart. -/
structure Keeps (fs : StreamRotateFS) (written : Bytes) : Prop where
  numbered : fs.Numbered
  bytes : written = fs.bytes
  size_le : fs.state.archive.size ≤ fs.config.maxFiles

variable {written : Bytes}

lemma Keeps.rotate (h : fs.Keeps written) (now : DateTime) : (fs.rotate now).Keeps written where
  numbered := h.numbered.rotate now
  bytes := h.bytes.trans (bytes_rotate h.numbered now).symm
  size_le := size_archive_rotate_le fs now

lemma Keeps.append (h : fs.Keeps written) (data : Bytes) (now : DateTime) :
    (fs.append data now).Keeps (written ++ data) where
  numbered := h.numbered
  bytes := by rw [h.bytes, bytes_append]
  size_le := h.size_le

lemma Keeps.checkRotate (h : fs.Keeps written) (now : DateTime) :
    (fs.checkRotate now).Keeps written := by
  rw [StreamRotateFS.checkRotate]
  split_ifs
  · exact h.rotate now
  · exact h

/-- After the check the current file is not full. -/
lemma length_checkRotate_lt (fs : StreamRotateFS) (hmax : 1 ≤ fs.config.maxSize) (now : DateTime) :
    (fs.checkRotate now).state.current.data.length < (fs.checkRotate now).config.maxSize := by
  rw [checkRotate, needsRotation]
  split_ifs with hfull
  · exact hmax
  · exact Nat.lt_of_not_le (by simpa using hfull)

/-- The path is that of the current file. -/
def IsCurrent (path : PathBuf) : Prop :=
  (normalizePath path).toStringLossy = ascii "/current"

instance (path : PathBuf) : Decidable (IsCurrent path) := by
  unfold IsCurrent; infer_instance

lemma validatePath_of_isCurrent {path : PathBuf} (h : IsCurrent path) :
    validatePath (normalizePath path) = .ok () := by
  have htext : (normalizePath path).toStringLossy = ascii "/current" := h
  rw [validatePath, normalizePath, htext]
  rfl

/-- A call of `write`, with its time. -/
structure WriteCall where
  path : PathBuf
  data : Bytes
  offset : Int64
  flags : WriteFlags
  now : DateTime

/-- The filesystem and all bytes that have been written to the current file. -/
structure Logged where
  fs : StreamRotateFS
  written : Bytes

/-- A new filesystem. -/
def Logged.new (config : RotateConfig) (now : DateTime) : Logged := ⟨withConfig config now, []⟩

/-- One write. -/
def writeStep (s : Logged) (c : WriteCall) : Option Logged :=
  some ⟨(s.fs.write c.path c.data c.offset c.flags c.now).2,
    if IsCurrent c.path then s.written ++ c.data else s.written⟩

/-- What a write does: it appends and checks the size, it rotates, or it does nothing. -/
lemma write_cases (fs : StreamRotateFS) (c : WriteCall) :
    (IsCurrent c.path ∧ (fs.write c.path c.data c.offset c.flags c.now).2 =
      (fs.append c.data c.now).checkRotate c.now) ∨
    (¬ IsCurrent c.path ∧
      ((fs.write c.path c.data c.offset c.flags c.now).2 = fs.rotate c.now ∨
        (fs.write c.path c.data c.offset c.flags c.now).2 = fs)) := by
  rw [write, withPath]
  by_cases hcurrent : IsCurrent c.path
  · left
    have htext : (normalizePath c.path).toStringLossy = ascii "/current" := hcurrent
    rw [validatePath_of_isCurrent hcurrent]
    simp only [htext, if_true, hcurrent, true_and]
  · right
    refine ⟨hcurrent, ?_⟩
    have htext : (normalizePath c.path).toStringLossy ≠ ascii "/current" := hcurrent
    cases validatePath (normalizePath c.path) with
    | ok u =>
      simp only [htext, if_false]
      split_ifs
      · exact Or.inl rfl
      all_goals exact Or.inr rfl
    | err e => exact Or.inr rfl
    | panic => exact Or.inr rfl

lemma config_checkRotate (fs : StreamRotateFS) (now : DateTime) :
    (fs.checkRotate now).config = fs.config := by
  rw [checkRotate]
  split_ifs <;> rfl

/-- What holds after every write. -/
structure Inv (config : RotateConfig) (s : Logged) : Prop where
  config_eq : s.fs.config = config
  keeps : s.fs.Keeps s.written
  length_lt : s.fs.state.current.data.length < s.fs.config.maxSize

variable {config : RotateConfig}

lemma inv_step (hmax : 1 ≤ config.maxSize) {s s' : Logged} {c : WriteCall} (h : Inv config s)
    (hs : writeStep s c = some s') : Inv config s' := by
  obtain rfl := Option.some.inj hs
  have hmax' : 1 ≤ s.fs.config.maxSize := by rwa [h.config_eq]
  rcases write_cases s.fs c with ⟨hcurrent, heq⟩ | ⟨hcurrent, heq | heq⟩
  · rw [heq, if_pos hcurrent]
    exact ⟨(config_checkRotate _ _).trans h.config_eq,
      (h.keeps.append c.data c.now).checkRotate c.now,
      length_checkRotate_lt (s.fs.append c.data c.now) hmax' c.now⟩
  · rw [heq, if_neg hcurrent]
    exact ⟨h.config_eq, h.keeps.rotate c.now, hmax'⟩
  · rw [heq, if_neg hcurrent]
    exact h

lemma inv_new (hmax : 1 ≤ config.maxSize) (now : DateTime) : Inv config (.new config now) :=
  ⟨rfl, ⟨⟨rfl, le_rfl⟩, rfl, Nat.zero_le _⟩, hmax⟩

/-- **Only pruned files are lost.**  After any writes to the current file and to `/rotate`, the
archive files in the order of their numbers and then the current file have all bytes that were
written, but for those of the files that have been pruned, which are the oldest.  The numbers
of all archive files are `1, 2, ...`, there are at most as many files as configured, and the
current file is shorter than the maximal size. -/
theorem noLoss_of_reachable (hmax : 1 ≤ config.maxSize) (now : DateTime) {s : Logged}
    (h : Reachable writeStep (.new config now) s) :
    s.fs.config = config ∧ s.fs.NoLoss s.written := by
  have hinv : Inv config s :=
    h.invariant (inv_new hmax now) fun _ _ _ hi hs => inv_step hmax hi hs
  refine ⟨hinv.config_eq, ?_, ?_, hinv.keeps.size_le, hinv.length_lt⟩
  · rw [hinv.keeps.bytes, StreamRotateFS.bytes, archived, List.flatMap_append, List.append_assoc]
  · rw [← Std.TreeMap.map_fst_toList_eq_keys, ← List.map_append]
    exact hinv.keeps.numbered.1

/-- Files are rotated from three bytes on, and two of them are kept. -/
def smallConfig : RotateConfig := ⟨3, 2, false, ⟨[]⟩⟩

/-- Two writes, a rotation by hand and another write. -/
def fourWrites : List WriteCall :=
  [⟨⟨ascii "/current"⟩, ascii "abc", 0, WriteFlags.NONE, 1⟩,
    ⟨⟨ascii "/current"⟩, ascii "de", 0, WriteFlags.NONE, 2⟩,
    ⟨⟨ascii "/rotate"⟩, ascii "rotate", 0, WriteFlags.NONE, 3⟩,
    ⟨⟨ascii "/current"⟩, ascii "fghi", 0, WriteFlags.NONE, 4⟩]

/-- The third rotation prunes the first file, with the first three bytes. -/
theorem noLoss_fourWrites :
    ∃ s, run writeStep (.new smallConfig 0) fourWrites = some s ∧
      s.written = ascii "abcdefghi" ∧
      s.fs.pruned.map (fun e => (e.1, e.2.data)) = [(1, ascii "abc")] ∧
      s.fs.config = smallConfig ∧ s.fs.NoLoss s.written :=
  ⟨_, rfl, by decide, by decide, noLoss_of_reachable (by decide) 0 ⟨fourWrites, rfl⟩⟩

end StreamRotateFS

end Racfs.StreamRotateFs
