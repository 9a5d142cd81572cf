/-
# The sizes in the metadata

The size of a file of the rotating log is kept beside its content.  A write and a rotation set
it to the length of the content, but `truncate` sets it to what was asked for, and a content
that is shorter is not padded.  So the sizes are right in all states of a run exactly when
nothing is truncated to more than its length (`sizesExact_iff`).
-/
import Racfs.StreamRotateFs.Rotation

namespace Racfs.StreamRotateFs

/-- A call that can change something. -/
inductive RotateOp
  | write (path : PathBuf) (data : Bytes) (offset : Int64) (flags : WriteFlags)
  | truncate (path : PathBuf) (size : UInt64)
  | touch (path : PathBuf)
  | remove (path : PathBuf)
  | removeAll (path : PathBuf)

/-- The size in the metadata is the length of the content. -/
def FileEntry.SizeExact (e : FileEntry) : Prop := e.metadata.size = e.data.length.toUInt64

instance (e : FileEntry) : Decidable e.SizeExact := by unfold FileEntry.SizeExact; infer_instance

namespace StreamRotateFS

/-- The filesystem after a call. -/
def exec (fs : StreamRotateFS) (now : DateTime) : RotateOp → StreamRotateFS
  | .write path data offset flags => (fs.write path data offset flags now).2
  | .truncate path size => (fs.truncate path size now).2
  | .touch path => (fs.touch path now).2
  | .remove path => (fs.remove path).2
  | .removeAll path => (fs.removeAll path).2

/-- One call, at a time. -/
def opStep (fs : StreamRotateFS) (c : RotateOp × DateTime) : Option StreamRotateFS :=
  some (fs.exec c.2 c.1)

/-- The sizes of the current file and of the archive files are right. -/
structure Exact (fs : StreamRotateFS) : Prop where
  current : fs.state.current.SizeExact
  archive : ∀ (seq : ℕ) (e : FileEntry), fs.state.archive[seq]? = some e → e.SizeExact

/-- The sizes are right, so that the size of a file is the length of what is read from it. -/
structure SizesExact (fs : StreamRotateFS) : Prop extends Exact fs where
  read : ∀ path now m, fs.stat path now = .ok m → m.isFile = true →
    ∃ data, fs.read path 0 (-1) now = .ok data ∧ m.size = data.length.toUInt64

/-- A call does not truncate the current file to more than its length. -/
def Shortens (fs : StreamRotateFS) (c : RotateOp × DateTime) : Prop :=
  match c.1 with
  | .truncate path size => IsCurrent path → size.toNat ≤ fs.state.current.data.length
  | _ => True

variable {fs : StreamRotateFS}

/-! ### Reading -/

/-- What there is at a path is a directory, or its size is right. -/
lemma Exact.of_getEntry (h : fs.Exact) {path : PathBuf} {now : DateTime} {e : FileEntry}
    (he : fs.getEntry path now = .ok e) : e.isFile = false ∨ e.SizeExact := by
  rw [getEntry] at he
  cases hvalid : validatePath (normalizePath path) with
  | err x => rw [hvalid] at he; cases he
  | panic => rw [hvalid] at he; cases he
  | ok u =>
    have hdir : ∀ p : PathBuf, (FileEntry.dir p now).isFile = false := by
      intro p
      change (FileMetadata.dirMode &&& S_IFMT == S_IFREG) = false
      decide
    rw [hvalid] at he
    simp only [Outcome.bind] at he
    split_ifs at he
    · obtain rfl := Outcome.ok.inj he
      exact Or.inl (hdir _)
    · obtain rfl := Outcome.ok.inj he
      exact Or.inr h.current
    · obtain rfl := Outcome.ok.inj he
      exact Or.inr rfl
    · obtain rfl := Outcome.ok.inj he
      exact Or.inr rfl
    · obtain rfl := Outcome.ok.inj he
      exact Or.inl (hdir _)
    · split at he
      · next hsome =>
        obtain rfl := Outcome.ok.inj he
        obtain ⟨seq, -, hseq⟩ := Option.bind_eq_some_iff.1 hsome
        exact Or.inr (h.archive seq _ hseq)
      · cases he

lemma Exact.sizesExact (h : fs.Exact) : fs.SizesExact where
  toExact := h
  read := by
    intro path now m hstat hfile
    rw [stat] at hstat
    cases hentry : fs.getEntry path now with
    | err x => rw [hentry] at hstat; cases hstat
    | panic => rw [hentry] at hstat; cases hstat
    | ok e =>
      rw [hentry] at hstat
      obtain rfl := Outcome.ok.inj hstat
      have hisFile : e.isFile = true := hfile
      rcases h.of_getEntry hentry with hdir | hsize
      · rw [hisFile] at hdir
        cases hdir
      · refine ⟨e.data, ?_, hsize⟩
        rw [StreamRotateFS.read, hentry, Outcome.ok_bind, hisFile, Bool.not_true,
          if_neg Bool.false_ne_true, MemFs.MemFS.readData_whole]

/-! ### The calls -/

lemma withPath_induction {α : Type*} {P : StreamRotateFS → Prop} {path : PathBuf}
    {f : PathBuf → Bytes → Outcome α × StreamRotateFS} (h : P fs)
    (hf : ∀ normalized text, P (f normalized text).2) : P (fs.withPath path f).2 := by
  rw [withPath]
  cases validatePath (normalizePath path) with
  | ok u => exact hf _ _
  | err e => exact h
  | panic => exact h

/-- Files that are taken from the archive do not matter. -/
lemma Exact.of_archive (h : fs.Exact) {archive : Std.TreeMap ℕ FileEntry}
    (hsub : ∀ (seq : ℕ) (e : FileEntry), archive[seq]? = some e →
      fs.state.archive[seq]? = some e) :
    Exact { fs with state.archive := archive } :=
  ⟨h.current, fun seq e he => h.archive seq e (hsub seq e he)⟩

/-- What is left after pruning was there before. -/
lemma get?_of_prune {maxFiles : ℕ} {archive : Std.TreeMap ℕ FileEntry} {seq : ℕ} {e : FileEntry}
    (h : (prune maxFiles archive).2[seq]? = some e) : archive[seq]? = some e := by
  rw [← Std.TreeMap.mem_toList_iff_getElem?_eq_some] at h ⊢
  rw [← pruneLoop_append maxFiles archive.size archive]
  exact List.mem_append_right _ h

lemma Exact.rotate (h : fs.Exact) (now : DateTime) : (fs.rotate now).Exact := by
  refine ⟨rfl, fun seq e he => ?_⟩
  have hold := get?_of_prune he
  rw [Std.TreeMap.getElem?_insert] at hold
  split_ifs at hold
  · rw [← Option.some.inj hold]
    exact rfl
  · exact h.archive seq e hold

lemma Exact.write (h : fs.Exact) (path : PathBuf) (data : Bytes) (offset : Int64)
    (flags : WriteFlags) (now : DateTime) : (fs.write path data offset flags now).2.Exact := by
  rcases write_cases fs ⟨path, data, offset, flags, now⟩ with ⟨-, heq⟩ | ⟨-, heq | heq⟩
  · have happend : (fs.append data now).Exact := ⟨rfl, h.archive⟩
    rw [heq, checkRotate]
    split_ifs
    · exact happend.rotate now
    · exact happend
  · rw [heq]
    exact h.rotate now
  · rw [heq]
    exact h

lemma Exact.touch (h : fs.Exact) (path : PathBuf) (now : DateTime) :
    (fs.touch path now).2.Exact := by
  refine withPath_induction h fun normalized text => ?_
  split_ifs
  · exact ⟨h.current, h.archive⟩
  all_goals exact h

lemma Exact.remove (h : fs.Exact) (path : PathBuf) : (fs.remove path).2.Exact := by
  refine withPath_induction h fun normalized text => ?_
  split_ifs
  · exact h
  · split
    · refine h.of_archive fun seq e he => ?_
      rw [Std.TreeMap.getElem?_erase] at he
      split_ifs at he
      exact he
    · exact h
  · exact h

lemma Exact.removeAll (h : fs.Exact) (path : PathBuf) : (fs.removeAll path).2.Exact := by
  refine withPath_induction h fun normalized text => ?_
  split_ifs
  · exact h.of_archive fun seq e he => by simp at he
  · exact h
  · exact h.remove path
  · exact h

/-- A size is the length of a content that was cut off to it, unless the content was shorter. -/
lemma size_eq_length_take (size : UInt64) (data : Bytes) :
    size = (data.take size.toNat).length.toUInt64 ↔ size.toNat ≤ data.length := by
  have hlt : min size.toNat data.length < 2 ^ 64 :=
    Nat.lt_of_le_of_lt (Nat.min_le_left _ _) size.toNat_lt
  rw [List.length_take, ← UInt64.toNat_inj, Nat.toUInt64_eq, UInt64.toNat_ofNat_of_lt' hlt]
  omega

lemma Exact.truncate_iff (h : fs.Exact) (path : PathBuf) (size : UInt64) (now : DateTime) :
    (fs.truncate path size now).2.Exact ↔ fs.Shortens (.truncate path size, now) := by
  by_cases hcurrent : IsCurrent path
  · have htext : (normalizePath path).toStringLossy = ascii "/current" := hcurrent
    have hiff : fs.Shortens (.truncate path size, now) ↔
        size.toNat ≤ fs.state.current.data.length := ⟨fun hs => hs hcurrent, fun hs _ => hs⟩
    rw [StreamRotateFS.truncate, withPath, validatePath_of_isCurrent hcurrent, hiff,
      ← size_eq_length_take]
    simp only [if_pos htext]
    exact ⟨fun hexact => hexact.current, fun hsize => ⟨hsize, h.archive⟩⟩
  · refine iff_of_true ?_ fun hc => absurd hc hcurrent
    rw [StreamRotateFS.truncate, withPath]
    cases validatePath (normalizePath path) with
    | ok u =>
      simp only [if_neg (show (normalizePath path).toStringLossy ≠ ascii "/current" from hcurrent)]
      exact h
    | err e => exact h
    | panic => exact h

/-- What one call needs to keep the sizes right. -/
lemma exact_step_iff {fs' : StreamRotateFS} {c : RotateOp × DateTime} (h : fs.Exact)
    (hstep : opStep fs c = some fs') : fs'.Exact ↔ fs.Shortens c := by
  obtain ⟨op, now⟩ := c
  obtain rfl := Option.some.inj hstep
  cases op with
  | write path data offset flags => exact iff_of_true (h.write path data offset flags now) trivial
  | truncate path size => exact h.truncate_iff path size now
  | touch path => exact iff_of_true (h.touch path now) trivial
  | remove path => exact iff_of_true (h.remove path) trivial
  | removeAll path => exact iff_of_true (h.removeAll path) trivial

/-- The sizes are right in all states of a run exactly when its calls truncate the current file
to at most its length. -/
theorem sizesExact_iff (config : RotateConfig) (now : DateTime)
    (cs : List (RotateOp × DateTime)) :
    StatesMeet opStep SizesExact (withConfig config now) cs ↔
      StepsMeet opStep Shortens (withConfig config now) cs := by
  have hnew : (withConfig config now).Exact :=
    ⟨rfl, fun seq e he => by simp [withConfig] at he⟩
  refine statesMeet_iff_of_invariant (I := Exact) (fun _ h => h.sizesExact)
    (fun _ _ _ h hs hexact => (exact_step_iff h hs).1 hexact.toExact)
    (fun _ _ _ h hok hs => (exact_step_iff h hs).2 hok) hnew

/-- The new log is "truncated" to five bytes: its metadata has the size 5, and nothing is in it. -/
theorem not_sizesExact_truncate :
    ¬ StatesMeet opStep SizesExact (withConfig RotateConfig.default 0)
      [(.truncate ⟨ascii "/current"⟩ 5, 1)] := by
  intro h
  have hsize := (h.2 _ rfl).current
  exact absurd hsize (by decide)

end StreamRotateFS

end Racfs.StreamRotateFs
