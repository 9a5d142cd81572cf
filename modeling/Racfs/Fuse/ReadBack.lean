/-
# A write that is read back

A write of the FUSE client that has returned is read at once: `write_async` and then
`read_async` on the same inode, offset and length, from an arbitrary state.  The server keeps
texts faithfully (`KeepsText`).

`read_async` looks into the cached content and asks the server; it does not look into the
buffer of the writes.  So a write that stays in the buffer is not seen, unless the file had the
same bytes at that place before.  A write that is sent is seen when its offset has a place in a
file; when it is sent with the buffer, what is seen is what the run that it is merged into has
at its place.  `read_write_iff` says that these are exactly the cases in which the bytes that
were written are read.
-/
import Racfs.Fuse.AsyncFs

namespace Racfs.Fuse

open RacfsAsyncFs

/-! ### A server that keeps texts -/

/-- What a write of a text at an offset makes of a content: what lies before the offset stays,
padded with zeros, and the text is at the offset.  An offset below zero has no place in the
content; nothing of the content is lost then. -/
def Wrote (old text : Bytes) (offset : Int64) (new : Bytes) : Prop :=
  if 0 ≤ offset then
    new.take offset.toUInt64.toNat = resize old offset.toUInt64.toNat ∧
      (new.drop offset.toUInt64.toNat).take text.length = text
  else old <+: new

/-- The server stores and returns texts faithfully: `content` is the text of a file, which a
successful read returns and a successful write changes.  A text has less than `2 ^ 63` bytes. -/
structure KeepsText {σ : Type*} (remote : Remote σ) (content : σ → Bytes → Bytes) : Prop where
  length_lt : ∀ s path, (content s path).length < 2 ^ 63
  read : ∀ {s s' path text}, remote.readFile path s = (.ok text, s') → text = content s path
  write : ∀ {s s' path text offset m},
    remote.writeFile path text (some offset) s = (.ok m, s') →
      Wrote (content s path) text offset (content s' path)

/-- The bytes of a content at a place. -/
def bytesAt (content : Bytes) (start len : ℕ) : Bytes := (content.drop start).take len

lemma slice_eq (content : Bytes) (offset : UInt64) (size : UInt32) :
    slice content offset size = bytesAt content offset.toNat size.toNat := by
  simp only [slice, bytesAt]
  split_ifs with h
  · rw [List.drop_take, ← List.take_eq_take_iff.2]
    simp only [List.length_drop]
    omega
  · rw [List.drop_eq_nil_of_le (not_lt.1 h), List.take_nil]

/-- A part of a part. -/
lemma bytesAt_of_take_eq {a b : Bytes} {i j k len : ℕ} (h : bytesAt a i k = b.take k)
    (hle : j + len ≤ k) : bytesAt a (i + j) len = bytesAt b j len := by
  have hsub : ∀ l : Bytes, (l.drop j).take len = ((l.take k).drop j).take len := by
    intro l
    rw [List.drop_take, List.take_take]
    congr 1
    omega
  calc bytesAt a (i + j) len = ((a.drop i).drop j).take len := by rw [bytesAt, List.drop_drop]
    _ = ((b.take k).drop j).take len := by rw [hsub, ← h]; rfl
    _ = bytesAt b j len := (hsub b).symm

lemma toInt64_nonneg_iff (offset : UInt64) : 0 ≤ offset.toInt64 ↔ offset.toNat < 2 ^ 63 := by
  have htoInt : offset.toInt64.toInt = offset.toBitVec.toInt := rfl
  have hlt := offset.toNat_lt
  rw [Int64.le_iff_toInt_le, htoInt, BitVec.toInt_eq_toNat_cond, UInt64.toNat_toBitVec]
  split_ifs with h <;> simp only [Int64.toInt_zero] <;> omega

namespace Wrote

variable {old text new : Bytes} {offset : UInt64}

/-- What lies before the offset is kept. -/
lemma take_eq (h : Wrote old text offset.toInt64 new) {n : ℕ} (hold : n ≤ old.length)
    (hn : n ≤ offset.toNat) : new.take n = old.take n ∧ n ≤ new.length := by
  rw [Wrote] at h
  split_ifs at h with hpos
  · rw [UInt64.toUInt64_toInt64] at h
    have hlen : offset.toNat ≤ new.length := by
      have heq := congrArg List.length h.1
      rw [length_resize, List.length_take] at heq
      omega
    refine ⟨?_, hn.trans hlen⟩
    calc new.take n = (new.take offset.toNat).take n := by rw [List.take_take, min_eq_left hn]
      _ = (resize old offset.toNat).take n := by rw [h.1]
      _ = old.take n := by
        rw [resize, List.take_append_of_le_length (by rw [List.length_take]; omega),
          List.take_take, min_eq_left hn]
  · refine ⟨?_, hold.trans h.length_le⟩
    obtain ⟨rest, rfl⟩ := h
    exact List.take_append_of_le_length hold

/-- The text is at its place. -/
lemma bytesAt_eq (h : Wrote old text offset.toInt64 new) (hoff : offset.toNat < 2 ^ 63) :
    bytesAt new offset.toNat text.length = text ∧
      offset.toNat + text.length ≤ new.length := by
  rw [Wrote, if_pos ((toInt64_nonneg_iff offset).2 hoff), UInt64.toUInt64_toInt64] at h
  refine ⟨h.2, ?_⟩
  have hbefore := congrArg List.length h.1
  have hat := congrArg List.length h.2
  rw [length_resize, List.length_take] at hbefore
  rw [List.length_take, List.length_drop] at hat
  omega

end Wrote

/-! ### What is sent -/

section

variable {σ : Type*} {remote : Remote σ} {content : σ → Bytes → Bytes}

lemma call_eq_ok {A : Type*} {c : Call σ A} {fs fs' : RacfsAsyncFs σ} {a : A}
    (h : fs.call c = (.ok a, fs')) :
    ∃ server, c fs.server = (.ok a, server) ∧ fs' = { fs with server := server } := by
  rw [RacfsAsyncFs.call] at h
  rcases hc : c fs.server with ⟨_ | a', server⟩
  · simp [hc] at h
  · simp only [hc, Prod.mk.injEq, Except.ok.injEq] at h
    obtain ⟨rfl, rfl⟩ := h
    exact ⟨server, rfl, rfl⟩

/-- The first run has been sent, and then the others. -/
lemma sendRuns_cons {path : Bytes} {run : Run} {runs : List Run} {fs fs' : RacfsAsyncFs σ}
    (h : sendRuns remote path (run :: runs) fs = (.ok (), fs')) :
    ∃ m server, remote.writeFile path (fromUtf8Lossy run.2) (some run.1.toInt64) fs.server =
        (.ok m, server) ∧
      sendRuns remote path runs { fs with server := server } = (.ok (), fs') := by
  rw [sendRuns] at h
  rcases hcall : fs.call (remote.writeFile path (fromUtf8Lossy run.2) (some run.1.toInt64)) with
    ⟨_ | m, sent⟩
  · simp [hcall] at h
  · obtain ⟨server, hwrite, rfl⟩ := call_eq_ok hcall
    exact ⟨m, server, hwrite, by simpa [hcall] using h⟩

/-- What lies before all the runs is kept. -/
lemma sendRuns_take (hkeeps : KeepsText remote content) {path : Bytes} {runs : List Run}
    {fs fs' : RacfsAsyncFs σ} (h : sendRuns remote path runs fs = (.ok (), fs')) {n : ℕ}
    (hn : n ≤ (content fs.server path).length) (hruns : ∀ run ∈ runs, n ≤ run.1.toNat) :
    (content fs'.server path).take n = (content fs.server path).take n := by
  induction runs generalizing fs with
  | nil =>
    simp only [sendRuns, Prod.mk.injEq] at h
    rw [h.2]
  | cons run runs ih =>
    obtain ⟨m, server, hwrite, hrest⟩ := sendRuns_cons h
    obtain ⟨htake, hle⟩ := (hkeeps.write hwrite).take_eq hn (hruns run (by simp))
    rw [ih hrest hle fun later hlater => hruns later (by simp [hlater])]
    exact htake

/-- The text of a run is at its place when all the runs have been sent, as far as the run
reaches: the later runs start behind it. -/
lemma sendRuns_bytesAt (hkeeps : KeepsText remote content) {path : Bytes} {runs : List Run}
    {fs fs' : RacfsAsyncFs σ} (h : sendRuns remote path runs fs = (.ok (), fs'))
    (hapart : runs.Pairwise Apart) {run : Run} (hrun : run ∈ runs)
    (hoff : run.1.toNat < 2 ^ 63) :
    bytesAt (content fs'.server path) run.1.toNat run.2.length =
      (fromUtf8Lossy run.2).take run.2.length := by
  induction runs generalizing fs with
  | nil => cases hrun
  | cons first runs ih =>
    obtain ⟨m, server, hwrite, hrest⟩ := sendRuns_cons h
    obtain ⟨hfirst, hapart⟩ := List.pairwise_cons.1 hapart
    rcases List.mem_cons.1 hrun with rfl | hmem
    · obtain ⟨hat, hlen⟩ := (hkeeps.write hwrite).bytesAt_eq hoff
      have hlong := length_le_fromUtf8Lossy run.2
      have hlt := hkeeps.length_lt server path
      -- the run ends inside of the file, so its end is an offset
      have hlater : ∀ later ∈ runs, run.1.toNat + run.2.length ≤ later.1.toNat :=
        fun later hl => ((hfirst later hl).2 (by omega)).le
      have htake := sendRuns_take hkeeps hrest (n := run.1.toNat + run.2.length)
        (by show _ ≤ (content server path).length; omega) hlater
      calc bytesAt (content fs'.server path) run.1.toNat run.2.length
          = ((content fs'.server path).take (run.1.toNat + run.2.length)).drop run.1.toNat := by
            rw [bytesAt, List.drop_take, Nat.add_sub_cancel_left]
        _ = ((content server path).take (run.1.toNat + run.2.length)).drop run.1.toNat := by
            rw [htake]
        _ = (bytesAt (content server path) run.1.toNat (fromUtf8Lossy run.2).length).take
              run.2.length := by
            rw [bytesAt, List.drop_take, Nat.add_sub_cancel_left, List.take_take,
              min_eq_left hlong]
        _ = (fromUtf8Lossy run.2).take run.2.length := by rw [hat]
    · exact ih hrest hapart hmem

/-! ### The read -/

/-- The content that a reader of a path sees. -/
def visible (content : σ → Bytes → Bytes) (fs : RacfsAsyncFs σ) (path : PathBuf) : Bytes :=
  (fs.cache.getFileContent path).getD (content fs.server path.toStringLossy)

lemma readAsync_eq_ok (hkeeps : KeepsText remote content) {fs fs' : RacfsAsyncFs σ}
    {ino offset : UInt64} {size : UInt32} {bs : Bytes} {path : PathBuf}
    (hpath : fs.inodes.getPath ino = some path)
    (h : fs.readAsync remote ino offset size = (.ok bs, fs')) :
    bs = bytesAt (visible content fs path) offset.toNat size.toNat := by
  simp only [readAsync, hpath] at h
  cases hcached : fs.cache.getFileContent path with
  | some cached =>
    simp only [hcached, Prod.mk.injEq, Except.ok.injEq] at h
    rw [← h.1, slice_eq, visible, hcached, Option.getD_some]
  | none =>
    rcases hcall : fs.call (remote.readFile path.toStringLossy) with ⟨_ | text, fs₁⟩
    · simp [hcached, hcall] at h
    · obtain ⟨server, hread, -⟩ := call_eq_ok hcall
      simp only [hcached, hcall, Prod.mk.injEq, Except.ok.injEq] at h
      rw [← h.1, slice_eq, visible, hcached, Option.getD_none, hkeeps.read hread]

/-- Behind the end of every file nothing is read. -/
lemma bytesAt_content_eq_nil (hkeeps : KeepsText remote content) (s : σ) (path : Bytes)
    {offset : UInt64} (hoff : ¬ offset.toNat < 2 ^ 63) (len : ℕ) :
    bytesAt (content s path) offset.toNat len = [] := by
  have hlt := hkeeps.length_lt s path
  rw [bytesAt, List.drop_eq_nil_of_le (by omega), List.take_nil]

/-! ### The write -/

/-- A flush with something to send: the runs are sent, and the cached content is dropped. -/
lemma flushWriteBack_eq_ok_of_ne {fs fs' : RacfsAsyncFs σ} {path : PathBuf}
    (hne : fs.cache.pending path ≠ [])
    (h : fs.flushWriteBack remote path = (.ok (), fs')) :
    ∃ sent, sendRuns remote path.toStringLossy
        (mergeWriteSegments ((fs.cache.pending path).map Segment.pair))
        { fs with cache := (fs.cache.takePendingWrites path).2 } = (.ok (), sent) ∧
      fs' = sent.invalidate path := by
  rw [RacfsAsyncFs.flushWriteBack] at h
  simp only [FuseCache.takePendingWrites_fst] at h
  rw [if_neg (by simpa using hne)] at h
  rcases hsend : sendRuns remote path.toStringLossy
      (mergeWriteSegments ((fs.cache.pending path).map Segment.pair))
      { fs with cache := (fs.cache.takePendingWrites path).2 } with ⟨_ | u, sent⟩
  · simp [hsend] at h
  · simp only [hsend, Prod.mk.injEq, true_and] at h
    exact ⟨sent, rfl, h.symm⟩

/-- A flush does not change the inodes. -/
lemma flushWriteBack_inodes {fs fs' : RacfsAsyncFs σ} {path : PathBuf}
    (h : fs.flushWriteBack remote path = (.ok (), fs')) : fs'.inodes = fs.inodes := by
  have hinodes := (@flushWriteBack_tables σ remote fs path).1
  rw [h] at hinodes
  exact hinodes

lemma getFileContent_invalidate (fs : RacfsAsyncFs σ) (path : PathBuf) :
    (fs.invalidate path).cache.getFileContent path = none :=
  AssocMap.get?_erase_self _ _

/-- The number of buffered bytes of a path. -/
def buffered (fs : RacfsAsyncFs σ) (path : PathBuf) : ℕ :=
  ((fs.cache.writeBack.get? path).map WriteBackEntry.totalBytes).getD 0

lemma pushWriteBack_fst (fs : RacfsAsyncFs σ) (path : PathBuf) (seg : Segment) :
    (fs.cache.pushWriteBack path seg).1 = buffered fs path + seg.data.length := by
  rw [buffered, FuseCache.pushWriteBack]
  cases fs.cache.writeBack.get? path <;> rfl

/-- The bytes are seen at their place after the write: it is sent on its own to an offset that
has a place in a file, or it is sent with the buffer and the text of the run that it is part of
has the bytes at its place, or it stays in the buffer and the bytes were there before. -/
def ReadsBack (content : σ → Bytes → Bytes) (fs : RacfsAsyncFs σ) (path : PathBuf)
    (offset : UInt64) (data : Bytes) : Prop :=
  if data.length ≤ DEFAULT_WRITE_BACK_MAX_CHUNK then
    if buffered fs path + data.length ≥ DEFAULT_WRITE_BACK_FLUSH_SIZE then
      data = [] ∨ offset.toNat < 2 ^ 63 ∧
        ∃ run ∈ mergeWriteSegments ((fs.cache.pending path).map Segment.pair ++ [(offset, data)]),
          Covers run (offset, data) ∧
            bytesAt (fromUtf8Lossy run.2) (offset.toNat - run.1.toNat) data.length = data
    else bytesAt (visible content fs path) offset.toNat data.length = data
  else offset.toNat < 2 ^ 63

/-- A write that stays in the buffer changes nothing that a reader sees. -/
lemma visible_of_buffered {fs fs₁ : RacfsAsyncFs σ} {ino offset : UInt64} {data : Bytes}
    {path : PathBuf} {n : UInt32} (hpath : fs.inodes.getPath ino = some path)
    (hshort : data.length ≤ DEFAULT_WRITE_BACK_MAX_CHUNK)
    (hfew : ¬ buffered fs path + data.length ≥ DEFAULT_WRITE_BACK_FLUSH_SIZE)
    (h : fs.writeAsync remote ino offset data = (.ok n, fs₁)) :
    fs₁.inodes = fs.inodes ∧ visible content fs₁ path = visible content fs path := by
  rw [writeAsync] at h
  simp only [hpath, if_pos hshort, pushWriteBack_fst, if_neg hfew, Prod.mk.injEq] at h
  rw [← h.2]
  exact ⟨rfl, rfl⟩

/-- After a write that is sent with the buffer a reader sees the texts of the runs. -/
lemma visible_of_flushed {fs fs₁ : RacfsAsyncFs σ} {ino offset : UInt64} {data : Bytes}
    {path : PathBuf} {n : UInt32} (hpath : fs.inodes.getPath ino = some path)
    (hshort : data.length ≤ DEFAULT_WRITE_BACK_MAX_CHUNK)
    (hmany : buffered fs path + data.length ≥ DEFAULT_WRITE_BACK_FLUSH_SIZE)
    (h : fs.writeAsync remote ino offset data = (.ok n, fs₁)) :
    fs₁.inodes = fs.inodes ∧ ∃ start sent, sendRuns remote path.toStringLossy
        (mergeWriteSegments ((fs.cache.pending path).map Segment.pair ++ [(offset, data)]))
        start = (.ok (), sent) ∧
      visible content fs₁ path = content sent.server path.toStringLossy := by
  rw [writeAsync] at h
  simp only [hpath, if_pos hshort, pushWriteBack_fst, if_pos hmany] at h
  have hpending : (fs.cache.pushWriteBack path ⟨offset, data, 0⟩).2.pending path =
      fs.cache.pending path ++ [⟨offset, data, 0⟩] := by
    rw [FuseCache.pending_pushWriteBack, if_pos (by simp)]
  rcases hflush : ({ fs with cache := (fs.cache.pushWriteBack path ⟨offset, data, 0⟩).2 } :
      RacfsAsyncFs σ).flushWriteBack remote path with ⟨_ | u, flushed⟩
  · simp [hflush] at h
  · simp only [hflush, Prod.mk.injEq] at h
    have hinodes := flushWriteBack_inodes hflush
    obtain ⟨sent, hsend, rfl⟩ := flushWriteBack_eq_ok_of_ne (by simp [hpending]) hflush
    simp only [hpending, List.map_append, List.map_singleton, Segment.pair] at hsend
    rw [← h.2]
    refine ⟨hinodes, _, sent, hsend, ?_⟩
    rw [visible, getFileContent_invalidate]
    rfl

/-- After a write that is sent on its own a reader sees its text in the file. -/
lemma visible_of_sent (hkeeps : KeepsText remote content) {fs fs₁ : RacfsAsyncFs σ}
    {ino offset : UInt64} {data : Bytes} {path : PathBuf} {n : UInt32}
    (hpath : fs.inodes.getPath ino = some path)
    (hlong : ¬ data.length ≤ DEFAULT_WRITE_BACK_MAX_CHUNK)
    (h : fs.writeAsync remote ino offset data = (.ok n, fs₁)) :
    fs₁.inodes = fs.inodes ∧ ∃ old s,
      Wrote old (fromUtf8Lossy data) offset.toInt64 (content s path.toStringLossy) ∧
      visible content fs₁ path = content s path.toStringLossy := by
  rw [writeAsync] at h
  simp only [hpath, if_neg hlong] at h
  rcases hflush : fs.flushWriteBack remote path with ⟨_ | u, flushed⟩
  · simp [hflush] at h
  · simp only [hflush] at h
    rcases hcall : flushed.call (remote.writeFile path.toStringLossy (fromUtf8Lossy data)
      (some offset.toInt64)) with ⟨_ | m, written⟩
    · simp [hcall] at h
    · simp only [hcall, Prod.mk.injEq] at h
      obtain ⟨server, hwrite, rfl⟩ := call_eq_ok hcall
      have hinodes := flushWriteBack_inodes hflush
      rw [← h.2]
      refine ⟨hinodes, _, server, hkeeps.write hwrite, ?_⟩
      rw [visible, getFileContent_invalidate]
      rfl

/-- When the runs have been sent, the place of a write has what the text of the run that covers
it has there. -/
lemma bytesAt_run (hkeeps : KeepsText remote content) {path : Bytes} {runs : List Run}
    {start sent : RacfsAsyncFs σ} (h : sendRuns remote path runs start = (.ok (), sent))
    (hapart : runs.Pairwise Apart) {run seg : Run} (hrun : run ∈ runs) (hcov : Covers run seg)
    (hoff : seg.1.toNat < 2 ^ 63) :
    bytesAt (content sent.server path) seg.1.toNat seg.2.length =
      bytesAt (fromUtf8Lossy run.2) (seg.1.toNat - run.1.toNat) seg.2.length := by
  obtain ⟨hle, hend⟩ := hcov
  have hat := sendRuns_bytesAt hkeeps h hapart hrun (by omega)
  have hinside : seg.1.toNat - run.1.toNat + seg.2.length ≤ run.2.length := by omega
  have hpart := bytesAt_of_take_eq hat hinside
  rwa [Nat.add_sub_cancel' hle] at hpart

/-- After a flush the bytes of a write are at their place exactly if the text of the run that
covers it has them at its place. -/
lemma bytesAt_flushed_iff (hkeeps : KeepsText remote content) {path : Bytes}
    {segs : List Run} {fs sent : RacfsAsyncFs σ} {offset : UInt64} {data : Bytes}
    (h : sendRuns remote path (mergeWriteSegments (segs ++ [(offset, data)])) fs = (.ok (), sent)) :
    bytesAt (content sent.server path) offset.toNat data.length = data ↔
      data = [] ∨ offset.toNat < 2 ^ 63 ∧
        ∃ run ∈ mergeWriteSegments (segs ++ [(offset, data)]), Covers run (offset, data) ∧
          bytesAt (fromUtf8Lossy run.2) (offset.toNat - run.1.toNat) data.length = data := by
  by_cases hnil : data = []
  · simp [hnil, bytesAt]
  by_cases hoff : offset.toNat < 2 ^ 63
  · have hrunOf : ∀ run ∈ mergeWriteSegments (segs ++ [(offset, data)]),
        Covers run (offset, data) →
          bytesAt (content sent.server path) offset.toNat data.length =
            bytesAt (fromUtf8Lossy run.2) (offset.toNat - run.1.toNat) data.length :=
      fun run hrun hcov => bytesAt_run hkeeps h (pairwise_apart_merge _) hrun hcov hoff
    constructor
    · intro hat
      have hmem : (offset, data) ∈ segs ++ [(offset, data)] := by simp
      obtain ⟨run, hrun, hcov⟩ := exists_covers_merge hmem
      refine Or.inr ⟨hoff, run, hrun, hcov, ?_⟩
      rw [← hrunOf run hrun hcov]
      exact hat
    · rintro (hdata | ⟨-, run, hrun, hcov, hat⟩)
      · exact absurd hdata hnil
      · exact (hrunOf run hrun hcov).trans hat
  · rw [bytesAt_content_eq_nil hkeeps _ _ hoff]
    refine iff_of_false (fun hdata => hnil hdata.symm) ?_
    rintro (hdata | ⟨hlt, -⟩)
    · exact hnil hdata
    · exact hoff hlt

/-- From every state, a write that succeeds and is read back at once is read as it was written
exactly under `ReadsBack`. -/
theorem read_write_iff (hkeeps : KeepsText remote content) {fs fs₁ fs₂ : RacfsAsyncFs σ}
    {ino offset : UInt64} {data bs : Bytes} {size n : UInt32} {path : PathBuf}
    (hpath : fs.inodes.getPath ino = some path) (hutf8 : isUtf8 data = true)
    (hsize : size.toNat = data.length)
    (hwrite : fs.writeAsync remote ino offset data = (.ok n, fs₁))
    (hread : fs₁.readAsync remote ino offset size = (.ok bs, fs₂)) :
    bs = data ↔ ReadsBack content fs path offset data := by
  -- what is read is what a reader sees after the write
  have hbs : fs₁.inodes = fs.inodes →
      bs = bytesAt (visible content fs₁ path) offset.toNat data.length := by
    intro hinodes
    rw [← hsize]
    exact readAsync_eq_ok hkeeps (by rw [hinodes]; exact hpath) hread
  rw [ReadsBack]
  split_ifs with hshort hmany
  · obtain ⟨hinodes, start, sent, hsend, hvisible⟩ :=
      @visible_of_flushed σ remote content _ _ _ _ _ _ _ hpath hshort hmany hwrite
    rw [hbs hinodes, hvisible]
    exact bytesAt_flushed_iff hkeeps hsend
  · obtain ⟨hinodes, hvisible⟩ :=
      @visible_of_buffered σ remote content _ _ _ _ _ _ _ hpath hshort hmany hwrite
    rw [hbs hinodes, hvisible]
  · obtain ⟨hinodes, old, s, hwrote, hvisible⟩ := visible_of_sent hkeeps hpath hshort hwrite
    rw [hbs hinodes, hvisible]
    rw [fromUtf8Lossy_of_isUtf8 hutf8] at hwrote
    constructor
    · intro h
      by_contra hoff
      rw [bytesAt_content_eq_nil hkeeps _ _ hoff] at h
      rw [← h] at hshort
      exact hshort (Nat.zero_le _)
    · intro hoff
      exact (hwrote.bytesAt_eq hoff).1

end

/-! ### An in-memory server -/

/-- A write that starts inside of the content keeps what lies before it and puts the data there. -/
lemma copyFromSlice_grown {old data : Bytes} {start : ℕ} (hstart : start < old.length) :
    (copyFromSlice (if start + data.length > old.length then resize old (start + data.length)
      else old) start data).take start = resize old start ∧
    ((copyFromSlice (if start + data.length > old.length then resize old (start + data.length)
      else old) start data).drop start).take data.length = data := by
  set grown := if start + data.length > old.length then resize old (start + data.length) else old
    with hgrown
  have hold : resize old start = old.take start := by
    rw [resize, Nat.sub_eq_zero_of_le (by omega), List.replicate_zero, List.append_nil]
  have htake : grown.take start = old.take start := by
    rw [hgrown]
    split_ifs
    · rw [resize, List.take_append_of_le_length (by rw [List.length_take]; omega),
        List.take_take, min_eq_left (by omega)]
    · rfl
  have hlen : (old.take start).length = start := by
    rw [List.length_take]
    omega
  rw [copyFromSlice, htake, hold, List.append_assoc]
  refine ⟨List.take_left' hlen, ?_⟩
  rw [List.drop_left' hlen, List.take_left' rfl]

/-- The in-memory filesystem keeps texts. -/
lemma wrote_writeData {old : Bytes} (hold : old.length < 2 ^ 63) (data : Bytes) (offset : UInt64) :
    Wrote old data offset.toInt64 (MemFs.MemFS.writeData old data offset.toInt64 .NONE) := by
  have hiff := toInt64_nonneg_iff offset
  have hmax : max offset.toInt64 0 = if offset.toInt64 ≤ 0 then 0 else offset.toInt64 := rfl
  have hzero : 0 ≤ offset.toInt64 → offset.toInt64 ≤ 0 → offset = 0 := by
    intro hle hge
    have heq := congrArg Int64.toUInt64 (Int64.le_antisymm hge hle)
    rwa [UInt64.toUInt64_toInt64] at heq
  rw [Wrote, MemFs.MemFS.writeData, UInt64.toUInt64_toInt64, hmax]
  by_cases hpos : 0 ≤ offset.toInt64
  · rw [if_pos hpos]
    by_cases hbehind : offset.toNat ≥ old.length
    · have hstop : (if offset.toInt64 ≤ 0 then 0 else offset.toInt64).toUInt64 = offset := by
        split_ifs with h
        · exact (hzero hpos h).symm
        · exact UInt64.toUInt64_toInt64 offset
      have hpad : (if offset.toNat > old.length then resize old offset.toNat else old) =
          resize old offset.toNat := by
        split_ifs with h
        · rfl
        · have heq : offset.toNat = old.length := by omega
          simp [resize, heq]
      simp only [hbehind, or_true, if_true, hstop, hpad]
      refine ⟨List.take_left' (length_resize _ _), ?_⟩
      rw [List.drop_left' (length_resize _ _), List.take_length]
    · have hnoAppend : WriteFlags.NONE.containsAppend = false := rfl
      rw [if_neg (by simpa [hnoAppend] using hbehind)]
      by_cases hstart : offset.toInt64 ≤ 0
      · rw [if_pos hstart, hzero hpos hstart]
        simp [resize]
      · have hinside : ¬ offset.toNat > old.length := by omega
        simp only [if_neg hstart, if_neg hinside]
        exact copyFromSlice_grown (by omega)
  · have hbig : 2 ^ 63 ≤ offset.toNat := not_lt.1 fun h => hpos (hiff.2 h)
    have hbehind : offset.toNat ≥ old.length := by omega
    have hneg : offset.toInt64 ≤ 0 := Int64.le_of_lt (Int64.not_le.1 hpos)
    have hstop : (0 : Int64).toUInt64.toNat = 0 := rfl
    rw [if_neg hpos, if_pos (Or.inr hbehind), if_pos hneg, hstop]
    simp only [gt_iff_lt, Nat.not_lt_zero, if_false]
    exact List.prefix_append old data

/-- The texts of the files of an in-memory server. -/
structure Texts where
  text : Bytes → Bytes
  length_lt : ∀ path, (text path).length < 2 ^ 63

namespace Texts

/-- Every file is empty. -/
def empty : Texts := ⟨fun _ => [], fun _ => by decide⟩

/-- Write to a file, as the in-memory filesystem does; a file that would become too long is not
written. -/
def write (s : Texts) (path text : Bytes) (offset : Int64) : Except Client.Error Bytes × Texts :=
  let new := MemFs.MemFS.writeData (s.text path) text offset .NONE
  if h : new.length < 2 ^ 63 then
    (.ok [],
      { text := Function.update s.text path new
        length_lt := fun p => by
          by_cases hp : p = path
          · rw [hp, Function.update_self]
            exact h
          · rw [Function.update_of_ne hp]
            exact s.length_lt p })
  else (.error .Http, s)

/-- The calls for contents on this server; the others fail. -/
def remote : Remote Texts where
  stat _ s := (.error .Http, s)
  readDir _ s := (.error .Http, s)
  readFile path s := (.ok (s.text path), s)
  writeFile path data offset s := s.write path data (offset.getD 0)
  createFile _ s := (.error .Http, s)
  mkdir _ _ s := (.error .Http, s)
  remove _ s := (.error .Http, s)
  rename _ _ s := (.error .Http, s)
  chmod _ _ s := (.error .Http, s)
  truncate _ _ s := (.error .Http, s)
  symlink _ _ s := (.error .Http, s)

lemma keepsText_remote : KeepsText remote Texts.text where
  length_lt s path := s.length_lt path
  read h := (Except.ok.inj (Prod.mk.inj h).1).symm
  write := by
    intro s s' path text offset m h
    simp only [remote, write, Option.getD_some] at h
    split_ifs at h with hlen
    · obtain ⟨-, rfl⟩ := Prod.mk.inj h
      simp only [Function.update_self]
      exact wrote_writeData (s.length_lt path) text offset.toUInt64
    · simp at h

/-- A client with the file `/f` as inode 2, on a server with empty files. -/
def client : RacfsAsyncFs Texts :=
  { RacfsAsyncFs.new 1 empty with inodes := (InodeManager.new.allocate ⟨ascii "/f"⟩).2 }

/-- The same client after it has read the content `x` of `/f`. -/
def reader : RacfsAsyncFs Texts :=
  { client with cache := client.cache.putFileContent ⟨ascii "/f"⟩ (ascii "x") }

end Texts

/-- The bytes that are there are written again, and are read. -/
theorem read_write_iff_again :
    ∃ fs₁ fs₂, Texts.reader.writeAsync Texts.remote 2 0 (ascii "x") = (.ok 1, fs₁) ∧
      fs₁.readAsync Texts.remote 2 0 1 = (.ok (ascii "x"), fs₂) ∧
      (ascii "x" = ascii "x" ↔
        ReadsBack Texts.text Texts.reader ⟨ascii "/f"⟩ 0 (ascii "x")) := by
  let written := (Texts.reader.writeAsync Texts.remote 2 0 (ascii "x")).2
  have hwrite : Texts.reader.writeAsync Texts.remote 2 0 (ascii "x") = (.ok 1, written) := rfl
  have hread : written.readAsync Texts.remote 2 0 1 =
      (.ok (ascii "x"), (written.readAsync Texts.remote 2 0 1).2) := rfl
  exact ⟨_, _, hwrite, hread,
    read_write_iff Texts.keepsText_remote rfl (by decide) rfl hwrite hread⟩

/-- A byte is written to an empty file and is not read. -/
theorem not_read_write_x :
    ∃ fs₁ fs₂, KeepsText Texts.remote Texts.text ∧ isUtf8 (ascii "x") = true ∧
      Texts.client.writeAsync Texts.remote 2 0 (ascii "x") = (.ok 1, fs₁) ∧
      fs₁.readAsync Texts.remote 2 0 1 = (.ok [], fs₂) ∧ ascii "x" ≠ [] :=
  ⟨_, _, Texts.keepsText_remote, by decide, rfl, rfl, by decide⟩

end Racfs.Fuse
