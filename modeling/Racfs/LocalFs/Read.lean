/-
# Reading from a local file

A read of `LocalFS` opens the file, seeks to the offset, and makes one call of the machine's `read`
with a buffer of the requested size; for a negative size, by which the trait means all that is left,
the buffer has 64 KiB.  What one such call returns is up to the machine: at most what fits into the
buffer and what is left of the file, and possibly less.  So what was asked for is returned exactly
when the call fills the buffer or comes to the end of the file, and, if all of the rest was asked
for, the rest is not longer than 64 KiB (`read_iff`).

There is memory for every buffer, and the blocking task does not panic, so that it can be joined.
-/
import Racfs.Lib.Offset
import Racfs.LocalFs.Resolve

namespace Racfs.LocalFs

/-- An open file. -/
structure File where
  content : Bytes
  position : ℕ

/-- What the machine does with files.  The calls can fail, with a message. -/
structure Machine where
  openFile : PathBuf → Except String File
  /-- `seek` to a position from the start. -/
  seek : File → ℕ → Except String File
  /-- `read` into a buffer: the number of bytes, and the buffer after it. -/
  read : File → Bytes → Except String (ℕ × Bytes)

/-- What is documented of these calls: a file is opened at its beginning, a successful seek sets
the position, and a successful read puts bytes of the file from the position on at the beginning of
the buffer, as many as it says, and not more than there are. -/
structure Machine.Lawful (m : Machine) : Prop where
  openFile : ∀ p f, m.openFile p = .ok f → f.position = 0
  seek : ∀ f n f', m.seek f n = .ok f' → f' = { f with position := n }
  read : ∀ f buffer n buffer', m.read f buffer = .ok (n, buffer') →
    n ≤ buffer.length ∧ n ≤ f.content.length - f.position ∧
      buffer'.take n = (f.content.drop f.position).take n

/-- One read fills the buffer or comes to the end of the file. -/
def Machine.ReadsThrough (m : Machine) (f : File) (room : ℕ) : Prop :=
  ∃ buffer, m.read f (List.replicate room 0) =
    .ok (min room (f.content.length - f.position), buffer)

/-- The size of the buffer for a read. -/
def bufferSize (size : Int64) : ℕ := if size < 0 then 64 * 1024 else size.toUInt64.toNat

/-- Go to an offset, unless it is the beginning. -/
def Machine.goTo (m : Machine) (file : File) (offset : Int64) : Except FSError File :=
  if offset > 0 then (m.seek file offset.toUInt64.toNat).mapError .Io else .ok file

/-- What a read is meant to return: all that is left from the offset on for a negative size, and
otherwise as much of it as was asked for. -/
def remaining (content : Bytes) (offset size : Int64) : Bytes :=
  if size < 0 then content.drop offset.toInt.toNat
  else (content.drop offset.toInt.toNat).take size.toInt.toNat

/-- A machine with a file at every path, whose reads fill the buffer or come to the end. -/
def Machine.disk (content : Bytes) : Machine where
  openFile _ := .ok ⟨content, 0⟩
  seek f n := .ok { f with position := n }
  read f buffer :=
    let bytes := (f.content.drop f.position).take buffer.length
    .ok (bytes.length, bytes ++ buffer.drop bytes.length)

lemma Machine.lawful_disk (content : Bytes) : (Machine.disk content).Lawful where
  openFile := by
    rintro p f h
    rw [← Except.ok.inj h]
  seek := by
    rintro f n f' h
    exact (Except.ok.inj h).symm
  read := by
    rintro f buffer n buffer' h
    obtain ⟨rfl, rfl⟩ := Prod.mk.inj (Except.ok.inj h)
    simp only [List.length_take, List.length_drop]
    refine ⟨Nat.min_le_left _ _, Nat.min_le_right _ _, ?_⟩
    rw [List.take_append_of_le_length (by simp), List.take_take]
    congr 1
    omega

lemma Machine.readsThrough_disk (content : Bytes) (f : File) (room : ℕ) :
    (Machine.disk content).ReadsThrough f room := by
  let bytes := (f.content.drop f.position).take room
  have hlen : bytes.length = min room (f.content.length - f.position) := by simp [bytes]
  refine ⟨bytes ++ (List.replicate room 0).drop bytes.length, ?_⟩
  rw [disk, ← hlen]
  simp [bytes]

namespace LocalFS

/-- Read from a file. -/
def read (m : Machine) (fs : LocalFS) (path : PathBuf) (offset size : Int64) :
    Except FSError Bytes := do
  let resolved ← fs.resolve path
  let file ← (m.openFile resolved).mapError .Io
  let file ← m.goTo file offset
  let buffer := List.replicate (bufferSize size) 0
  let (bytesRead, buffer) ← (m.read file buffer).mapError .Io
  .ok (buffer.take bytesRead)

variable {m : Machine} {fs : LocalFS} {path p : PathBuf} {f : File} {offset size : Int64}

/-- A read is one call from the offset. -/
lemma read_eq (hm : m.Lawful) (hresolve : fs.resolve path = .ok p) (hopen : m.openFile p = .ok f)
    (hoffset : 0 ≤ offset)
    (hseek : 0 < offset → ∃ f', m.seek f offset.toUInt64.toNat = .ok f') :
    fs.read m path offset size =
      match m.read ⟨f.content, offset.toInt.toNat⟩ (List.replicate (bufferSize size) 0) with
      | .ok (n, buffer) => .ok (buffer.take n)
      | .error e => .error (.Io e) := by
  have hfile : m.goTo f offset = .ok ⟨f.content, offset.toInt.toNat⟩ := by
    rw [Machine.goTo]
    split_ifs with hpos
    · obtain ⟨f', hf'⟩ := hseek hpos
      rw [hf', hm.seek _ _ _ hf', Offset.toNat_of_nonneg hoffset]
      rfl
    · have hzero : offset.toInt.toNat = 0 := by
        have hle : offset ≤ 0 := Int64.not_lt.1 hpos
        rw [Int.toNat_of_nonpos (Int64.le_iff_toInt_le.1 hle)]
      rw [hzero, ← hm.openFile p f hopen]
  rw [read, hresolve]
  simp only [bind, Except.bind, hopen, Except.mapError, hfile]
  cases m.read ⟨f.content, offset.toInt.toNat⟩ (List.replicate (bufferSize size) 0) <;> rfl

/-- A read by its one call. -/
lemma read_eq_remaining_iff (hm : m.Lawful) (hresolve : fs.resolve path = .ok p)
    (hopen : m.openFile p = .ok f) (hoffset : 0 ≤ offset)
    (hseek : 0 < offset → ∃ f', m.seek f offset.toUInt64.toNat = .ok f') :
    fs.read m path offset size = .ok (remaining f.content offset size) ↔
      m.ReadsThrough ⟨f.content, offset.toInt.toNat⟩ (bufferSize size) ∧
      (size < 0 → f.content.length - offset.toInt.toNat ≤ 64 * 1024) := by
  rw [read_eq hm hresolve hopen hoffset hseek, Machine.ReadsThrough]
  cases hread : m.read ⟨f.content, offset.toInt.toNat⟩ (List.replicate (bufferSize size) 0) with
  | error e =>
    refine iff_of_false nofun ?_
    rintro ⟨⟨buffer, h⟩, -⟩
    cases h
  | ok r =>
    obtain ⟨n, buffer⟩ := r
    obtain ⟨hroom, hleft, htake⟩ := hm.read _ _ _ _ hread
    rw [List.length_replicate] at hroom
    dsimp only at hleft htake ⊢
    have hthrough : (∃ buffer', (Except.ok (n, buffer) : Except String (ℕ × Bytes)) =
        .ok (min (bufferSize size) (f.content.length - offset.toInt.toNat), buffer')) ↔
          n = min (bufferSize size) (f.content.length - offset.toInt.toNat) := by
      simp
    rw [hthrough, Except.ok.injEq, htake, remaining, bufferSize]
    rw [bufferSize] at hroom
    split_ifs at hroom ⊢ with hneg
    · rw [List.take_eq_self_iff, List.length_drop]
      simp only [hneg, forall_true_left]
      omega
    · have hsize : size.toUInt64.toNat = size.toInt.toNat :=
        Offset.toNat_of_nonneg (Int64.not_lt.1 hneg)
      rw [hsize] at hroom ⊢
      rw [List.take_eq_take_iff, List.length_drop]
      simp only [hneg, false_implies, and_true]
      omega

/-- For every content of a file, every offset that is not negative and every size, a read returns
what was asked for if and only if the call of the machine fills the buffer or comes to the end,
and no more than 64 KiB are left if all of them were asked for. -/
theorem read_iff (hm : m.Lawful) (hresolve : fs.resolve path = .ok p)
    (hopen : m.openFile p = .ok f) (hoffset : 0 ≤ offset)
    (hseek : 0 < offset → ∃ f', m.seek f offset.toUInt64.toNat = .ok f') :
    fs.read m path offset size = .ok (remaining f.content offset size) ↔
      m.ReadsThrough ⟨f.content, offset.toInt.toNat⟩ (bufferSize size) ∧
      (size < 0 → f.content.length - offset.toInt.toNat ≤ 64 * 1024) :=
  read_eq_remaining_iff hm hresolve hopen hoffset hseek

/-- A file that is read from its second byte on. -/
theorem read_abc : (LocalFS.mk ⟨ascii "/srv"⟩).read (.disk (ascii "abc")) ⟨ascii "/x"⟩ 1 (-1) =
    .ok (remaining (ascii "abc") 1 (-1)) :=
  (read_iff (Machine.lawful_disk _) rfl rfl (by decide) fun _ => ⟨_, rfl⟩).2
    ⟨Machine.readsThrough_disk _ _ _, by decide⟩

/-- All of a file is read if and only if it is not longer than 64 KiB. -/
theorem read_whole_iff (hresolve : fs.resolve path = .ok p) (content : Bytes) :
    fs.read (.disk content) path 0 (-1) = .ok content ↔ content.length ≤ 64 * 1024 := by
  have hwhole : remaining content 0 (-1) = content := if_pos (by decide)
  have hiff : fs.read (.disk content) path 0 (-1) = .ok (remaining content 0 (-1)) ↔ _ :=
    read_eq_remaining_iff (Machine.lawful_disk content) hresolve rfl (by decide) fun _ => ⟨_, rfl⟩
  rw [hwhole] at hiff
  rw [hiff, and_iff_right (Machine.readsThrough_disk _ _ _)]
  exact ⟨fun h => h (by decide), fun h _ => h⟩

/-- A file of 65537 bytes is read without its last byte. -/
theorem read_loses_byte :
    (LocalFS.mk ⟨ascii "/srv"⟩).read (.disk (List.replicate 65537 0)) ⟨ascii "/x"⟩ 0 (-1) =
      .ok (List.replicate 65536 0) ∧
    (LocalFS.mk ⟨ascii "/srv"⟩).read (.disk (List.replicate 65537 0)) ⟨ascii "/x"⟩ 0 (-1) ≠
      .ok (remaining (List.replicate 65537 0) 0 (-1)) := by
  have hread : (LocalFS.mk ⟨ascii "/srv"⟩).read (.disk (List.replicate 65537 0)) ⟨ascii "/x"⟩ 0
      (-1) = .ok (List.replicate 65536 0) := by
    rw [read_eq (Machine.lawful_disk _) rfl rfl (by decide) fun _ => ⟨_, rfl⟩]
    have hneg : (-1 : Int64) < 0 := by decide
    have hzero : (0 : Int64).toInt.toNat = 0 := by decide
    simp only [Machine.disk, bufferSize, if_pos hneg, hzero, List.drop_zero, List.take_replicate,
      List.length_replicate]
    rw [List.take_append_of_le_length (by rw [List.length_replicate]), List.take_replicate]
    congr 2
  refine ⟨hread, fun h => ?_⟩
  have hlen := congrArg List.length (Except.ok.inj (hread.symm.trans h))
  rw [remaining, if_pos (by decide), List.length_drop, List.length_replicate,
    List.length_replicate] at hlen
  revert hlen
  decide

end LocalFS

end Racfs.LocalFs
