/-
# What a write leaves in a file

`write` of `MemFS` has four branches, by the flags and by the offset, which it compares with the
length of the file as an unsigned word.  At an offset behind the first byte, the bytes are
written over the content, as `Racfs.overlay` says.  A write at the offset zero is different: it
replaces the whole content.  In append mode the bytes come after the content, if the offset is
not past its end.
-/
import Racfs.MemFs.Model
import Racfs.Lib.Offset
import Racfs.Lib.Overlay

namespace Racfs.MemFs

open MemFS

variable {old data : Bytes} {offset : Int64} {flags : WriteFlags}

lemma writeData_of_pos (hflags : flags.containsAppend = false) (hpos : 0 < offset) :
    writeData old data offset flags = overlay old (offset.toUInt64.toNat, data) := by
  have hnonneg : ¬ offset ≤ 0 := Int64.not_le.2 hpos
  have hmax : (max offset 0).toUInt64.toNat = offset.toUInt64.toNat := by
    rw [Offset.toNat_max, Offset.toNat_of_nonneg (Int64.le_of_lt hpos)]
  rw [writeData, hmax, hflags]
  by_cases hend : offset.toUInt64.toNat ≥ old.length
  · have hresize : (if offset.toUInt64.toNat > old.length then resize old offset.toUInt64.toNat
        else old) = resize old offset.toUInt64.toNat := by
      split_ifs with hgap
      · rfl
      · rw [Nat.le_antisymm (not_lt.1 hgap) hend, resize, List.take_length]
        simp
    rw [if_pos (Or.inr hend), overlay_of_le hend]
    exact congrArg (· ++ data) hresize
  · -- no gap inside of the content
    rw [if_neg (by simp [hend]), if_neg hnonneg, overlay]
    simp only [if_neg fun hgap => hend (Nat.le_of_lt hgap)]

/-- A write at the beginning replaces the content, however short it is. -/
lemma writeData_zero (hflags : flags.containsAppend = false) :
    writeData old data 0 flags = data := by
  have hzero : (0 : Int64).toUInt64.toNat = 0 := rfl
  have hmax : (max (0 : Int64) 0).toUInt64.toNat = 0 := rfl
  rw [writeData, hmax, hzero, hflags]
  by_cases hnil : old = []
  · simp [hnil]
  · have hlen : ¬ 0 ≥ old.length := by simpa using hnil
    rw [if_neg (by simp [hnil]), if_pos (Int64.le_refl 0)]

lemma writeData_append (hflags : flags.containsAppend = true)
    (hend : offset.toInt ≤ old.length) : writeData old data offset flags = old ++ data := by
  have hgap : ¬ offset.toInt.toNat > old.length := by omega
  rw [writeData, if_pos (Or.inl hflags), Offset.toNat_max]
  simp only [if_neg hgap]

/-- A write to a regular file, and what is read after it. -/
lemma read_write {fs : MemFS} {p : PathBuf} {e : FileEntry} (he : fs.files.get? p = some e)
    (hdir : e.metadata.isDirectory = false) (hlink : e.isSymlink = false) (data : Bytes)
    (offset : Int64) (flags : WriteFlags) (now : DateTime) :
    (fs.write p data offset flags now).1 = .ok (.written data.length.toUInt64) ∧
      (fs.write p data offset flags now).2.read p 0 (-1) =
        .ok (writeData e.data data offset flags) := by
  have hentry : fs.getEntry p = .ok e := by simp [getEntry, he]
  simp only [write, updateEntry, check_of_ok hentry, hdir, Bool.false_eq_true, if_false,
    check_of_ok rfl, true_and]
  have hafter : ∀ e', (fs.files.modify p fun _ => e').get? p = some e' := by
    intro e'
    rw [AssocMap.get?_modify, if_pos BEq.rfl, he, Option.map_some]
  have hdir' : FileMetadata.isDirectory
      { e.metadata with
        size := (writeData e.data data offset flags).length.toUInt64
        modified := some now } = false := hdir
  simp only [MemFS.read, readAux, getEntry, hafter, Outcome.ok_bind, hdir', Bool.false_eq_true,
    if_false, hlink, readData_whole]

/-- A filesystem with the file `/f`, whose content is `abc`. -/
def abcFile : MemFS :=
  let fs := ((MemFS.new 0).create ⟨ascii "/f"⟩ 0).2
  (fs.write ⟨ascii "/f"⟩ (ascii "abc") 0 .NONE 0).2

end Racfs.MemFs
