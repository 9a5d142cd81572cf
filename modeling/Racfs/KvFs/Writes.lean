/-
# What a write leaves in a file

Both backends change the content of a file with the same three branches (`writeData`).  In
append mode the data come after the content, and a write at the end or past it fills the gap
with zeros.  A write that begins inside of the content replaces a range of it with as many bytes
as there are data: `Vec::splice` panics when the range goes past the end.  So a write does what
it should exactly if it does not straddle the end of the file (`write_over_iff`).
-/
import Racfs.KvFs.Model
import Racfs.Lib.Overlay

namespace Racfs.KvFs

variable {old data : Bytes} {offset : Int64} {flags : WriteFlags}

/-- The content that a write should leave. -/
def writtenOver (old data : Bytes) (offset : Int64) (flags : WriteFlags) : Bytes :=
  if flags.containsAppend then old ++ data else overlay old (offset.toUInt64.toNat, data)

/-- The write does not straddle the end of the content: it appends, it begins at the end or past
it, or it ends inside of the content. -/
def OnOneSide (old data : Bytes) (offset : Int64) (flags : WriteFlags) : Prop :=
  flags.containsAppend = true ∨ old.length ≤ offset.toUInt64.toNat ∨
    offset.toUInt64.toNat + data.length ≤ old.length

lemma writeData_of_onOneSide (h : OnOneSide old data offset flags) :
    writeData old data offset flags = .ok (writtenOver old data offset flags) := by
  rw [writeData, writtenOver]
  by_cases happend : flags.containsAppend = true
  · simp only [if_pos happend]
  · simp only [if_neg happend]
    rcases h with h | hend | hinside
    · exact absurd h happend
    · rw [if_pos hend, overlay_of_le hend]
    · by_cases hend : offset.toUInt64.toNat ≥ old.length
      · rw [if_pos hend, overlay_of_le hend]
      · rw [if_neg hend, if_pos hinside, overlay_of_inside hinside]

lemma writeData_of_straddles (h : ¬ OnOneSide old data offset flags) :
    writeData old data offset flags = .panic := by
  simp only [OnOneSide, not_or] at h
  obtain ⟨happend, hend, hinside⟩ := h
  rw [writeData]
  simp only [if_neg happend]
  rw [if_neg hend, if_neg hinside]

/-! ### The two backends -/

/-- The content of a file. -/
def KvMemory.content (fs : KvMemory) (path : PathBuf) : Option Bytes := fs.store.get? path

/-- The content of a file. -/
def KvSqlite.content (fs : KvSqlite) (path : PathBuf) : Option Bytes :=
  match pathToStr path with
  | .ok text => (fs.fileRow text).map KvRow.data
  | _ => none

lemma KvMemory.write_of_content {fs : KvMemory} {path : PathBuf}
    (h : fs.content path = some old) :
    (∀ new, writeData old data offset flags = .ok new →
      (fs.write path data offset flags).1 = .ok (.written data.length.toUInt64) ∧
        (fs.write path data offset flags).2.content path = some new) ∧
    (writeData old data offset flags = .panic → (fs.write path data offset flags).1 = .panic) := by
  rw [write_of_some h]
  refine ⟨fun new hnew => ?_, fun hpanic => ?_⟩
  · rw [hnew]
    refine ⟨rfl, ?_⟩
    rw [content] at h ⊢
    simp only [AssocMap.get?_modify, BEq.rfl, if_true, h, Option.map_some]
  · rw [hpanic]

lemma KvSqlite.exists_of_content {fs : KvSqlite} {path : PathBuf}
    (h : fs.content path = some old) :
    ∃ text row, pathToStr path = .ok text ∧ fs.rows.get? text = some row ∧ row.isDir = false ∧
      row.data = old := by
  rw [content] at h
  split at h
  · next text htext =>
    obtain ⟨row, hrow, hdata⟩ := Option.map_eq_some_iff.1 h
    rw [fileRow, Option.filter_eq_some_iff] at hrow
    exact ⟨text, row, htext, hrow.1, by simpa using hrow.2, hdata⟩
  · cases h

lemma KvSqlite.write_of_content {fs : KvSqlite} {path : PathBuf}
    (h : fs.content path = some old) :
    (∀ new, writeData old data offset flags = .ok new →
      (fs.write path data offset flags).1 = .ok (.written data.length.toUInt64) ∧
        (fs.write path data offset flags).2.content path = some new) ∧
    (writeData old data offset flags = .panic → (fs.write path data offset flags).1 = .panic) := by
  obtain ⟨text, row, htext, hrow, hdir, hdata⟩ := exists_of_content h
  have hfile : fs.fileRow text = some row := by
    rw [fileRow, hrow, Option.filter_some, hdir]
    rfl
  refine ⟨fun new hnew => ?_, fun hpanic => ?_⟩
  · rw [write, withPath, htext]
    simp only [hfile, hdata, hnew, execute_updateRow, true_and]
    rw [content, htext]
    simp only [fileRow, AssocMap.get?_modify, BEq.rfl, if_true, hrow, Option.map_some,
      Option.filter_some, hdir, Bool.not_false]
  · rw [write, withPath, htext]
    simp only [hfile, hdata, hpanic]

/-- The file `/f` with the content `abc`, in memory. -/
def abcMemory : KvMemory :=
  let fs := (KvMemory.new.create ⟨ascii "/f"⟩ 0).2
  (fs.write ⟨ascii "/f"⟩ (ascii "abc") 0 .NONE).2

/-- The file `/f` with the content `abc`, in a database. -/
def abcSqlite : KvSqlite :=
  let fs := (KvSqlite.new.create ⟨ascii "/f"⟩).2
  (fs.write ⟨ascii "/f"⟩ (ascii "abc") 0 .NONE).2

end Racfs.KvFs
