/-
# The size limit of the filesystem in a SQL database

No file should have more bytes than the configuration allows, and a call that would make a
file longer should fail and leave the table alone.  `write` only checks the length of the data
that it is given, and `truncate` checks nothing.

Apart from these two, every operation keeps the contents of the files or makes empty ones
(`Keeps`), so the limit holds in all states of a run exactly when no call gets past the checks
with a content that is too long (`limited_iff`).
-/
import Racfs.SqlFs.Model
import Racfs.Lib.Run

namespace Racfs.SqlFs

/-! ### The limit -/

/-- The content that a call is about to give to a file: its path, and what it makes of the old
content. -/
def SqlOp.edit : SqlOp → Option (PathBuf × (Bytes → Bytes))
  | .write path data offset flags => some (path, fun old => SqlFS.writeData old data offset flags)
  | .truncate path size => some (path, fun old => resize old size.toNat)
  | _ => none

namespace SqlFS

/-- A file that a path stands for: its text and its row. -/
structure FileAt (fs : SqlFS) (path : PathBuf) (text : Bytes) (row : FileRow) : Prop where
  text_eq : pathToStr path = .ok text
  row_eq : fs.files.get? text = some row
  isFile : row.isDir = false

/-- All files are within the limit. -/
def Within (fs : SqlFS) : Prop :=
  ∀ text row, fs.files.get? text = some row → row.isDir = false →
    row.content.length ≤ fs.config.maxFileSize

/-- A call would make a file too long. -/
def WouldExceed (fs : SqlFS) (op : SqlOp) : Prop :=
  ∃ path f text row, op.edit = some (path, f) ∧ fs.FileAt path text row ∧
    fs.config.maxFileSize < (f row.content).length

/-- A filesystem, with the last call, what it was made on and its result. -/
structure Logged where
  fs : SqlFS
  last : Option (SqlFS × SqlOp × Outcome Reply)

/-- One call, at a time. -/
def logStep (s : Logged) (c : SqlOp × DateTime) : Option Logged :=
  some ⟨(s.fs.exec c.2 c.1).2, some (s.fs, c.1, (s.fs.exec c.2 c.1).1)⟩

/-- All files are within the limit, and the last call, if it would have made a file too long,
has failed and left the table alone. -/
def Limited (s : Logged) : Prop :=
  s.fs.Within ∧ ∀ before op r, s.last = some (before, op, r) → before.WouldExceed op →
    r.isErr = true ∧ s.fs.files = before.files

/-- The calls that the checks are enough for: a write that would make the file too long has
data that is too long by itself, and no call truncates a file to more than the limit.  What
the database refuses does not matter. -/
def Covered (s : Logged) (c : SqlOp × DateTime) : Prop :=
  match c.1 with
  | .write path data offset flags =>
    ∀ text row, s.fs.FileAt path text row →
      s.fs.config.maxFileSize < (writeData row.content data offset flags).length →
      s.fs.config.maxFileSize < data.length ∨
        s.fs.fits text (row.written (writeData row.content data offset flags) c.2) = false
  | .truncate path size =>
    ∀ text row, s.fs.FileAt path text row → s.fs.config.maxFileSize < size.toNat →
      s.fs.fits text (row.truncated (resize row.content size.toNat) c.2) = false
  | _ => True

/-! ### The operations that keep contents -/

/-- Every file was there before, perhaps under another path, or is empty. -/
structure Keeps (fs fs' : SqlFS) : Prop where
  config : fs'.config = fs.config
  rows : ∀ text row, fs'.files.get? text = some row → row.isDir = false →
    row.content = [] ∨ ∃ text' row', fs.files.get? text' = some row' ∧ row'.isDir = false ∧
      row.content = row'.content

variable {fs fs' fs'' : SqlFS}

lemma Keeps.refl (fs : SqlFS) : Keeps fs fs := ⟨rfl, fun text row h hfile =>
  Or.inr ⟨text, row, h, hfile, rfl⟩⟩

lemma Keeps.trans (h : Keeps fs fs') (h' : Keeps fs' fs'') : Keeps fs fs'' := by
  refine ⟨h'.config.trans h.config, fun text row hrow hfile => ?_⟩
  rcases h'.rows text row hrow hfile with hnil | ⟨text', row', hrow', hfile', heq⟩
  · exact Or.inl hnil
  · rcases h.rows text' row' hrow' hfile' with hnil | ⟨text'', row'', hrow'', hfile'', heq'⟩
    · exact Or.inl (heq.trans hnil)
    · exact Or.inr ⟨text'', row'', hrow'', hfile'', heq.trans heq'⟩

lemma Keeps.within (h : Keeps fs fs') (hin : fs.Within) : fs'.Within := by
  intro text row hrow hfile
  rw [h.config]
  rcases h.rows text row hrow hfile with hnil | ⟨text', row', hrow', hfile', heq⟩
  · rw [hnil]
    exact Nat.zero_le _
  · rw [heq]
    exact hin text' row' hrow' hfile'

/-- Rows that were there before keep the contents. -/
lemma keeps_of_get? {files : AssocMap Bytes FileRow}
    (h : ∀ text row, files.get? text = some row → ∃ text', fs.files.get? text' = some row) :
    Keeps fs { fs with files } := by
  refine ⟨rfl, fun text row hrow hfile => ?_⟩
  obtain ⟨text', hrow'⟩ := h text row hrow
  exact Or.inr ⟨text', row, hrow', hfile, rfl⟩

/-- An insertion of a row without content. -/
lemma keeps_of_insertRow {files : AssocMap Bytes FileRow} {text : Bytes} {row : FileRow}
    (h : Sql.insertRow fs.fits fs.files text row = .ok files) (hrow : row.content = []) :
    Keeps fs { fs with files } := by
  refine ⟨rfl, fun a w hw hfile => ?_⟩
  rcases Sql.get?_of_insertRow h hw with hold | rfl
  · exact Or.inr ⟨a, w, hold, hfile, rfl⟩
  · exact Or.inl hrow

/-- A change that leaves the type and the content of a row alone. -/
lemma keeps_of_updateRow {files : AssocMap Bytes FileRow} {text : Bytes} {f : FileRow → FileRow}
    (h : Sql.updateRow fs.fits fs.files text f = .ok files)
    (hf : ∀ row, (f row).isDir = row.isDir ∧ (f row).content = row.content) :
    Keeps fs { fs with files } := by
  refine ⟨rfl, fun a w hw hfile => ?_⟩
  rcases Sql.get?_of_updateRow h hw with hold | ⟨row, hold, rfl⟩
  · exact Or.inr ⟨a, w, hold, hfile, rfl⟩
  · exact Or.inr ⟨a, row, hold, (hf row).1.symm.trans hfile, (hf row).2⟩

lemma check_keeps {α : Type*} {x : Outcome α} {f : α → Outcome Reply × SqlFS}
    (h : ∀ a, x = .ok a → Keeps fs (f a).2) : Keeps fs (fs.check x f).2 :=
  of_check (P := Keeps fs) (.refl fs) h

lemma execute_keeps {what : String} {stmt : Except Sql.SqlError (AssocMap Bytes FileRow)}
    {f : SqlFS → Outcome Reply × SqlFS}
    (h : ∀ files, stmt = .ok files → Keeps fs (f { fs with files }).2) :
    Keeps fs (fs.execute what stmt f).2 :=
  of_execute (P := Keeps fs) (fun _ _ => .refl fs) h

lemma create_keeps (fs : SqlFS) (path : PathBuf) (now : DateTime) :
    Keeps fs (fs.create path now).2 := by
  refine check_keeps fun text _ => check_keeps fun _ _ => ?_
  split_ifs
  · exact .refl fs
  · exact execute_keeps fun files h => keeps_of_insertRow h rfl

lemma mkdir_keeps (fs : SqlFS) (path : PathBuf) (now : DateTime) :
    Keeps fs (fs.mkdir path now).2 := by
  refine check_keeps fun text _ => check_keeps fun _ _ => ?_
  split_ifs
  · exact .refl fs
  · exact execute_keeps fun files h => keeps_of_insertRow h rfl

lemma touch_keeps (fs : SqlFS) (path : PathBuf) (now : DateTime) :
    Keeps fs (fs.touch path now).2 := by
  have htimes : ∀ (fs : SqlFS) (text : Bytes), Keeps fs (fs.execute "touch"
      (Sql.updateRow fs.fits fs.files text fun row => row.touched now)
      fun fs => (.ok .unit, fs)).2 :=
    fun fs text => execute_keeps fun files h => keeps_of_updateRow h fun row => ⟨rfl, rfl⟩
  refine check_keeps fun text _ => ?_
  split_ifs
  · exact htimes fs text
  · have hcreate := create_keeps fs path now
    split
    · next heq =>
      rw [heq] at hcreate
      exact hcreate.trans (htimes _ text)
    · exact hcreate

lemma chmod_keeps (fs : SqlFS) (path : PathBuf) (mode : UInt32) (now : DateTime) :
    Keeps fs (fs.chmod path mode now).2 := by
  refine check_keeps fun text _ => ?_
  split_ifs
  · exact execute_keeps fun files h => keeps_of_updateRow h fun row => ⟨rfl, rfl⟩
  · exact .refl fs

lemma remove_keeps (fs : SqlFS) (path : PathBuf) : Keeps fs (fs.remove path).2 := by
  refine check_keeps fun text _ => ?_
  split_ifs
  · exact .refl fs
  · refine check_keeps fun dir _ => ?_
    split_ifs
    · exact .refl fs
    · exact keeps_of_get? fun a row h => ⟨a, AssocMap.get?_of_get?_erase h⟩

lemma removeAll_keeps (fs : SqlFS) (path : PathBuf) : Keeps fs (fs.removeAll path).2 := by
  refine check_keeps fun text _ => ?_
  split_ifs
  · exact .refl fs
  · exact keeps_of_get? fun a row h => ⟨a, AssocMap.get?_of_get?_retain h⟩

/-- Also when the second statement of the rename of a directory fails. -/
lemma rename_keeps (fs : SqlFS) (oldPath newPath : PathBuf) :
    Keeps fs (fs.rename oldPath newPath).2 := by
  have hmove : ∀ (fs : SqlFS) (what : String) (k k' : Bytes), Keeps fs (fs.execute what
      (Sql.moveRow fs.fits fs.files k k') fun fs => (.ok .unit, fs)).2 :=
    fun fs what k k' => execute_keeps fun files h =>
      keeps_of_get? fun a row hrow => Sql.get?_of_moveRow h hrow
  refine check_keeps fun oldText _ => check_keeps fun newText _ => ?_
  split_ifs
  · exact .refl fs
  · exact .refl fs
  · refine check_keeps fun dir _ => ?_
    split_ifs
    · refine execute_keeps fun files h => ?_
      exact (keeps_of_get? fun a row hrow => Sql.get?_of_moveRows h hrow).trans (hmove _ _ _ _)
    · exact hmove fs _ _ _

/-! ### The operations that give new contents -/

/-- The two ways to a new length are one. -/
lemma truncate_content (old : Bytes) (n : ℕ) :
    (if n < old.length then old.take n else resize old n) = resize old n := by
  split_ifs with h
  · rw [resize, Nat.sub_eq_zero_of_le h.le, List.replicate_zero, List.append_nil]
  · rfl

lemma FileAt.unique {path : PathBuf} {text text' : Bytes} {row row' : FileRow}
    (h : fs.FileAt path text row) (h' : fs.FileAt path text' row') :
    text' = text ∧ row' = row := by
  have htext : text' = text := by
    simpa using h'.text_eq.symm.trans h.text_eq
  subst htext
  exact ⟨rfl, Option.some.inj (h'.row_eq.symm.trans h.row_eq)⟩

lemma wouldExceed_iff {op : SqlOp} {path : PathBuf} {f : Bytes → Bytes} {text : Bytes}
    {row : FileRow} (hedit : op.edit = some (path, f)) (hfile : fs.FileAt path text row) :
    fs.WouldExceed op ↔ fs.config.maxFileSize < (f row.content).length := by
  constructor
  · rintro ⟨path', f', text', row', hedit', hfile', hlt⟩
    obtain ⟨rfl, rfl⟩ := Prod.mk.inj (Option.some.inj (hedit.symm.trans hedit'))
    obtain ⟨rfl, rfl⟩ := hfile.unique hfile'
    exact hlt
  · exact fun hlt => ⟨path, f, text, row, hedit, hfile, hlt⟩

lemma execute_update {text : Bytes} {row : FileRow} (hrow : fs.files.get? text = some row)
    (what : String) (g : FileRow → FileRow) (r : Reply) :
    fs.execute what (Sql.updateRow fs.fits fs.files text g) (fun fs => (.ok r, fs)) =
      if fs.fits text (g row) then (.ok r, { fs with files := fs.files.modify text g })
      else (.err (.Io ("Failed to " ++ what ++ ": " ++ Sql.SqlError.tooBig.message "files.path")),
        fs) := by
  rw [Sql.updateRow, hrow, Option.any_some]
  cases fs.fits text (g row) <;> rfl

/-- A new content keeps the files within the limit when it is within the limit itself. -/
lemma within_modify_iff (hin : fs.Within) {text : Bytes} {row : FileRow}
    (hrow : fs.files.get? text = some row) {g : FileRow → FileRow} (hg : (g row).isDir = false) :
    Within { fs with files := fs.files.modify text g } ↔
      (g row).content.length ≤ fs.config.maxFileSize := by
  have hget : ∀ a, (fs.files.modify text g).get? a =
      if text == a then (fs.files.get? a).map g else fs.files.get? a :=
    fun a => AssocMap.get?_modify _ _ _ _
  constructor
  · intro h
    refine h text (g row) ?_ hg
    rw [hget, if_pos BEq.rfl, hrow]
    rfl
  · intro hle a w hw hfile
    simp only [hget] at hw
    split_ifs at hw with ha
    · obtain rfl := eq_of_beq ha
      rw [hrow] at hw
      obtain rfl := Option.some.inj hw
      exact hle
    · exact hin a w hw hfile

/-- A failed call that leaves the table alone is no harm. -/
lemma limited_of_err (hin : fs.Within) (op : SqlOp) {r : Outcome Reply} (hr : r.isErr = true) :
    Limited ⟨fs, some (fs, op, r)⟩ := by
  refine ⟨hin, fun before op' r' hlast _ => ?_⟩
  obtain ⟨rfl, heq⟩ := Prod.mk.inj (Option.some.inj hlast)
  obtain ⟨-, rfl⟩ := Prod.mk.inj heq
  exact ⟨hr, rfl⟩

/-- A call that would not make a file too long only has to keep the files within the limit. -/
lemma limited_iff_within {op : SqlOp} (hop : ¬ fs.WouldExceed op) (r : Outcome Reply) :
    Limited ⟨fs', some (fs, op, r)⟩ ↔ fs'.Within := by
  refine and_iff_left fun before op' r' hlast hexceed => ?_
  obtain ⟨rfl, heq⟩ := Prod.mk.inj (Option.some.inj hlast)
  obtain ⟨rfl, -⟩ := Prod.mk.inj heq
  exact absurd hexceed hop

/-- The statement that stores the new content of a file is no harm when the content is within the
limit, or when the database refuses it. -/
lemma limited_update_iff (hin : fs.Within) {op : SqlOp} {path : PathBuf} {f : Bytes → Bytes}
    {text : Bytes} {row : FileRow} (hedit : op.edit = some (path, f))
    (hfile : fs.FileAt path text row) {g : FileRow → FileRow} (hdir : (g row).isDir = false)
    (hcontent : (g row).content = f row.content) {x : Outcome Reply × SqlFS} {what : String}
    {r : Reply}
    (hx : x = fs.execute what (Sql.updateRow fs.fits fs.files text g) fun fs => (.ok r, fs)) :
    Limited ⟨x.2, some (fs, op, x.1)⟩ ↔
      (fs.config.maxFileSize < (f row.content).length → fs.fits text (g row) = false) := by
  rw [execute_update hfile.row_eq] at hx
  cases hfits : fs.fits text (g row) with
  | false =>
    rw [hfits, if_neg Bool.false_ne_true] at hx
    subst hx
    exact iff_of_true (limited_of_err hin op rfl) fun _ => rfl
  | true =>
    rw [hfits, if_pos rfl] at hx
    subst hx
    have hwithin := within_modify_iff hin hfile.row_eq hdir
    rw [hcontent] at hwithin
    constructor
    · exact fun h hlt => absurd (hwithin.1 h.1) (Nat.not_le.2 hlt)
    · intro h
      have hle : (f row.content).length ≤ fs.config.maxFileSize := by
        by_contra hlt
        exact absurd (h (Nat.not_le.1 hlt)) (by simp)
      have hop : ¬ fs.WouldExceed op := fun hexceed =>
        absurd hle (Nat.not_le.2 ((wouldExceed_iff hedit hfile).1 hexceed))
      exact (limited_iff_within hop _).2 (hwithin.2 hle)

lemma FileAt.isDir_eq {path : PathBuf} {text : Bytes} {row : FileRow}
    (h : fs.FileAt path text row) : fs.isDir text = .ok false := by
  rw [isDir, h.row_eq, ← h.isFile]

lemma write_of_file {path : PathBuf} {text : Bytes} {row : FileRow}
    (h : fs.FileAt path text row) (data : Bytes) (offset : Int64) (flags : WriteFlags)
    (now : DateTime) :
    fs.write path data offset flags now =
      if data.length > fs.config.maxFileSize then (.err .StorageFull, fs)
      else
        fs.execute "write" (Sql.updateRow fs.fits fs.files text fun r =>
          r.written (writeData row.content data offset flags) now)
          fun fs => (.ok (.written data.length.toUInt64), fs) := by
  rw [write, h.text_eq, check, h.isDir_eq, check, h.row_eq]
  rfl

lemma truncate_of_file {path : PathBuf} {text : Bytes} {row : FileRow}
    (h : fs.FileAt path text row) (size : UInt64) (now : DateTime) :
    fs.truncate path size now =
      fs.execute "truncate" (Sql.updateRow fs.fits fs.files text fun r =>
        r.truncated (resize row.content size.toNat) now) fun fs => (.ok .unit, fs) := by
  rw [truncate, h.text_eq, check, h.isDir_eq, check, h.row_eq]
  simp only [Option.map_some, Option.getD_some, truncate_content]
  rfl

/-- What is not a file cannot be given a content. -/
lemma check_isDir_of_not_file {path : PathBuf} (h : ∀ text row, ¬ fs.FileAt path text row)
    {e : FSError} (f : Bytes → Outcome Reply × SqlFS) :
    (fs.check (pathToStr path) fun text =>
      fs.check (fs.isDir text) fun dir => if dir then (.err e, fs) else f text).2 = fs := by
  cases htext : pathToStr path with
  | err e => rfl
  | panic => rfl
  | ok text =>
    rw [check, isDir]
    cases hrow : fs.files.get? text with
    | none => rfl
    | some row =>
      cases hdir : row.isDir with
      | true => simp [check, hdir]
      | false => exact absurd ⟨htext, hrow, hdir⟩ (h text row)

lemma not_wouldExceed_of_not_file {op : SqlOp} {path : PathBuf} {f : Bytes → Bytes}
    (hedit : op.edit = some (path, f)) (h : ∀ text row, ¬ fs.FileAt path text row) :
    ¬ fs.WouldExceed op := by
  rintro ⟨path', f', text, row, hedit', hfile, -⟩
  obtain ⟨rfl, -⟩ := Prod.mk.inj (Option.some.inj (hedit.symm.trans hedit'))
  exact h text row hfile

/-! ### Runs -/

lemma limited_write_iff {s : Logged} (hin : s.fs.Within) (path : PathBuf) (data : Bytes)
    (offset : Int64) (flags : WriteFlags) (now : DateTime) :
    Limited ⟨(s.fs.write path data offset flags now).2,
        some (s.fs, .write path data offset flags, (s.fs.write path data offset flags now).1)⟩ ↔
      Covered s (.write path data offset flags, now) := by
  have hedit : (SqlOp.write path data offset flags).edit =
      some (path, fun old => writeData old data offset flags) := rfl
  by_cases hex : ∃ text row, s.fs.FileAt path text row
  · obtain ⟨text, row, hfile⟩ := hex
    have hcovered : Covered s (.write path data offset flags, now) ↔
        (s.fs.config.maxFileSize < (writeData row.content data offset flags).length →
          s.fs.config.maxFileSize < data.length ∨
            s.fs.fits text (row.written (writeData row.content data offset flags) now) =
              false) := by
      refine ⟨fun h => h text row hfile, fun h text' row' hfile' => ?_⟩
      obtain ⟨rfl, rfl⟩ := hfile.unique hfile'
      exact h
    rw [hcovered]
    by_cases hdata : data.length > s.fs.config.maxFileSize
    · rw [write_of_file hfile, if_pos hdata]
      exact iff_of_true (limited_of_err hin _ rfl) fun _ => Or.inl hdata
    · have hx := write_of_file hfile data offset flags now
      rw [if_neg hdata] at hx
      rw [limited_update_iff hin hedit hfile hfile.isFile rfl hx, or_iff_right hdata]
  · have hnone : ∀ text row, ¬ s.fs.FileAt path text row :=
      fun text row hfile => hex ⟨text, row, hfile⟩
    have hsame : (s.fs.write path data offset flags now).2 = s.fs :=
      check_isDir_of_not_file hnone _
    rw [hsame, limited_iff_within (not_wouldExceed_of_not_file hedit hnone)]
    exact iff_of_true hin fun text row hfile => absurd hfile (hnone text row)

lemma limited_truncate_iff {s : Logged} (hin : s.fs.Within) (path : PathBuf) (size : UInt64)
    (now : DateTime) :
    Limited ⟨(s.fs.truncate path size now).2,
        some (s.fs, .truncate path size, (s.fs.truncate path size now).1)⟩ ↔
      Covered s (.truncate path size, now) := by
  have hedit : (SqlOp.truncate path size).edit = some (path, fun old => resize old size.toNat) :=
    rfl
  by_cases hex : ∃ text row, s.fs.FileAt path text row
  · obtain ⟨text, row, hfile⟩ := hex
    rw [limited_update_iff hin hedit hfile hfile.isFile rfl (truncate_of_file hfile size now),
      length_resize]
    refine ⟨fun h text' row' hfile' => ?_, fun h => h text row hfile⟩
    obtain ⟨rfl, rfl⟩ := hfile.unique hfile'
    exact h
  · have hnone : ∀ text row, ¬ s.fs.FileAt path text row :=
      fun text row hfile => hex ⟨text, row, hfile⟩
    have hsame : (s.fs.truncate path size now).2 = s.fs := check_isDir_of_not_file hnone _
    rw [hsame, limited_iff_within (not_wouldExceed_of_not_file hedit hnone)]
    exact iff_of_true hin fun text row hfile => absurd hfile (hnone text row)

/-- What one call needs to keep the limit. -/
lemma limited_step_iff {s s' : Logged} {c : SqlOp × DateTime} (h : Limited s)
    (hstep : logStep s c = some s') : Limited s' ↔ Covered s c := by
  obtain ⟨op, now⟩ := c
  obtain rfl := Option.some.inj hstep
  have hkeeps : ∀ x : Outcome Reply × SqlFS, op.edit = none → Keeps s.fs x.2 →
      Limited ⟨x.2, some (s.fs, op, x.1)⟩ := by
    intro x hedit hx
    refine (limited_iff_within ?_ x.1).2 (hx.within h.1)
    rintro ⟨path, f, text, row, hedit', -⟩
    rw [hedit] at hedit'
    cases hedit'
  cases op with
  | write path data offset flags => exact limited_write_iff h.1 path data offset flags now
  | truncate path size => exact limited_truncate_iff h.1 path size now
  | create path => exact iff_of_true (hkeeps _ rfl (create_keeps s.fs path now)) trivial
  | touch path => exact iff_of_true (hkeeps _ rfl (touch_keeps s.fs path now)) trivial
  | chmod path mode => exact iff_of_true (hkeeps _ rfl (chmod_keeps s.fs path mode now)) trivial
  | mkdir path perm => exact iff_of_true (hkeeps _ rfl (mkdir_keeps s.fs path now)) trivial
  | remove path => exact iff_of_true (hkeeps _ rfl (remove_keeps s.fs path)) trivial
  | removeAll path => exact iff_of_true (hkeeps _ rfl (removeAll_keeps s.fs path)) trivial
  | rename oldPath newPath =>
    exact iff_of_true (hkeeps _ rfl (rename_keeps s.fs oldPath newPath)) trivial
  | read path offset size => exact iff_of_true (hkeeps (_, s.fs) rfl (.refl s.fs)) trivial
  | stat path => exact iff_of_true (hkeeps (_, s.fs) rfl (.refl s.fs)) trivial
  | readDir path => exact iff_of_true (hkeeps (_, s.fs) rfl (.refl s.fs)) trivial

/-- A new filesystem. -/
def start (config : SqlConfig) (fits : Bytes → FileRow → Bool) (now : DateTime) : Logged :=
  ⟨new config fits now, none⟩

lemma limited_start (config : SqlConfig) (fits : Bytes → FileRow → Bool) (now : DateTime) :
    Limited (start config fits now) := by
  refine ⟨fun text row hrow hfile => ?_, fun _ _ _ hlast => by cases hlast⟩
  simp only [start, new, AssocMap.get?_insert] at hrow
  split_ifs at hrow
  · -- the only row is a directory
    rw [← Option.some.inj hrow] at hfile
    cases hfile
  · cases hrow

end SqlFS

end Racfs.SqlFs
