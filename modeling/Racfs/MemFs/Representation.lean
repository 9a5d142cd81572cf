/-
# The entries of the in-memory filesystem

An entry keeps some things twice: its path is the key of the table and a field of the metadata,
its size is the length of the data and a field again, and whether it is a link is a field of the
entry, a field of the metadata and a file type in the mode.  Every operation updates these by
hand.  They agree in every state that the filesystem reaches, for any arguments (`EntryOk`), and
directories have no data.

Paths are compared as the table compares them: a failed rename can leave an entry under another
spelling of its path.
-/
import Racfs.MemFs.Model
import Racfs.Lib.Run

namespace Racfs.MemFs

open MemFS

/-- An entry that agrees with the path it is stored at. -/
structure EntryOk (k : PathBuf) (e : FileEntry) : Prop where
  path : (e.metadata.path == k) = true
  size : e.isSymlink = false → e.metadata.size = e.data.length.toUInt64
  directory : e.metadata.isDirectory = true → e.data = []
  /-- A link is one by its file type, -/
  link : e.isSymlink = (e.metadata.mode &&& S_IFMT == S_IFLNK)
  /-- and by the mark in its metadata. -/
  flag : e.metadata.isSymlinkFlag = e.isSymlink

/-- A table all of whose entries agree with their paths. -/
def TableOk (files : AssocMap PathBuf FileEntry) : Prop :=
  ∀ k e, files.get? k = some e → EntryOk k e

lemma EntryOk.congr {k k' : PathBuf} {e : FileEntry} (h : EntryOk k e) (hk : (k == k') = true) :
    EntryOk k' e :=
  { h with path := BEq.trans h.path hk }

/-! ### New entries -/

lemma entryOk_directoryEntry (p : PathBuf) (perm : UInt32) (now : DateTime) :
    EntryOk p (directoryEntry p perm now) where
  path := BEq.rfl
  size := fun _ => rfl
  directory := fun _ => rfl
  link := by
    rw [directoryEntry, FileMetadata.type_setPermissions]
    show false = (FileMetadata.dirMode &&& S_IFMT == S_IFLNK)
    decide
  flag := rfl

lemma entryOk_fileEntry (p : PathBuf) (now : DateTime) : EntryOk p (fileEntry p now) where
  path := BEq.rfl
  size := fun _ => rfl
  directory := fun _ => rfl
  link := by
    show false = (FileMetadata.fileMode &&& S_IFMT == S_IFLNK)
    decide
  flag := rfl

lemma entryOk_symlinkEntry (target link : PathBuf) (now : DateTime) :
    EntryOk link (symlinkEntry target link now) where
  path := BEq.rfl
  size := fun h => absurd h (by simp [symlinkEntry])
  directory := fun _ => rfl
  link := by
    show true = ((S_IFLNK ||| 0o700 ||| 0o040 ||| 0o010 ||| 0o004 ||| 0o001) &&& S_IFMT == S_IFLNK)
    decide
  flag := rfl

/-! ### Changes of a table -/

section Tables

variable {files : AssocMap PathBuf FileEntry}

lemma TableOk.insert (h : TableOk files) {p : PathBuf} {e : FileEntry} (he : EntryOk p e) :
    TableOk (files.insert p e) := by
  intro k e' hget
  rw [AssocMap.get?_insert] at hget
  split_ifs at hget with hpk
  · cases hget
    exact he.congr hpk
  · exact h k e' hget

lemma TableOk.retain (h : TableOk files) (keep : PathBuf → FileEntry → Bool) :
    TableOk (files.retain keep) :=
  fun k e hget => h k e (AssocMap.get?_of_get?_retain hget)

lemma TableOk.erase (h : TableOk files) (p : PathBuf) : TableOk (files.erase p) :=
  h.retain _

/-- Another entry is put in the place of one. -/
lemma TableOk.modify (h : TableOk files) {p : PathBuf} {e : FileEntry} (he : EntryOk p e) :
    TableOk (files.modify p fun _ => e) := by
  intro k e' hget
  rw [AssocMap.get?_modify] at hget
  split_ifs at hget with hpk
  · obtain ⟨-, -, rfl⟩ := Option.map_eq_some_iff.1 hget
    exact he.congr hpk
  · exact h k e' hget

end Tables

/-! ### The operations -/

section Operations

variable {fs : MemFS}

lemma tableOk_check {α : Type*} (h : TableOk fs.files) (x : Outcome α)
    {f : α → Outcome Reply × MemFS} (hf : ∀ a, TableOk (f a).2.files) :
    TableOk (fs.check x f).2.files := by
  cases x with
  | ok a => exact hf a
  | err e => exact h
  | panic => exact h

lemma tableOk_addEntry (h : TableOk fs.files) {p : PathBuf} {e : FileEntry} (he : EntryOk p e) :
    TableOk (fs.addEntry p e).2.files := by
  rw [addEntry]
  split
  · exact h
  · exact h.insert he

lemma tableOk_updateEntry (h : TableOk fs.files) {p : PathBuf}
    {f : FileEntry → Outcome (Reply × FileEntry)}
    (hf : ∀ e r, EntryOk p e → f e = .ok r → EntryOk p r.2) :
    TableOk (fs.updateEntry p f).2.files := by
  obtain hsame | ⟨e, r, hget, hr, heq⟩ := @updateEntry_cases fs p f
  · rw [hsame]
    exact h
  · rw [heq]
    exact h.modify (hf e r (h p e hget) hr)

/-- New data for an entry that is not a directory, with its length as the new size. -/
lemma EntryOk.setData {p : PathBuf} {e : FileEntry} (h : EntryOk p e)
    (hdir : e.metadata.isDirectory = false) {data : Bytes} {size : UInt64}
    (hsize : size = data.length.toUInt64) (modified : Option DateTime) :
    EntryOk p { e with data, metadata := { e.metadata with size, modified } } where
  path := h.path
  size := fun _ => hsize
  directory := fun hd => by
    change e.metadata.isDirectory = true at hd
    rw [hdir] at hd
    cases hd
  link := h.link
  flag := h.flag

lemma tableOk_write (h : TableOk fs.files) (p : PathBuf) (data : Bytes) (offset : Int64)
    (flags : WriteFlags) (now : DateTime) : TableOk (fs.write p data offset flags now).2.files := by
  refine tableOk_updateEntry h fun e r he hr => ?_
  split at hr
  · cases hr
  · next hdir =>
    cases hr
    exact he.setData (eq_false_of_ne_true hdir) rfl _

lemma tableOk_truncate (h : TableOk fs.files) (p : PathBuf) (size : UInt64) (now : DateTime) :
    TableOk (fs.truncate p size now).2.files := by
  refine tableOk_updateEntry h fun e r he hr => ?_
  split at hr
  · cases hr
  · next hdir =>
    cases hr
    exact he.setData (eq_false_of_ne_true hdir) (by simp) _

/-- A change of the permissions keeps the file type. -/
lemma tableOk_chmod (h : TableOk fs.files) (p : PathBuf) (mode : UInt32) (now : DateTime) :
    TableOk (fs.chmod p mode now).2.files := by
  refine tableOk_updateEntry h fun e r he hr => ?_
  cases hr
  exact
    { path := he.path
      size := he.size
      directory := fun hd =>
        he.directory ((e.metadata.isDirectory_setPermissions mode).symm.trans hd)
      link := he.link.trans (by rw [← e.metadata.type_setPermissions mode])
      flag := he.flag }

lemma tableOk_touch (h : TableOk fs.files) (p : PathBuf) (now : DateTime) :
    TableOk (fs.touch p now).2.files := by
  rw [touch]
  cases hget : fs.files.get? p with
  | none => exact h.insert (entryOk_fileEntry p now)
  | some e =>
    have he := h p e hget
    exact h.modify ⟨he.path, he.size, he.directory, he.link, he.flag⟩

lemma tableOk_remove (h : TableOk fs.files) (p : PathBuf) : TableOk (fs.remove p).2.files := by
  rw [remove]
  cases fs.files.get? p with
  | none => exact h
  | some e =>
    simp only
    split <;> exact h.erase p

lemma tableOk_removeAll (h : TableOk fs.files) (p : PathBuf) :
    TableOk (fs.removeAll p).2.files := by
  rw [removeAll]
  split
  · exact h.retain _
  · exact h

/-- The entry that moves gets the new path; one that is put back is still at its own. -/
lemma tableOk_rename (h : TableOk fs.files) (o n : PathBuf) :
    TableOk (fs.rename o n).2.files := by
  rw [rename]
  cases hget : fs.files.get? o with
  | none => exact h
  | some e =>
    have he := h o e hget
    simp only
    split
    · exact (h.erase o).insert he
    · exact (h.erase o).insert ⟨BEq.rfl, he.size, he.directory, he.link, he.flag⟩

lemma tableOk_setXattr (h : TableOk fs.files) (p : PathBuf) (name value : Bytes) :
    TableOk (fs.setXattr p name value).2.files :=
  tableOk_check h _ fun _ => h

lemma tableOk_removeXattr (h : TableOk fs.files) (p : PathBuf) (name : Bytes) :
    TableOk (fs.removeXattr p name).2.files := by
  refine tableOk_check h _ fun e => ?_
  cases fs.xattrs.get? p with
  | none => exact h
  | some attrs =>
    simp only
    split <;> exact h

/-- Every operation keeps the entries in agreement with their paths. -/
lemma tableOk_apply (h : TableOk fs.files) (now : DateTime) (op : Op PathBuf) :
    TableOk (fs.apply now op).2.files := by
  cases op with
  | create p => exact tableOk_check h _ fun _ => tableOk_addEntry h (entryOk_fileEntry p now)
  | write p data offset flags => exact tableOk_write h p data offset flags now
  | truncate p size => exact tableOk_truncate h p size now
  | touch p => exact tableOk_touch h p now
  | chmod p mode => exact tableOk_chmod h p mode now
  | mkdir p perm =>
    exact tableOk_check h _ fun _ => tableOk_addEntry h (entryOk_directoryEntry p perm now)
  | remove p => exact tableOk_remove h p
  | removeAll p => exact tableOk_removeAll h p
  | rename o n => exact tableOk_rename h o n
  | symlink target link =>
    exact tableOk_check h _ fun _ => tableOk_addEntry h (entryOk_symlinkEntry target link now)
  | setXattr p name value => exact tableOk_setXattr h p name value
  | removeXattr p name => exact tableOk_removeXattr h p name
  | _ => exact h

end Operations

/-! ### Runs -/

/-- An operation with any arguments, at its time. -/
def anyStep (fs : MemFS) (ev : DateTime × Op PathBuf) : Option MemFS :=
  some (fs.apply ev.1 ev.2).2

lemma tableOk_new (now : DateTime) : TableOk (MemFS.new now).files :=
  @tableOk_addEntry ⟨∅, ∅⟩ (fun k e h => by simp at h) _ _ (entryOk_directoryEntry _ _ now)

/-- A regular file is read whole, and is as long as its metadata say. -/
lemma read_whole_of_isFile {fs : MemFS} (h : TableOk fs.files) {p : PathBuf} {m : FileMetadata}
    (hstat : fs.stat p = .ok m) (hfile : m.isFile = true) :
    ∃ data, fs.read p 0 (-1) = .ok data ∧ m.size = data.length.toUInt64 := by
  rw [stat, getEntry] at hstat
  cases hget : fs.files.get? p with
  | none => simp [hget] at hstat
  | some e =>
    simp only [hget, Outcome.map_ok, Outcome.ok.injEq] at hstat
    subst hstat
    have he := h p e hget
    have htype : e.metadata.mode &&& S_IFMT = S_IFREG := by simpa [FileMetadata.isFile] using hfile
    have hlink : e.isSymlink = false := by rw [he.link, htype]; decide
    have hdir : e.metadata.isDirectory = false := by
      rw [FileMetadata.isDirectory, htype]
      decide
    refine ⟨e.data, ?_, he.size hlink⟩
    simp [MemFS.read, readAux, getEntry, hget, hdir, hlink, readData_whole]

/-- **The representation invariant.**  In every state that is reached from a new filesystem by
operations with any arguments, every entry names the path it is stored at, every entry that is not
a link has the length of its data as its size, and directories have no data.  So a regular file
can be read whole, and its size is the length of what is read. -/
theorem reachable_entries_agree (t : DateTime) {fs : MemFS}
    (h : Reachable anyStep (MemFS.new t) fs) :
    (∀ p e, fs.files.get? p = some e →
      (e.metadata.path == p) = true ∧
      (e.isSymlink = false → e.metadata.size = e.data.length.toUInt64 ∧
        (e.data.length < 2 ^ 64 → e.metadata.size.toNat = e.data.length)) ∧
      (e.metadata.isDirectory = true → e.data = [])) ∧
    ∀ p m, fs.stat p = .ok m → m.isFile = true →
      ∃ data, fs.read p 0 (-1) = .ok data ∧ m.size = data.length.toUInt64 := by
  have hok : TableOk fs.files := by
    refine h.invariant (P := fun fs => TableOk fs.files) (tableOk_new t) ?_
    rintro s ⟨now, op⟩ s' hs ⟨⟩
    exact tableOk_apply hs now op
  refine ⟨fun p e he => ?_, fun p m hstat hfile => read_whole_of_isFile hok hstat hfile⟩
  have hentry := hok p e he
  refine ⟨hentry.path, fun hlink => ⟨hentry.size hlink, fun hlt => ?_⟩, hentry.directory⟩
  rw [hentry.size hlink]
  exact UInt64.toNat_ofNat_of_lt' hlt

/-- A file of three bytes after a rename. -/
theorem reachable_entries_agree_renamed :
    ∃ fs, Reachable anyStep (MemFS.new 0) fs ∧
      (∃ m, fs.stat ⟨[slash, 98]⟩ = .ok m ∧ m.isFile = true) ∧
      ∀ m, fs.stat ⟨[slash, 98]⟩ = .ok m → m.isFile = true →
        ∃ data, fs.read ⟨[slash, 98]⟩ 0 (-1) = .ok data ∧ m.size = data.length.toUInt64 := by
  have hreach : Reachable anyStep (MemFS.new 0) _ :=
    ⟨[(1, .create ⟨[slash, 97]⟩), (2, .write ⟨[slash, 97]⟩ [1, 2, 3] 0 .NONE),
      (3, .rename ⟨[slash, 97]⟩ ⟨[slash, 98]⟩)], rfl⟩
  exact ⟨_, hreach, ⟨_, rfl, by decide⟩, (reachable_entries_agree 0 hreach).2 _⟩

end Racfs.MemFs
