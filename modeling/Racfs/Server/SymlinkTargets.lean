/-
# The targets of symbolic links

A link has two paths.  `MountableFS::symlink` (`racfs-vfs/src/mountable_fs.rs`) translates the path
of the link into the namespace of the filesystem that is mounted there, and passes the target on
as it is, to be interpreted "relative to link's directory".  `MemFS` (`racfs-plugin-memfs`) stores
the target, and a read of the link goes on with it as a path of the filesystem itself.  The
endpoint `/api/v1/symlink` accepts absolute targets only, which are paths of the server.

A link that has been made should read as its target does, also after writes to the target
(`ReadsAsTarget`).  `readsAsTarget_iff` says that it does exactly if the target, taken as a path
of the mounted filesystem, is the target by accident: the links that are already there lead from
it to the file.  Without such links the filesystem would have to be mounted at the root.
-/
import Racfs.Lib.Links
import Racfs.Server.Api

namespace Racfs.MemFs

open Links

/-- An entry that is neither a directory nor a link. -/
def FileEntry.IsRegular (e : FileEntry) : Prop :=
  e.metadata.isDirectory = false ∧ e.isSymlink = false

/-- The path that a read of an entry goes on with. -/
def FileEntry.linkTarget (e : FileEntry) : Option PathBuf :=
  if e.metadata.isDirectory then none else if e.isSymlink then e.symlinkTarget else none

namespace MemFS

/-- The link that is stored at a path. -/
def linkAt (fs : MemFS) (path : PathBuf) : Option (Option PathBuf) :=
  (fs.files.get? path).map FileEntry.linkTarget

/-- The path of the entry that a read of a path comes to. -/
def lastPath (fs : MemFS) (path : PathBuf) : Option PathBuf :=
  follow fs.linkAt (fs.files.size + 1) path

/-! ### Reads through links -/

section Reads

variable {fs : MemFS} {path target last : PathBuf} {e : FileEntry} {offset size : Int64} {n : ℕ}

lemma linkAt_of_get? (h : fs.files.get? path = some e) : fs.linkAt path = some e.linkTarget := by
  rw [linkAt, h, Option.map_some]

lemma linkTarget_of_isRegular (h : e.IsRegular) : e.linkTarget = none := by
  simp [FileEntry.linkTarget, h.1, h.2]

lemma readAux_of_link (he : fs.files.get? path = some e) (ht : e.linkTarget = some target) :
    fs.readAux offset size (n + 1) path = fs.readAux offset size n target := by
  simp only [FileEntry.linkTarget] at ht
  split_ifs at ht with hdir hlink
  simp [readAux, getEntry, he, Outcome.bind, hdir, hlink, ht]

lemma readAux_of_file (he : fs.files.get? path = some e) (hdir : e.metadata.isDirectory = false)
    (ht : e.linkTarget = none) :
    fs.readAux offset size (n + 1) path = readData e.data offset size := by
  simp only [FileEntry.linkTarget, hdir, Bool.false_eq_true, if_false] at ht
  simp only [readAux, getEntry, he, Outcome.bind, hdir, Bool.false_eq_true, if_false]
  split
  · next hlink htarget =>
    rw [if_pos hlink, htarget] at ht
    cases ht
  · rfl

/-- A read returns data of the entry at the end of the links. -/
lemma readAux_of_follow (h : follow fs.linkAt n path = some last)
    (he : fs.files.get? last = some e) (hdir : e.metadata.isDirectory = false) :
    fs.readAux offset size n path = readData e.data offset size := by
  induction n generalizing path with
  | zero => cases h
  | succ n ih =>
    rcases follow_succ h with ⟨hend, rfl⟩ | ⟨target, hlink, htarget⟩
    · rw [linkAt_of_get? he] at hend
      exact readAux_of_file he hdir (Option.some.inj hend)
    · obtain ⟨e', he', htarget'⟩ := Option.map_eq_some_iff.1 hlink
      rw [readAux_of_link he' htarget']
      exact ih htarget

/-- A read that succeeds comes to an entry that is not a directory. -/
lemma exists_of_readAux {data : Bytes} (h : fs.readAux offset size n path = .ok data) :
    ∃ last e, follow fs.linkAt n path = some last ∧ fs.files.get? last = some e ∧
      e.metadata.isDirectory = false := by
  induction n generalizing path with
  | zero => cases h
  | succ n ih =>
    cases he : fs.files.get? path with
    | none =>
      simp only [readAux, getEntry, he, Outcome.bind] at h
      cases h
    | some e =>
      cases hdir : e.metadata.isDirectory with
      | true =>
        simp only [readAux, getEntry, he, Outcome.bind, hdir, if_true] at h
        cases h
      | false =>
        have hlink := linkAt_of_get? he
        cases htarget : e.linkTarget with
        | none =>
          rw [htarget] at hlink
          exact ⟨path, e, follow_of_end hlink, he, hdir⟩
        | some target =>
          rw [htarget] at hlink
          rw [readAux_of_link he htarget] at h
          rw [follow_of_link hlink]
          exact ih h

end Reads

/-! ### Writes and new links -/

/-- The arguments of a write. -/
structure WriteCall where
  data : Bytes
  offset : Int64
  flags : WriteFlags
  now : DateTime

/-- The entry of a file after a write. -/
def written (e : FileEntry) (w : WriteCall) : FileEntry :=
  let new := writeData e.data w.data w.offset w.flags
  { e with
    data := new
    metadata := { e.metadata with size := new.length.toUInt64, modified := some w.now } }

section Writes

variable {fs : MemFS} {path q : PathBuf} {e : FileEntry}

lemma isRegular_written (h : e.IsRegular) (w : WriteCall) : (written e w).IsRegular := h

lemma write_eq (he : fs.files.get? path = some e) (hregular : e.IsRegular) (w : WriteCall) :
    fs.write path w.data w.offset w.flags w.now =
      (.ok (.written w.data.length.toUInt64),
        { fs with files := fs.files.modify path fun _ => written e w }) := by
  simp [write, updateEntry, getEntry, he, check, hregular.1, written]

lemma linkAt_modify (he : fs.files.get? path = some e) {e' : FileEntry}
    (htarget : e'.linkTarget = e.linkTarget) :
    linkAt { fs with files := fs.files.modify path fun _ => e' } = fs.linkAt := by
  funext q
  simp only [linkAt, AssocMap.get?_modify]
  split
  · next hq =>
    rw [← AssocMap.get?_congr _ hq, he]
    exact congrArg some htarget
  · rfl

/-- A write at the start replaces the content. -/
lemma writeData_start (old data : Bytes) : writeData old data 0 .NONE = data := by
  have hzero : (0 : Int64).toUInt64.toNat = 0 := by decide
  have hmax : (max (0 : Int64) 0).toUInt64.toNat = 0 := by decide
  have hflags : WriteFlags.containsAppend .NONE = false := by decide
  cases old with
  | nil => simp [writeData, hzero, hmax]
  | cons b bs => simp [writeData, hzero, hflags]

lemma linkTarget_symlinkEntry (target link : PathBuf) (now : DateTime) :
    (symlinkEntry target link now).linkTarget = some target := by
  have hdir : (FileMetadata.symlink link target now).isDirectory = false := by
    simp only [FileMetadata.isDirectory, FileMetadata.symlink]
    decide
  simp [symlinkEntry, FileEntry.linkTarget, hdir]

lemma linkAt_insert (target link : PathBuf) (now : DateTime) (q : PathBuf) :
    linkAt { fs with files := fs.files.insert link (symlinkEntry target link now) } q =
      if link == q then some (some target) else fs.linkAt q := by
  simp only [linkAt, AssocMap.get?_insert]
  split
  · exact congrArg some (linkTarget_symlinkEntry target link now)
  · rfl

/-- A new link changes only places that had nothing. -/
lemma linkAt_insert_of_some {target link : PathBuf} (now : DateTime)
    (hfresh : fs.files.get? link = none) {x : Option PathBuf} (hq : fs.linkAt q = some x) :
    linkAt { fs with files := fs.files.insert link (symlinkEntry target link now) } q =
      some x := by
  obtain ⟨e, he, htarget⟩ := Option.map_eq_some_iff.1 hq
  rw [linkAt, AssocMap.get?_insert_of_new hfresh he, Option.map_some, htarget]

/-- What a call that makes a link does. -/
lemma symlink_of_ok {target link : PathBuf} {now : DateTime} {a : Reply}
    (h : (fs.symlink target link now).1 = .ok a) :
    fs.files.get? link = none ∧
      (fs.symlink target link now).2 =
        { fs with files := fs.files.insert link (symlinkEntry target link now) } := by
  rw [symlink] at h ⊢
  cases hparent : fs.ensureParentExists link with
  | ok u =>
    rw [hparent] at h
    simp only [check] at h ⊢
    cases hcontains : fs.files.contains link with
    | true =>
      rw [addEntry_of_contains hcontains] at h
      cases h
    | false =>
      rw [addEntry_of_not_contains hcontains]
      exact ⟨AssocMap.contains_eq_false_iff.1 hcontains, rfl⟩
  | err x =>
    rw [hparent] at h
    cases h
  | panic =>
    rw [hparent] at h
    cases h

end Writes

end MemFS

end Racfs.MemFs

namespace Racfs.Server

open Links MemFs MemFS

variable {ι : Type*} [DecidableEq ι]

namespace AppState

/-- Make a link.  Only its own path is translated. -/
def symlink (s : AppState ι) (target link : PathBuf) (now : DateTime) :
    Outcome Reply × AppState ι :=
  s.mutate link fun fs relativeLink => fs.symlink target relativeLink now

/-- Write to a file. -/
def write (s : AppState ι) (path : PathBuf) (w : WriteCall) : Outcome Reply × AppState ι :=
  s.mutate path fun fs relative => fs.write relative w.data w.offset w.flags w.now

/-- The state after writes to a file. -/
def afterWrites (s : AppState ι) (path : PathBuf) (ws : List WriteCall) : AppState ι :=
  ws.foldl (fun s w => (s.write path w).2) s

/-- A link reads as its target does, now and after any writes to the target. -/
def ReadsAsTarget (s : AppState ι) (target link : PathBuf) : Prop :=
  ∀ ws offset size,
    (s.afterWrites target ws).read link offset size =
      (s.afterWrites target ws).read target offset size

/-! ### The state after a call -/

variable {s : AppState ι} {path target link relative relTarget relLink last : PathBuf} {i j : ι}
  {e : FileEntry} {w : WriteCall}

/-- The state with another filesystem at one place. -/
def setBackend (s : AppState ι) (i : ι) (fs : MemFS) : AppState ι :=
  { s with backend := Function.update s.backend i fs }

lemma setBackend_self (s : AppState ι) (i : ι) (fs : MemFS) :
    (s.setBackend i fs).backend i = fs := by
  simp [setBackend]

lemma setBackend_of_ne (s : AppState ι) (h : j ≠ i) (fs : MemFS) :
    (s.setBackend i fs).backend j = s.backend j := by
  simp [setBackend, h]

lemma mutate_of_resolveFs (h : s.vfs.resolveFs path = .ok (i, relative))
    (f : MemFS → PathBuf → Outcome Reply × MemFS) :
    s.mutate path f =
      ((f (s.backend i) relative).1, s.setBackend i (f (s.backend i) relative).2) := by
  simp only [mutate, h]
  rfl

omit [DecidableEq ι] in
lemma read_of_resolveFs (h : s.vfs.resolveFs path = .ok (i, relative)) (offset size : Int64) :
    s.read path offset size = (s.backend i).read relative offset size := by
  simp only [AppState.read, h]
  rfl

/-- A file that is not a link is routed to. -/
structure FileAt (s : AppState ι) (path : PathBuf) (i : ι) (relative : PathBuf)
    (e : FileEntry) : Prop where
  routed : s.vfs.resolveFs path = .ok (i, relative)
  stored : (s.backend i).files.get? relative = some e
  regular : e.IsRegular

omit [DecidableEq ι] in
lemma FileAt.read_eq (h : FileAt s target i relTarget e) (offset size : Int64) :
    s.read target offset size = readData e.data offset size := by
  rw [read_of_resolveFs h.routed]
  exact readAux_of_file h.stored h.regular.1 (linkTarget_of_isRegular h.regular)

lemma FileAt.write_eq (h : FileAt s target i relTarget e) (w : WriteCall) :
    (s.write target w).2 = s.setBackend i { s.backend i with
      files := (s.backend i).files.modify relTarget fun _ => written e w } := by
  rw [AppState.write, mutate_of_resolveFs h.routed, MemFS.write_eq h.stored h.regular]

lemma FileAt.write (h : FileAt s target i relTarget e) (w : WriteCall) :
    FileAt (s.write target w).2 target i relTarget (written e w) where
  routed := by
    rw [h.write_eq]
    exact h.routed
  stored := by
    rw [h.write_eq, setBackend_self, AssocMap.get?_modify, if_pos BEq.rfl, h.stored,
      Option.map_some]
  regular := isRegular_written h.regular w

/-- A write leaves all links and the numbers of entries alone. -/
lemma FileAt.linkAt_write (h : FileAt s target i relTarget e) (w : WriteCall) (j : ι) :
    ((s.write target w).2.backend j).linkAt = (s.backend j).linkAt ∧
      ((s.write target w).2.backend j).files.size = (s.backend j).files.size := by
  rw [h.write_eq]
  by_cases hij : j = i
  · subst hij
    rw [setBackend_self]
    refine ⟨linkAt_modify h.stored ?_, AssocMap.size_modify _ _ _⟩
    rw [linkTarget_of_isRegular h.regular, linkTarget_of_isRegular (isRegular_written h.regular w)]
  · rw [setBackend_of_ne s hij]
    exact ⟨rfl, rfl⟩

/-- A write changes one entry. -/
lemma FileAt.get?_write (h : FileAt s target i relTarget e) (w : WriteCall) {q : PathBuf}
    (hne : ¬ (i = j ∧ (q == relTarget) = true)) :
    ((s.write target w).2.backend j).files.get? q = (s.backend j).files.get? q := by
  rw [h.write_eq]
  by_cases hij : j = i
  · subst hij
    rw [setBackend_self, AssocMap.get?_modify, if_neg]
    exact fun hq => hne ⟨rfl, BEq.symm hq⟩
  · rw [setBackend_of_ne s hij]

/-! ### A link in the tables -/

/-- A link that has been made with the given target. -/
structure LinkedAt (s : AppState ι) (target link : PathBuf) (j : ι) (relLink : PathBuf) :
    Prop where
  routed : s.vfs.resolveFs link = .ok (j, relLink)
  stored : (s.backend j).linkAt relLink = some (some target)

omit [DecidableEq ι] in
/-- A read of the link goes on with the target in the filesystem of the link. -/
lemma LinkedAt.read_eq (h : LinkedAt s target link j relLink) (offset size : Int64) :
    s.read link offset size =
      (s.backend j).readAux offset size (s.backend j).files.size target := by
  rw [read_of_resolveFs h.routed]
  obtain ⟨e, he, htarget⟩ := Option.map_eq_some_iff.1 h.stored
  exact readAux_of_link he htarget

lemma LinkedAt.write (h : LinkedAt s target link j relLink) (hfile : FileAt s target i relTarget e)
    (w : WriteCall) : LinkedAt (s.write target w).2 target link j relLink where
  routed := by
    rw [hfile.write_eq]
    exact h.routed
  stored := by
    rw [(hfile.linkAt_write w j).1]
    exact h.stored

/-- When the target leads to the file in the filesystem of the link, the link reads as the file,
and after a write this is still so. -/
lemma LinkedAt.readsAsTarget (h : LinkedAt s target link i relLink)
    (hfile : FileAt s target i relTarget e)
    (hfollow : follow (s.backend i).linkAt (s.backend i).files.size target = some last)
    (hlast : (last == relTarget) = true) : ReadsAsTarget s target link := by
  intro ws offset size
  induction ws generalizing s e with
  | nil =>
    have hstored := (AssocMap.get?_congr _ hlast).trans hfile.stored
    exact (h.read_eq offset size).trans
      ((readAux_of_follow hfollow hstored hfile.regular.1).trans (hfile.read_eq offset size).symm)
  | cons w ws ih =>
    obtain ⟨hlinks, hsize⟩ := hfile.linkAt_write w i
    refine ih (h.write hfile w) (hfile.write w) ?_
    rw [hlinks, hsize]
    exact hfollow

/-- A link that reads as its target leads to the file. -/
lemma LinkedAt.exists_of_readsAsTarget (h : LinkedAt s target link j relLink)
    (hfile : FileAt s target i relTarget e) (hreads : ReadsAsTarget s target link) :
    i = j ∧ ∃ last, follow (s.backend j).linkAt (s.backend j).files.size target = some last ∧
      (last == relTarget) = true := by
  have hread : (s.backend j).readAux 0 (-1) (s.backend j).files.size target = .ok e.data :=
    calc _ = s.read link 0 (-1) := (h.read_eq 0 (-1)).symm
      _ = s.read target 0 (-1) := hreads [] 0 (-1)
      _ = readData e.data 0 (-1) := hfile.read_eq 0 (-1)
      _ = .ok e.data := readData_whole e.data
  obtain ⟨last, e', hfollow, hlast, hdir⟩ := exists_of_readAux hread
  have hsame : i = j ∧ (last == relTarget) = true := by
    by_contra hne
    -- a write to the file does not reach the entry that the link leads to
    let w : WriteCall := ⟨e'.data ++ [0], 0, .NONE, 0⟩
    obtain ⟨hlinks, hsize⟩ := hfile.linkAt_write w j
    have hlink : (s.write target w).2.read link 0 (-1) = .ok e'.data := by
      rw [(h.write hfile w).read_eq, ← readData_whole e'.data]
      refine readAux_of_follow ?_ ((hfile.get?_write w hne).trans hlast) hdir
      rw [hlinks, hsize]
      exact hfollow
    have htarget : (s.write target w).2.read target 0 (-1) = .ok (e'.data ++ [0]) := by
      rw [(hfile.write w).read_eq, readData_whole]
      exact congrArg Outcome.ok (writeData_start e.data _)
    have heq : Outcome.ok e'.data = .ok (e'.data ++ [0]) :=
      hlink.symm.trans ((hreads [w] 0 (-1)).trans htarget)
    exact absurd (Outcome.ok.inj heq) (by simp)
  exact ⟨hsame.1, last, hfollow, hsame.2⟩

end AppState

open AppState

variable {s : AppState ι} {target link relTarget relLink : PathBuf} {i j : ι} {e : FileEntry}
  {now : DateTime} {a : Reply}

/-- What a call that makes a link does to the tables. -/
lemma symlink_spec (hlink : s.vfs.resolveFs link = .ok (j, relLink))
    (hok : (s.symlink target link now).1 = .ok a) :
    (s.backend j).files.get? relLink = none ∧
      (s.symlink target link now).2 = s.setBackend j { s.backend j with
        files := (s.backend j).files.insert relLink (symlinkEntry target relLink now) } := by
  rw [AppState.symlink, mutate_of_resolveFs hlink] at hok ⊢
  obtain ⟨hfresh, hstate⟩ := MemFS.symlink_of_ok hok
  exact ⟨hfresh, congrArg (s.setBackend j) hstate⟩

/-- A link that the endpoint has made is a link that the mount table has made, with a target that
is valid as a path of the server. -/
lemma of_symlink_ok {s : ServerState ι} {target linkPath body : Bytes}
    (h : (s.symlink target linkPath).1 = .ok body) :
    validatePath target = none ∧ ∃ a, s.app.symlink ⟨target⟩ ⟨linkPath⟩ s.clock =
      (.ok a, (s.symlink target linkPath).2.app) := by
  rw [ServerState.symlink] at h ⊢
  cases htarget : validatePath target with
  | some x =>
    rw [htarget] at h
    cases h
  | none =>
    cases hlink : validatePath linkPath with
    | some x =>
      rw [htarget, hlink] at h
      cases h
    | none =>
      rw [htarget, hlink] at h
      refine ⟨rfl, ?_⟩
      have heq : s.app.symlink ⟨target⟩ ⟨linkPath⟩ s.clock =
        s.app.mutate ⟨linkPath⟩ fun fs p => fs.symlink ⟨target⟩ p s.clock := rfl
      simp only [ServerState.change, ServerState.conclude, ← heq] at h ⊢
      cases hresult : (s.app.symlink ⟨target⟩ ⟨linkPath⟩ s.clock).1 with
      | ok a => exact ⟨a, Prod.ext hresult rfl⟩
      | err x =>
        rw [hresult] at h
        cases h
      | panic =>
        rw [hresult] at h
        cases h

/-- A link that has been made for a file reads as the file, also after writes to it, exactly if
the path of the file, followed through the filesystem of the link before the call, leads to it. -/
theorem readsAsTarget_iff (htarget : s.vfs.resolveFs target = .ok (i, relTarget))
    (hfile : (s.backend i).files.get? relTarget = some e) (hregular : e.IsRegular)
    (hlink : s.vfs.resolveFs link = .ok (j, relLink))
    (hok : (s.symlink target link now).1 = .ok a) :
    ReadsAsTarget (s.symlink target link now).2 target link ↔
      i = j ∧ ∃ last, (s.backend j).lastPath target = some last ∧ (last == relTarget) = true := by
  obtain ⟨hfresh, hstate⟩ := symlink_spec hlink hok
  rw [hstate]
  set fs : MemFS := { s.backend j with
    files := (s.backend j).files.insert relLink (symlinkEntry target relLink now) } with hfs
  have hbackend : (s.setBackend j fs).backend j = fs := setBackend_self s j fs
  have hlinks : ∀ q, fs.linkAt q = some (some target) ∨ fs.linkAt q = (s.backend j).linkAt q := by
    intro q
    rw [hfs, linkAt_insert]
    exact ite_eq_or_eq _ _ _
  have hold : ∀ q x, (s.backend j).linkAt q = some x → fs.linkAt q = some x := by
    intro q x hq
    exact linkAt_insert_of_some now hfresh hq
  have hsize : fs.files.size = (s.backend j).files.size + 1 := by
    rw [hfs, AssocMap.size_insert, AssocMap.contains_eq_false_iff.2 hfresh]
    rfl
  have hlinked : LinkedAt (s.setBackend j fs) target link j relLink := by
    refine ⟨hlink, ?_⟩
    rw [hbackend, hfs, linkAt_insert, if_pos BEq.rfl]
  have hfileAt : FileAt (s.setBackend j fs) target i relTarget e := by
    refine ⟨htarget, ?_, hregular⟩
    by_cases hij : i = j
    · subst hij
      rw [hbackend]
      exact AssocMap.get?_insert_of_new hfresh hfile
    · rw [setBackend_of_ne s hij, hfile]
  constructor
  · intro hreads
    obtain ⟨hij, last, hfollow, hlast⟩ := hlinked.exists_of_readsAsTarget hfileAt hreads
    rw [hbackend, hsize] at hfollow
    exact ⟨hij, last, follow_of_newLinks hlinks hfollow, hlast⟩
  · rintro ⟨rfl, last, hfollow, hlast⟩
    refine hlinked.readsAsTarget hfileAt ?_ hlast
    rw [hbackend, hsize]
    exact follow_extend hold hfollow

/-- An in-memory filesystem that is mounted at `/m`, with the file `/m/t`. -/
def mountedFile : AppState Unit :=
  (AppState.mutate ⟨(Vfs.MountableFS.new.mount ⟨ascii "/m"⟩ ()).2, fun _ => MemFS.new 0⟩
    ⟨ascii "/m/t"⟩ fun fs p => fs.create p 0).2

/-- The same with a directory `/m/m`, and in it a link to `/t`. -/
def mountedLink : AppState Unit :=
  ((mountedFile.mutate ⟨ascii "/m/m"⟩ fun fs p => fs.mkdir p 0o755 0).2.symlink
    ⟨ascii "/t"⟩ ⟨ascii "/m/m/t"⟩ 0).2

/-- The link `/m/m/t` is the path `/m/t` of the filesystem, and leads to the file. -/
theorem readsAsTarget_mountedLink :
    ReadsAsTarget (mountedLink.symlink ⟨ascii "/m/t"⟩ ⟨ascii "/m/l"⟩ 0).2
      ⟨ascii "/m/t"⟩ ⟨ascii "/m/l"⟩ :=
  (readsAsTarget_iff (s := mountedLink) (i := ()) (j := ()) (e := fileEntry ⟨ascii "/t"⟩ 0)
    (a := .unit) rfl rfl ⟨by decide, rfl⟩ rfl rfl).2 ⟨rfl, ⟨ascii "/t"⟩, rfl, by decide⟩

/-- A link to `/m/t` is made, and there is nothing at the path that it leads to. -/
theorem not_readsAsTarget_mountedFile :
    let target : PathBuf := ⟨ascii "/m/t"⟩
    let link : PathBuf := ⟨ascii "/m/l"⟩
    let r := mountedFile.symlink target link 0
    mountedFile.read target 0 (-1) = .ok [] ∧ r.1 = .ok .unit ∧
      r.2.read target 0 (-1) = .ok [] ∧ r.2.read link 0 (-1) = .err (.NotFound target) ∧
      ¬ ReadsAsTarget r.2 target link := by
  refine ⟨rfl, rfl, rfl, rfl, fun h => ?_⟩
  have heq : Outcome.err (.NotFound ⟨ascii "/m/t"⟩) = Outcome.ok [] := h [] 0 (-1)
  cases heq

end Racfs.Server
