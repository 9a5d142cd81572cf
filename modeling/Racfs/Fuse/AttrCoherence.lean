/-
# The attributes that the kernel is told

`lookup_async` and `getattr_async` (`racfs-fuse/src/async_fs.rs`) answer from the cached
metadata of a path, and the operations that change something drop what is cached for the paths
that they are called with.  The client is the only one of its server, and its operations run
one after the other.  The server is arbitrary.

The answers should be made from the metadata that the server has now (`Answered`).  Two
operations leave old metadata in the cache: `chmod_async` drops nothing, and `rename_async` drops
nothing below its paths, although a directory is moved with everything in it.
`answered_of_opOk` says that all answers are right in the runs in which these two change no
metadata that they leave in the cache, and in which no call changes the metadata of other paths
than those that it is for.  The in-memory filesystem never does the latter, and its rename
changes nothing below its paths (`opOk_memRemote`).
-/
import Racfs.Fuse.AsyncFs
import Racfs.Lib.Run
import Racfs.MemFs.Frame

namespace Racfs.Fuse

open RacfsAsyncFs Server Errno

variable {σ : Type*} (remote : Remote σ)

/-- The metadata that the server has for a path. -/
def current (s : σ) (path : PathBuf) : Option MetadataResponse :=
  (remote.stat path.bytes s).1.toOption

/-! ### Runs -/

/-- The operations on entries and their metadata. -/
inductive Op
  | lookup (parent : UInt64) (name : Bytes) (now : DateTime)
  | getattr (ino : UInt64) (now : DateTime)
  | create (parent : UInt64) (name : Bytes)
  | mkdir (parent : UInt64) (name : Bytes) (mode : UInt32)
  | symlink (parent : UInt64) (name target : Bytes)
  | unlink (parent : UInt64) (name : Bytes)
  | rmdir (parent : UInt64) (name : Bytes)
  | rename (parent : UInt64) (name : Bytes) (newparent : UInt64) (newname : Bytes)
  | chmod (ino : UInt64) (mode : UInt32)
  | truncate (ino size : UInt64)

/-- The state after an operation. -/
def after (fs : RacfsAsyncFs σ) : Op → RacfsAsyncFs σ
  | .lookup parent name now => (fs.lookupAsync remote parent name now).2
  | .getattr ino now => (fs.getattrAsync remote ino now).2
  | .create parent name => (fs.createAsync remote parent name).2
  | .mkdir parent name mode => (fs.mkdirAsync remote parent name mode).2
  | .symlink parent name target => (fs.symlinkAsync remote parent name target).2
  | .unlink parent name => (fs.unlinkAsync remote parent name).2
  | .rmdir parent name => (fs.rmdirAsync remote parent name).2
  | .rename parent name newparent newname =>
    (fs.renameAsync remote parent name newparent newname).2
  | .chmod ino mode => (fs.chmodAsync remote ino mode).2
  | .truncate ino size => (fs.truncateAsync remote ino size).2

/-- One step; every operation is possible in every state. -/
def opStep (fs : RacfsAsyncFs σ) (op : Op) : Option (RacfsAsyncFs σ) := some (after remote fs op)

/-- The answer for the metadata of a path. -/
def answer (ino : UInt64) : Option MetadataResponse → Except Errno FileAttr
  | some metadata => .ok (metadataToAttr ino metadata)
  | none => .error ENOENT

/-- Every lookup and every request for attributes that comes now is answered from the metadata
that the server has now. -/
structure Answered (fs : RacfsAsyncFs σ) : Prop where
  lookup : ∀ parent name path now, fs.childPath parent name = some path →
    (fs.statCached remote path now).1 = current remote fs.server path ∧
      (fs.lookupAsync remote parent name now).1 =
        answer (fs.inodes.allocate path).1 (current remote fs.server path)
  getattr : ∀ ino path now, fs.inodes.getPath ino = some path →
    (fs.statCached remote path now).1 = current remote fs.server path ∧
      (fs.getattrAsync remote ino now).1 = answer ino (current remote fs.server path)

/-! ### The condition -/

/-- The call for a path is made, succeeds, and is for `q`. -/
def TouchedBy (path : Option PathBuf) (c : PathBuf → Call σ Bytes) (s : σ) (q : PathBuf) : Prop :=
  ∃ p, path = some p ∧ (p == q) = true ∧ Succeeds (c p) s

/-- The operation is for a path: it may change the metadata of this path.  An operation that
fails is for none, but a removal that fails may have removed something. -/
def Touches (fs : RacfsAsyncFs σ) (q : PathBuf) : Op → Prop
  | .lookup _ _ _ => False
  | .getattr _ _ => False
  | .create parent name =>
    TouchedBy (fs.childPath parent name) (fun p => remote.createFile p.toStringLossy) fs.server q
  | .mkdir parent name mode =>
    TouchedBy (fs.childPath parent name) (fun p => remote.mkdir p.toStringLossy (some mode))
      fs.server q
  | .symlink parent name target =>
    TouchedBy (fs.childPath parent name)
      (fun p => remote.symlink (fromUtf8Lossy target) p.toStringLossy) fs.server q
  | .unlink parent name => ∃ p, fs.childPath parent name = some p ∧ (p == q) = true
  | .rmdir parent name => ∃ p, fs.childPath parent name = some p ∧ (p == q) = true
  | .rename parent name newparent newname =>
    ∃ old new, fs.childPath parent name = some old ∧ fs.childPath newparent newname = some new ∧
      Succeeds (remote.rename old.toStringLossy new.toStringLossy) fs.server ∧
      (q.startsWith old = true ∨ q.startsWith new = true)
  | .chmod ino mode =>
    TouchedBy (fs.inodes.getPath ino) (fun p => remote.chmod p.toStringLossy mode) fs.server q
  | .truncate ino size =>
    TouchedBy (fs.inodes.getPath ino) (fun p => remote.truncate p.toStringLossy size) fs.server q

/-- The operation drops the cached metadata of a path. -/
def Drops (fs : RacfsAsyncFs σ) (q : PathBuf) : Op → Prop
  | .rename parent name newparent newname =>
    ∃ old new, fs.childPath parent name = some old ∧ fs.childPath newparent newname = some new ∧
      Succeeds (remote.rename old.toStringLossy new.toStringLossy) fs.server ∧
      ((old == q) = true ∨ (new == q) = true)
  | .chmod _ _ => False
  | op => Touches remote fs q op

/-- The condition on an operation. -/
structure OpOk (fs : RacfsAsyncFs σ) (op : Op) : Prop where
  /-- The server takes a path by its components. -/
  congr : ∀ p q : PathBuf, (p == q) = true → current remote fs.server p = current remote fs.server q
  /-- Only the metadata of the paths that the operation is for changes. -/
  frame : ∀ q, ¬ Touches remote fs q op →
    current remote (after remote fs op).server q = current remote fs.server q
  /-- Cached metadata that is not dropped does not change. -/
  left : ∀ q e, Touches remote fs q op → ¬ Drops remote fs q op →
    fs.cache.statCache.get? q = some e →
      current remote (after remote fs op).server q = current remote fs.server q

/-- The invariant: paths are texts, and the cached metadata is that of the server. -/
structure Coherent (fs : RacfsAsyncFs σ) : Prop where
  isText : ∀ ino path, fs.inodes.getPath ino = some path → path.IsText
  cached : ∀ q e, fs.cache.statCache.get? q = some e →
    current remote fs.server q = some e.value

variable {remote}

/-! ### Answers -/

/-- The paths of all inodes are texts. -/
def TextPaths (m : InodeManager) : Prop := ∀ ino path, m.getPath ino = some path → path.IsText

section Answers

variable {fs : RacfsAsyncFs σ}

/-- The paths of names in directories are texts. -/
lemma TextPaths.isText_childPath (h : TextPaths fs.inodes) {parent : UInt64} {name : Bytes}
    {path : PathBuf} (hpath : fs.childPath parent name = some path) : path.IsText := by
  obtain ⟨parentPath, hparent, rfl⟩ := Option.map_eq_some_iff.1 hpath
  exact (h parent parentPath hparent).push name

lemma Coherent.isText_childPath (h : Coherent remote fs) {parent : UInt64} {name : Bytes}
    {path : PathBuf} (hpath : fs.childPath parent name = some path) : path.IsText :=
  TextPaths.isText_childPath h.isText hpath

lemma coherent_new (ttl : ℤ) (server : σ) : Coherent remote (RacfsAsyncFs.new ttl server) where
  isText ino path h := by
    have hroot : InodeManager.new.getPath ino = some path := h
    rw [InodeManager.getPath, InodeManager.new, AssocMap.get?_insert] at hroot
    split_ifs at hroot
    · rw [← Option.some.inj hroot]
      rfl
    · cases hroot
  cached _ _ h := nomatch h

/-- The metadata is that of the server. -/
lemma Coherent.statCached_fst (h : Coherent remote fs) {path : PathBuf} (htext : path.IsText)
    (now : DateTime) : (fs.statCached remote path now).1 = current remote fs.server path := by
  rcases statCached_cases fs path now with ⟨e, hget, -, heq⟩ | ⟨-, heq, -, -⟩
  · rw [heq, h.cached path e hget]
  · rw [heq, current, htext]

/-- The answer to a lookup. -/
lemma lookupAsync_fst {parent : UInt64} {name : Bytes} {path : PathBuf}
    (hpath : fs.childPath parent name = some path) (now : DateTime) :
    (fs.lookupAsync remote parent name now).1 =
      answer (fs.inodes.allocate path).1 (fs.statCached remote path now).1 := by
  have hinodes := @statCached_inodes σ remote fs path now
  simp only [lookupAsync, hpath]
  rcases hcached : fs.statCached remote path now with ⟨_ | metadata, fs'⟩
  · rfl
  · have hsame : fs'.inodes = fs.inodes := by
      rw [hcached] at hinodes
      exact hinodes
    simp only [allocated, answer, hsame]

lemma Coherent.answered (h : Coherent remote fs) : Answered remote fs where
  lookup parent name path now hpath := by
    have hstat := h.statCached_fst (h.isText_childPath hpath) now
    exact ⟨hstat, by rw [lookupAsync_fst hpath, hstat]⟩
  getattr ino path now hpath := by
    have hstat := h.statCached_fst (h.isText ino path hpath) now
    refine ⟨hstat, ?_⟩
    simp only [getattrAsync, hpath, ← hstat]
    rcases fs.statCached remote path now with ⟨_ | metadata, fs'⟩ <;> rfl

end Answers

/-! ### The tables after an operation -/

lemma TextPaths.allocate {m : InodeManager} (h : TextPaths m) {path : PathBuf}
    (htext : path.IsText) : TextPaths (m.allocate path).2 := by
  intro ino p hp
  rcases InodeManager.getPath_allocate hp with hp | rfl
  · exact h ino p hp
  · exact htext

lemma TextPaths.forget {fs : RacfsAsyncFs σ} (h : TextPaths fs.inodes) (path : PathBuf) :
    TextPaths (fs.forget path).inodes := by
  rw [RacfsAsyncFs.forget]
  cases fs.inodes.getInode path with
  | none => exact h
  | some ino => exact fun i p hp => h i p (InodeManager.getPath_remove hp)

/-- The paths stay texts, and of the cached metadata that is kept nothing is `dropped`. -/
structure Keeps (fs fs' : RacfsAsyncFs σ) (dropped : PathBuf → Prop) : Prop where
  isText : TextPaths fs'.inodes
  cached : ∀ q e, fs'.cache.statCache.get? q = some e →
    fs.cache.statCache.get? q = some e ∧ ¬ dropped q

section Tables

variable {fs : RacfsAsyncFs σ}

/-- A failed call drops nothing. -/
lemma not_touchedBy {path p : PathBuf} {c : PathBuf → Call σ Bytes} {s : σ}
    (hfail : ¬ Succeeds (c path) s) : ¬ TouchedBy (some path) c s p := by
  rintro ⟨p', hp', -, hok⟩
  cases hp'
  exact hfail hok

/-- What is still cached after an invalidation was cached before, for another path. -/
lemma cached_invalidate {path q : PathBuf} {e : CacheEntry MetadataResponse}
    (h : (fs.invalidate path).cache.statCache.get? q = some e) :
    fs.cache.statCache.get? q = some e ∧ ¬ (path == q) = true := by
  have hget : (if path == q then none else fs.cache.statCache.get? q) = some e := by
    rw [← FuseCache.getStat_invalidate]
    exact h
  split_ifs at hget with hpq
  exact ⟨hget, hpq⟩

lemma cached_invalidate_touchedBy {path q : PathBuf} {e : CacheEntry MetadataResponse}
    (h : (fs.invalidate path).cache.statCache.get? q = some e) (c : PathBuf → Call σ Bytes)
    (s : σ) : fs.cache.statCache.get? q = some e ∧ ¬ TouchedBy (some path) c s q := by
  obtain ⟨hget, hpq⟩ := cached_invalidate h
  exact ⟨hget, fun ⟨p, hp, hpq', _⟩ => hpq (Option.some.inj hp ▸ hpq')⟩

/-- Nothing is for a path that is not there. -/
lemma not_touchedBy_none {q : PathBuf} {c : PathBuf → Call σ Bytes} {s : σ} :
    ¬ TouchedBy none c s q :=
  fun ⟨_, hp, _⟩ => nomatch hp

lemma keeps_makeEntry (htext : TextPaths fs.inodes) {c : (path : Bytes) → Call σ Bytes}
    {parent : UInt64} {name : Bytes}
    (hchild : ∀ path, fs.childPath parent name = some path → path.IsText) :
    Keeps fs (fs.makeEntry remote c parent name).2
      (TouchedBy (fs.childPath parent name) (fun p => c p.toStringLossy) fs.server) := by
  rcases @makeEntry_cases σ remote fs c parent name with
    ⟨hpath, heq⟩ | ⟨path, hpath, ⟨hfail, heq⟩ | ⟨inodes, hinodes, heq⟩⟩
  · rw [heq, hpath]
    exact ⟨htext, fun q e hq => ⟨hq, not_touchedBy_none⟩⟩
  · rw [heq, hpath]
    exact ⟨htext, fun q e hq => ⟨hq, not_touchedBy hfail⟩⟩
  · rw [heq, hpath]
    refine ⟨?_, fun q e hq => cached_invalidate_touchedBy hq _ _⟩
    rcases hinodes with rfl | rfl
    · exact htext
    · exact htext.allocate (hchild path hpath)

lemma keeps_removeEntry (htext : TextPaths fs.inodes) (parent : UInt64) (name : Bytes) :
    Keeps fs (fs.removeEntry remote parent name).2
      fun q => ∃ p, fs.childPath parent name = some p ∧ (p == q) = true := by
  rcases @removeEntry_cases σ remote fs parent name with ⟨hpath, heq⟩ | ⟨path, hpath, heq⟩
  · rw [heq, hpath]
    exact ⟨htext, fun q e hq => ⟨hq, fun ⟨p, hp, _⟩ => nomatch hp⟩⟩
  · rw [heq, hpath]
    refine ⟨htext.forget path, fun q e hq => ?_⟩
    obtain ⟨hget, hpq⟩ := cached_invalidate hq
    exact ⟨hget, fun ⟨p, hp, hpq'⟩ => hpq (Option.some.inj hp ▸ hpq')⟩

lemma keeps_renameAsync (htext : TextPaths fs.inodes) {parent newparent : UInt64}
    {name newname : Bytes}
    (hchild : ∀ path, fs.childPath newparent newname = some path → path.IsText) :
    Keeps fs (fs.renameAsync remote parent name newparent newname).2
      fun q => Drops remote fs q (.rename parent name newparent newname) := by
  rcases @renameAsync_cases σ remote fs parent name newparent newname with
    ⟨hnone, heq⟩ | ⟨old, new, hold, hnew, ⟨hfail, heq⟩ | heq⟩
  · rw [heq]
    refine ⟨htext, fun q e hq => ⟨hq, fun ⟨o, n, ho, hn, _⟩ => ?_⟩⟩
    rcases hnone with hnone | hnone
    · exact nomatch hnone.symm.trans ho
    · exact nomatch hnone.symm.trans hn
  · rw [heq]
    refine ⟨htext, fun q e hq => ⟨hq, fun ⟨o, n, ho, hn, hok, _⟩ => ?_⟩⟩
    cases hold.symm.trans ho
    cases hnew.symm.trans hn
    exact hfail hok
  · rw [heq]
    refine ⟨(htext.forget old).allocate (hchild new hnew), fun q e hq => ?_⟩
    obtain ⟨hqold, hqnew, hget⟩ := FuseCache.of_getStat_invalidateRename hq
    refine ⟨hget, fun ⟨o, n, ho, hn, _, hq'⟩ => ?_⟩
    cases hold.symm.trans ho
    cases hnew.symm.trans hn
    rcases hq' with hq' | hq'
    · exact absurd hq' (by simp [hqold])
    · exact absurd hq' (by simp [hqnew])

lemma keeps_chmodAsync (htext : TextPaths fs.inodes) (ino : UInt64) (mode : UInt32) :
    Keeps fs (fs.chmodAsync remote ino mode).2 fun _ => False := by
  rcases @chmodAsync_cases σ remote fs ino mode with ⟨-, heq⟩ | ⟨path, -, heq | heq⟩
  all_goals
    rw [heq]
    exact ⟨htext, fun q e hq => ⟨hq, id⟩⟩

lemma keeps_truncateAsync (htext : TextPaths fs.inodes) (ino size : UInt64) :
    Keeps fs (fs.truncateAsync remote ino size).2
      (TouchedBy (fs.inodes.getPath ino) (fun p => remote.truncate p.toStringLossy size)
        fs.server) := by
  rcases @truncateAsync_cases σ remote fs ino size with
    ⟨hpath, heq⟩ | ⟨path, hpath, ⟨hfail, heq⟩ | heq⟩
  · rw [heq, hpath]
    exact ⟨htext, fun q e hq => ⟨hq, not_touchedBy_none⟩⟩
  · rw [heq, hpath]
    exact ⟨htext, fun q e hq => ⟨hq, not_touchedBy hfail⟩⟩
  · rw [heq, hpath]
    exact ⟨htext, fun q e hq => cached_invalidate_touchedBy hq _ _⟩

/-- What is cached when the metadata of a path has been asked for is what the server has. -/
lemma Coherent.statCached (h : Coherent remote fs) (hok : ∀ p q : PathBuf, (p == q) = true →
      current remote fs.server p = current remote fs.server q) {path : PathBuf}
    (htext : path.IsText) (now : DateTime) {q : PathBuf} {e : CacheEntry MetadataResponse}
    (hq : (fs.statCached remote path now).2.cache.statCache.get? q = some e) :
    current remote fs.server q = some e.value := by
  rcases statCached_cases fs path now with ⟨e', -, -, heq⟩ | ⟨-, -, -, hcached⟩
  · rw [heq] at hq
    exact h.cached q e hq
  · rcases hcached q e hq with hget | ⟨hpq, hstat⟩
    · exact h.cached q e hget
    · rw [← hok path q hpq, current, ← hstat, htext]

end Tables

/-! ### Runs in which the answers are right -/

/-- The lookups: nothing is touched, and what is cached is what the server has. -/
lemma coherent_lookup {fs fs' : RacfsAsyncFs σ} {op : Op} (hok : OpOk remote fs op)
    (hnone : ∀ q, ¬ Touches remote fs q op) (hafter : after remote fs op = fs')
    (htext : TextPaths fs'.inodes)
    (hcached : ∀ q e, fs'.cache.statCache.get? q = some e →
      current remote fs.server q = some e.value) : Coherent remote (after remote fs op) := by
  subst hafter
  refine ⟨htext, fun q e hq => ?_⟩
  rw [hok.frame q (hnone q)]
  exact hcached q e hq

/-- The other operations: what is kept in the cache is not dropped. -/
lemma coherent_of_keeps {fs : RacfsAsyncFs σ} {op : Op} (h : Coherent remote fs)
    (hok : OpOk remote fs op)
    (hkeeps : Keeps fs (after remote fs op) fun q => Drops remote fs q op) :
    Coherent remote (after remote fs op) := by
  refine ⟨hkeeps.isText, fun q e hq => ?_⟩
  obtain ⟨hget, hdrops⟩ := hkeeps.cached q e hq
  by_cases htouches : Touches remote fs q op
  · rw [hok.left q e htouches hdrops hget]
    exact h.cached q e hget
  · rw [hok.frame q htouches]
    exact h.cached q e hget

lemma Coherent.after {fs : RacfsAsyncFs σ} {op : Op} (h : Coherent remote fs)
    (hok : OpOk remote fs op) : Coherent remote (after remote fs op) := by
  cases op with
  | lookup parent name now =>
    rcases @lookupAsync_cases σ remote fs parent name now with heq | ⟨path, hp, hcache, hinodes⟩
    · exact coherent_lookup hok (fun _ hq => hq) heq h.isText h.cached
    · have htext := h.isText_childPath hp
      refine coherent_lookup hok (fun _ hq => hq) rfl ?_ fun q e hq => ?_
      · rcases hinodes with hinodes | hinodes
        · exact fun ino p hp => h.isText ino p (hinodes ▸ hp)
        · exact fun ino p hp => TextPaths.allocate h.isText htext ino p (hinodes ▸ hp)
      · exact h.statCached hok.congr htext now (hcache ▸ hq)
  | getattr ino now =>
    rcases @getattrAsync_cases σ remote fs ino now with heq | ⟨path, hp, heq⟩
    · exact coherent_lookup hok (fun _ hq => hq) heq h.isText h.cached
    · refine coherent_lookup hok (fun _ hq => hq) heq ?_ fun q e hq => ?_
      · rw [statCached_inodes]
        exact h.isText
      · exact h.statCached hok.congr (h.isText ino path hp) now hq
  | create parent name =>
    exact coherent_of_keeps h hok (keeps_makeEntry h.isText fun _ hp => h.isText_childPath hp)
  | mkdir parent name mode =>
    exact coherent_of_keeps h hok (keeps_makeEntry h.isText fun _ hp => h.isText_childPath hp)
  | symlink parent name target =>
    exact coherent_of_keeps h hok (keeps_makeEntry h.isText fun _ hp => h.isText_childPath hp)
  | unlink parent name => exact coherent_of_keeps h hok (keeps_removeEntry h.isText parent name)
  | rmdir parent name => exact coherent_of_keeps h hok (keeps_removeEntry h.isText parent name)
  | rename parent name newparent newname =>
    exact coherent_of_keeps h hok (keeps_renameAsync h.isText fun _ hp => h.isText_childPath hp)
  | chmod ino mode => exact coherent_of_keeps h hok (keeps_chmodAsync h.isText ino mode)
  | truncate ino size => exact coherent_of_keeps h hok (keeps_truncateAsync h.isText ino size)

/-- In a run whose operations all meet `OpOk`, every answer in every state is made from the
metadata that the server has then. -/
theorem answered_of_opOk (ttl : ℤ) (server : σ) (ops : List Op)
    (hok : StepsMeet (opStep remote) (OpOk remote) (RacfsAsyncFs.new ttl server) ops) :
    StatesMeet (opStep remote) (Answered remote) (RacfsAsyncFs.new ttl server) ops := by
  have hcoherent : StatesMeet (opStep remote) (Coherent remote) (RacfsAsyncFs.new ttl server)
      ops := by
    refine statesMeet_of_stepsMeet (fun fs op fs' h hop hfs' => ?_) (coherent_new ttl server) hok
    rw [← Option.some.inj hfs']
    exact h.after hop
  exact hcoherent.imp fun _ h => h.answered

/-! ### The server after an operation -/

section Server

variable {fs : RacfsAsyncFs σ}

/-- The server after the call for a path, if there is a path. -/
def served (path : Option PathBuf) (c : PathBuf → Call σ Bytes) (s : σ) : σ :=
  path.elim s fun p => (c p s).2

lemma server_removeEntry (parent : UInt64) (name : Bytes) :
    (fs.removeEntry remote parent name).2.server =
      served (fs.childPath parent name) (fun p => remote.remove p.toStringLossy) fs.server := by
  rcases @removeEntry_cases σ remote fs parent name with ⟨hpath, heq⟩ | ⟨path, hpath, heq⟩
  all_goals
    rw [heq, hpath]
    rfl

lemma server_renameAsync (parent : UInt64) (name : Bytes) (newparent : UInt64)
    (newname : Bytes) :
    (fs.renameAsync remote parent name newparent newname).2.server = fs.server ∨
    ∃ old new, fs.childPath parent name = some old ∧ fs.childPath newparent newname = some new ∧
      (fs.renameAsync remote parent name newparent newname).2.server =
        (remote.rename old.toStringLossy new.toStringLossy fs.server).2 := by
  rcases @renameAsync_cases σ remote fs parent name newparent newname with
    ⟨-, heq⟩ | ⟨old, new, hold, hnew, ⟨-, heq⟩ | heq⟩
  · exact Or.inl (by rw [heq])
  · exact Or.inr ⟨old, new, hold, hnew, by rw [heq]⟩
  · exact Or.inr ⟨old, new, hold, hnew, by rw [heq]⟩

variable (hstat : ∀ path s, (remote.stat path s).2 = s)
include hstat

lemma server_makeEntry (c : (path : Bytes) → Call σ Bytes) (parent : UInt64) (name : Bytes) :
    (fs.makeEntry remote c parent name).2.server =
      served (fs.childPath parent name) (fun p => c p.toStringLossy) fs.server := by
  rcases @makeEntry_cases σ remote fs c parent name with
    ⟨hpath, heq⟩ | ⟨path, hpath, ⟨-, heq⟩ | ⟨inodes, -, heq⟩⟩
  · rw [heq, hpath]
    rfl
  · rw [heq, hpath]
    rfl
  · rw [heq, hpath, hstat]
    rfl

lemma server_chmodAsync (ino : UInt64) (mode : UInt32) :
    (fs.chmodAsync remote ino mode).2.server =
      served (fs.inodes.getPath ino) (fun p => remote.chmod p.toStringLossy mode) fs.server := by
  rcases @chmodAsync_cases σ remote fs ino mode with ⟨hpath, heq⟩ | ⟨path, hpath, heq | heq⟩
  · rw [heq, hpath]
    rfl
  · rw [heq, hpath]
    rfl
  · rw [heq, hpath, hstat]
    rfl

lemma server_truncateAsync (ino size : UInt64) :
    (fs.truncateAsync remote ino size).2.server =
      served (fs.inodes.getPath ino) (fun p => remote.truncate p.toStringLossy size)
        fs.server := by
  rcases @truncateAsync_cases σ remote fs ino size with
    ⟨hpath, heq⟩ | ⟨path, hpath, ⟨-, heq⟩ | heq⟩
  · rw [heq, hpath]
    rfl
  · rw [heq, hpath]
    rfl
  · rw [heq, hpath, hstat]
    rfl

lemma server_statCached (path : PathBuf) (now : DateTime) :
    (fs.statCached remote path now).2.server = fs.server := by
  have hsame := hstat path.toStringLossy fs.server
  rw [statCached]
  rcases fs.cache.getStat path now with ⟨_ | m, c⟩
  · simp only
    rcases hcall : remote.stat path.toStringLossy fs.server with ⟨e | m, server⟩
    all_goals
      rw [hcall] at hsame
      exact hsame
  · rfl

lemma server_lookupAsync (parent : UInt64) (name : Bytes) (now : DateTime) :
    (fs.lookupAsync remote parent name now).2.server = fs.server := by
  rw [RacfsAsyncFs.lookupAsync]
  cases fs.childPath parent name with
  | none => rfl
  | some path =>
    have hsame := @server_statCached σ remote fs hstat path now
    simp only
    rcases hcached : fs.statCached remote path now with ⟨_ | m, fs'⟩
    all_goals
      rw [hcached] at hsame
      exact hsame

lemma server_getattrAsync (ino : UInt64) (now : DateTime) :
    (fs.getattrAsync remote ino now).2.server = fs.server := by
  rcases @getattrAsync_cases σ remote fs ino now with heq | ⟨path, -, heq⟩
  · rw [heq]
  · rw [heq, server_statCached hstat]

end Server

/-! ### A server with one in-memory filesystem -/

section MemServer

open MemFs

variable (format : DateTime → String) (now : DateTime)

/-- A call that changes the filesystem; the message in the response is left out. -/
def memCall (operation : String) (path : PathBuf) (f : MemFS → Outcome Reply × MemFS) :
    Call MemFS Bytes := fun s =>
  let r := f s
  (Client.handleResponse (respond (ascii operation) path (fun _ => []) r.1), r.2)

/-- The calls on a server with one in-memory filesystem, which gets the paths as they are.  The
rename is a parameter. -/
def memRemote (rename : MemFS → PathBuf → PathBuf → Outcome Reply × MemFS) : Remote MemFS where
  stat path s :=
    (Client.handleResponse (respond (ascii "stat") ⟨path⟩ (MetadataResponse.ofMetadata format)
      (s.stat ⟨path⟩)), s)
  readDir path s := (.ok ((s.readDir ⟨path⟩).map (DirectoryEntry.ofMetadata format)), s)
  readFile path s :=
    (Client.handleTextResponse Client.escaped (respond (ascii "read") ⟨path⟩ fromUtf8Lossy
      (s.read ⟨path⟩ 0 (-1))), s)
  writeFile path data offset :=
    memCall "write" ⟨path⟩ fun s => s.write ⟨path⟩ data (offset.getD 0) .NONE now
  createFile path := memCall "create" ⟨path⟩ fun s => s.create ⟨path⟩ now
  mkdir path perm := memCall "mkdir" ⟨path⟩ fun s => s.mkdir ⟨path⟩ (perm.getD 0o755) now
  remove path := memCall "remove" ⟨path⟩ fun s => s.remove ⟨path⟩
  rename oldPath newPath := memCall "rename" ⟨oldPath⟩ fun s => rename s ⟨oldPath⟩ ⟨newPath⟩
  chmod path mode := memCall "chmod" ⟨path⟩ fun s => s.chmod ⟨path⟩ mode now
  truncate path size := memCall "truncate" ⟨path⟩ fun s => s.truncate ⟨path⟩ size now
  symlink target linkPath :=
    memCall "symlink" ⟨linkPath⟩ fun s => s.symlink ⟨target⟩ ⟨linkPath⟩ now

variable {format now}

/-- The metadata of a path is in the file table. -/
lemma current_memRemote (rename : MemFS → PathBuf → PathBuf → Outcome Reply × MemFS) (s : MemFS)
    (q : PathBuf) : current (memRemote format now rename) s q =
      (s.files.get? q).map fun e => .ofMetadata format e.metadata := by
  rw [current, memRemote]
  simp only [MemFS.stat, MemFS.getEntry]
  cases s.files.get? q <;> rfl

/-- A call succeeds exactly when the operation does. -/
lemma ne_ok_of_not_succeeds {operation : String} {path : PathBuf}
    {f : MemFS → Outcome Reply × MemFS} {s : MemFS}
    (h : ¬ Succeeds (memCall operation path f) s) : ∀ a, (f s).1 ≠ .ok a := by
  intro a ha
  refine h ⟨[], ?_⟩
  simp only [memCall, ha]
  rfl

/-- A call for a path that is not for `q` does not change the entry of `q`. -/
lemma get?_served (operation : String) (f : PathBuf → MemFS → Outcome Reply × MemFS) {s : MemFS}
    {path : Option PathBuf} {q : PathBuf} (hf : ∀ p, ChangesAt s p (f p s))
    (htext : ∀ p, path = some p → p.IsText)
    (h : ¬ TouchedBy path (fun p => memCall operation ⟨p.toStringLossy⟩
      (f ⟨p.toStringLossy⟩)) s q) :
    (served path (fun p => memCall operation ⟨p.toStringLossy⟩ (f ⟨p.toStringLossy⟩))
      s).files.get? q = s.files.get? q := by
  cases path with
  | none => rfl
  | some p =>
    have hp : PathBuf.mk p.toStringLossy = p := (htext p rfl).mk_toStringLossy
    simp only [TouchedBy] at h
    show (memCall operation ⟨p.toStringLossy⟩ (f ⟨p.toStringLossy⟩) s).2.files.get? q = _
    rw [hp]
    by_cases hok : Succeeds (memCall operation p (f p)) s
    · have hpq : (p == q) = false := by
        cases hpq : p == q with
        | false => rfl
        | true =>
          refine absurd ⟨p, rfl, hpq, ?_⟩ h
          rw [hp]
          exact hok
      exact (hf p).frame q hpq
    · exact congrArg (fun fs : MemFS => fs.files.get? q) ((hf p).failed (ne_ok_of_not_succeeds hok))

lemma get?_served_remove {s : MemFS} {path : Option PathBuf} {q : PathBuf}
    (htext : ∀ p, path = some p → p.IsText)
    (h : ¬ ∃ p, path = some p ∧ (p == q) = true) :
    (served path (fun p => memCall "remove" ⟨p.toStringLossy⟩
      fun s => s.remove ⟨p.toStringLossy⟩) s).files.get? q = s.files.get? q := by
  cases path with
  | none => rfl
  | some p =>
    show (s.remove ⟨p.toStringLossy⟩).2.files.get? q = s.files.get? q
    rw [(htext p rfl).mk_toStringLossy]
    refine get?_remove ?_
    by_contra hpq
    exact h ⟨p, rfl, by simpa using hpq⟩

/-- The rename of two paths that are not the given one. -/
lemma get?_served_rename {fs : RacfsAsyncFs MemFS} (htext : TextPaths fs.inodes)
    {parent newparent : UInt64} {name newname : Bytes} {q : PathBuf}
    (hq : ∀ old new, fs.childPath parent name = some old →
      fs.childPath newparent newname = some new →
      Succeeds ((memRemote format now MemFS.rename).rename old.toStringLossy new.toStringLossy)
        fs.server → (old == q) = false ∧ (new == q) = false) :
    (fs.renameAsync (memRemote format now MemFS.rename) parent name newparent
      newname).2.server.files.get? q = fs.server.files.get? q := by
  rcases @server_renameAsync MemFS (memRemote format now MemFS.rename) fs parent name
    newparent newname with hserver | ⟨old, new, hold, hnew, hserver⟩
  · rw [hserver]
  · rw [hserver]
    show (MemFS.rename fs.server ⟨old.toStringLossy⟩ ⟨new.toStringLossy⟩).2.files.get? q = _
    by_cases hok : Succeeds ((memRemote format now MemFS.rename).rename old.toStringLossy
      new.toStringLossy) fs.server
    · obtain ⟨hqold, hqnew⟩ := hq old new hold hnew hok
      rw [(htext.isText_childPath hold).mk_toStringLossy,
        (htext.isText_childPath hnew).mk_toStringLossy]
      exact get?_rename hqold hqnew
    · exact get?_rename_failed (ne_ok_of_not_succeeds hok) q

/-- An operation changes the entries of the paths that it is for, and no others. -/
lemma get?_after_memRemote {fs : RacfsAsyncFs MemFS} {op : Op} (htext : TextPaths fs.inodes)
    {q : PathBuf} (hq : ¬ Touches (memRemote format now MemFS.rename) fs q op) :
    (after (memRemote format now MemFS.rename) fs op).server.files.get? q =
      fs.server.files.get? q := by
  have hstat : ∀ path s, ((memRemote format now MemFS.rename).stat path s).2 = s :=
    fun _ _ => rfl
  have hchild : ∀ {parent name} p, fs.childPath parent name = some p → p.IsText :=
    fun p hp => htext.isText_childPath hp
  cases op with
  | lookup parent name now => simp only [after, server_lookupAsync hstat]
  | getattr ino now => simp only [after, server_getattrAsync hstat]
  | create parent name =>
    simp only [after, createAsync, server_makeEntry hstat]
    exact get?_served "create" (fun p s => s.create p now) (fun p => changesAt_create p now)
      (fun p => hchild p) hq
  | mkdir parent name mode =>
    simp only [after, mkdirAsync, server_makeEntry hstat]
    exact get?_served "mkdir" (fun p s => s.mkdir p mode now)
      (fun p => changesAt_mkdir p mode now) (fun p => hchild p) hq
  | symlink parent name target =>
    simp only [after, symlinkAsync, server_makeEntry hstat]
    exact get?_served "symlink" (fun p s => s.symlink ⟨fromUtf8Lossy target⟩ p now)
      (fun p => changesAt_symlink _ p now) (fun p => hchild p) hq
  | unlink parent name =>
    simp only [after, unlinkAsync, server_removeEntry]
    exact get?_served_remove (fun p => hchild p) hq
  | rmdir parent name =>
    simp only [after, rmdirAsync, server_removeEntry]
    exact get?_served_remove (fun p => hchild p) hq
  | rename parent name newparent newname =>
    -- a path is not below the paths of the rename, so it is neither of them
    have hne : ∀ p : PathBuf, ¬ q.startsWith p = true → (p == q) = false := by
      intro p hp
      by_contra heq
      refine hp (PathBuf.startsWith_iff.2 ?_)
      rw [PathBuf.beq_iff.1 (by simpa using heq)]
    refine get?_served_rename htext fun old new hold hnew hok => ?_
    have hbelow : ¬ (q.startsWith old = true ∨ q.startsWith new = true) :=
      fun hb => hq ⟨old, new, hold, hnew, hok, hb⟩
    exact ⟨hne old fun h => hbelow (Or.inl h), hne new fun h => hbelow (Or.inr h)⟩
  | chmod ino mode =>
    simp only [after, server_chmodAsync hstat]
    exact get?_served "chmod" (fun p s => s.chmod p mode now)
      (fun p => changesAt_chmod p mode now) (fun p => htext ino p) hq
  | truncate ino size =>
    simp only [after, server_truncateAsync hstat]
    exact get?_served "truncate" (fun p s => s.truncate p size now)
      (fun p => changesAt_truncate p size now) (fun p => htext ino p) hq

/-- On an in-memory filesystem every operation meets the condition, except for a change of the
permissions of a path with cached metadata. -/
lemma opOk_memRemote {fs : RacfsAsyncFs MemFS} {op : Op} (htext : TextPaths fs.inodes)
    (hchmod : ∀ ino mode path, op = .chmod ino mode → fs.inodes.getPath ino = some path →
      fs.cache.statCache.get? path = none) :
    OpOk (memRemote format now MemFS.rename) fs op := by
  refine ⟨fun p q hpq => ?_, fun q hq => ?_, fun q e htouches hdrops hget => ?_⟩
  · simp only [current_memRemote, AssocMap.get?_congr _ hpq]
  · simp only [current_memRemote, get?_after_memRemote htext hq]
  · cases op with
    | rename parent name newparent newname =>
      have hne : ∀ p : PathBuf, ¬ (p == q) = true → (p == q) = false := by
        intro p hp
        simpa using hp
      have hkept := @get?_served_rename format now fs htext parent newparent name newname q
        fun old new hold hnew hok =>
          ⟨hne old fun h => hdrops ⟨old, new, hold, hnew, hok, Or.inl h⟩,
            hne new fun h => hdrops ⟨old, new, hold, hnew, hok, Or.inr h⟩⟩
      simp only [current_memRemote, after, hkept]
    | chmod ino mode =>
      obtain ⟨path, hpath, hpq, -⟩ := htouches
      rw [← AssocMap.get?_congr _ hpq, hchmod ino mode path rfl hpath] at hget
      cases hget
    | lookup parent name now => exact absurd htouches id
    | getattr ino now => exact absurd htouches id
    | create parent name => exact absurd htouches hdrops
    | mkdir parent name mode => exact absurd htouches hdrops
    | symlink parent name target => exact absurd htouches hdrops
    | unlink parent name => exact absurd htouches hdrops
    | rmdir parent name => exact absurd htouches hdrops
    | truncate ino size => exact absurd htouches hdrops

/-- On an in-memory filesystem a run without a change of permissions meets the condition. -/
lemma stepsMeet_memRemote {ops : List Op} (hops : ∀ op ∈ ops, ∀ ino mode, op ≠ .chmod ino mode)
    {fs : RacfsAsyncFs MemFS} (h : Coherent (memRemote format now MemFS.rename) fs) :
    StepsMeet (opStep (memRemote format now MemFS.rename))
      (OpOk (memRemote format now MemFS.rename)) fs ops := by
  induction ops generalizing fs with
  | nil => trivial
  | cons op ops ih =>
    have hok : OpOk (memRemote format now MemFS.rename) fs op :=
      opOk_memRemote h.isText fun ino mode path heq => absurd heq (hops op (by simp) ino mode)
    intro fs' hfs'
    refine ⟨hok, ih (fun op' hop' => hops op' (by simp [hop'])) ?_⟩
    rw [← Option.some.inj hfs']
    exact h.after hok

end MemServer

/-- A directory with a file in it is renamed after a lookup of the file. -/
def renameRun : List Op :=
  [.mkdir 1 (ascii "a") 0o755, .create 2 (ascii "x"), .lookup 2 (ascii "x") 0,
    .rename 1 (ascii "a") 1 (ascii "b")]

theorem answered_of_opOk_renameRun :
    StatesMeet (opStep (memRemote (fun _ => "") 0 MemFs.MemFS.rename))
      (Answered (memRemote (fun _ => "") 0 MemFs.MemFS.rename))
      (RacfsAsyncFs.new 1 (MemFs.MemFS.new 0)) renameRun := by
  refine answered_of_opOk 1 (MemFs.MemFS.new 0) renameRun
    (stepsMeet_memRemote (fun op hop ino mode heq => ?_) (coherent_new 1 _))
  simp [renameRun, heq] at hop

/-- A rename that moves what is below the old path with it, as in `SqlFS`
(`racfs-plugin-sqlfs/src/fs/dir.rs`). -/
def renameTree (fs : MemFs.MemFS) (oldPath newPath : PathBuf) :
    Outcome Reply × MemFs.MemFS :=
  let move (p : PathBuf) : PathBuf :=
    match p.stripPrefix oldPath with
    | some rest => if rest.bytes = [] then newPath else newPath.push rest
    | none => p
  if !fs.files.contains oldPath then (.err (.NotFound oldPath), fs)
  else if fs.files.contains newPath then (.err (.AlreadyExists newPath), fs)
  else
    (.ok .unit,
      { fs with files := fs.files.entries.foldl (fun m e => m.insert (move e.1) e.2) ∅ })

/-- On a server whose rename moves a whole directory, the file is still answered for under its
old path, where the server has nothing. -/
theorem not_answered_renameRun :
    ∃ fs, run (opStep (memRemote (fun _ => "") 0 renameTree))
        (RacfsAsyncFs.new 1 (MemFs.MemFS.new 0)) renameRun = some fs ∧
      fs.inodes.getPath 3 = some ⟨ascii "/a/x"⟩ ∧
      current (memRemote (fun _ => "") 0 renameTree) fs.server ⟨ascii "/a/x"⟩ = none ∧
      (∃ attr, (fs.getattrAsync (memRemote (fun _ => "") 0 renameTree) 3 0).1 = .ok attr) ∧
      ¬ StatesMeet (opStep (memRemote (fun _ => "") 0 renameTree))
        (Answered (memRemote (fun _ => "") 0 renameTree))
        (RacfsAsyncFs.new 1 (MemFs.MemFS.new 0)) renameRun := by
  refine ⟨_, rfl, rfl, rfl, ⟨_, rfl⟩, fun h => ?_⟩
  have hanswered := (((h.2 _ rfl).2 _ rfl).2 _ rfl).2 _ rfl
  have hattr := (hanswered.getattr 3 ⟨ascii "/a/x"⟩ 0 rfl).2
  cases hattr

/-- The permissions of a file are changed after a lookup. -/
def chmodRun : List Op :=
  [.create 1 (ascii "f"), .lookup 1 (ascii "f") 0, .chmod 2 0o600]

/-- The metadata that is answered from is the old one, also on an in-memory filesystem. -/
theorem not_answered_chmodRun :
    ¬ StatesMeet (opStep (memRemote (fun _ => "") 0 MemFs.MemFS.rename))
      (Answered (memRemote (fun _ => "") 0 MemFs.MemFS.rename))
      (RacfsAsyncFs.new 1 (MemFs.MemFS.new 0)) chmodRun := by
  intro h
  have hanswered := ((h.2 _ rfl).2 _ rfl).2 _ rfl
  have hstat := congrArg (Option.map MetadataResponse.permissions)
    (hanswered.getattr 2 ⟨ascii "/f"⟩ 0 rfl).1
  have hperm : (some "644" : Option String) = some "600" := hstat
  exact absurd hperm (by decide)

end Racfs.Fuse
