/-
# Listing a directory

The kernel lists a directory by one call of `readdir` after the other, each with the offset that
came with the last entry before, until a call has no more entries.  A call makes the whole list
anew, skips the entries before the offset, and adds entries to the reply as long as they fit
(`racfs-fuse/src/blocking_adapter.rs`, `readdir_async` in `racfs-fuse/src/async_fs.rs`).

The kernel has got every entry exactly once when it has ended, and it ends, if all calls are served
the same listing (`kernel_lists_once`).  Between two calls any other operations may run, but for
those that take an inode number from a path.  How many entries fit into a reply is up to the
kernel.
-/
import Racfs.Fuse.RenameInodes

namespace Racfs.Fuse

open RacfsAsyncFs Server

variable {σ : Type*} (remote : Remote σ)

/-- An entry in a reply. -/
structure Dirent where
  ino : UInt64
  /-- Where to go on after the entry. -/
  offset : UInt64
  kind : FileType
  name : Bytes

/-- The loop over the entries: they are added as long as there is room. -/
def addEntries (full : List Dirent → Dirent → Bool) (offset : UInt64) :
    ℕ → List (UInt64 × FileType × Bytes) → List Dirent → List Dirent
  | _, [], buffer => buffer
  | i, (ino, kind, name) :: rest, buffer =>
    let entry : Dirent := ⟨ino, offset + UInt64.ofNat i + 1, kind, name⟩
    if full buffer entry then buffer
    else addEntries full offset (i + 1) rest (buffer ++ [entry])

/-- `readdir` of `BlockingAdapter`.  Whether an entry does not fit into a reply any more is a
parameter. -/
def readdir (full : List Dirent → Dirent → Bool) (fs : RacfsAsyncFs σ) (ino offset : UInt64)
    (now : DateTime) : Except Errno (List Dirent) × RacfsAsyncFs σ :=
  match fs.readdirAsync remote ino offset now with
  | (.ok entries, fs) => (.ok (addEntries full offset 0 entries []), fs)
  | (.error e, fs) => (.error e, fs)

/-! ### The kernel -/

/-- A call, with what happens before it. -/
structure Turn (σ : Type*) where
  before : List (Event σ)
  now : DateTime
  full : List Dirent → Dirent → Bool

/-- A directory is being listed. -/
structure Kernel (σ : Type*) where
  fs : RacfsAsyncFs σ
  offset : UInt64
  received : List Dirent
  ended : Bool

namespace Kernel

/-- Nothing has been read. -/
def start (fs : RacfsAsyncFs σ) : Kernel σ := ⟨fs, 0, [], false⟩

/-- The client when a call is made. -/
def client (k : Kernel σ) (turn : Turn σ) : RacfsAsyncFs σ :=
  turn.before.foldl (fun fs event => event.after remote fs) k.fs

/-- A call.  The listing ends with an error or without an entry. -/
def step (ino : UInt64) (k : Kernel σ) (turn : Turn σ) : Option (Kernel σ) :=
  if k.ended then some k
  else
    match readdir remote turn.full (k.client remote turn) ino k.offset turn.now with
    | (.error _, fs) => some { k with fs := fs, ended := true }
    | (.ok page, fs) =>
      match page.getLast? with
      | none => some { k with fs := fs, ended := true }
      | some last => some ⟨fs, last.offset, k.received ++ page, false⟩

end Kernel

/-- The event takes an inode number from a path. -/
def Event.Forgets : Event σ → Prop
  | .op (.unlink _ _) | .op (.rmdir _ _) | .op (.rename _ _ _ _) => True
  | _ => False

/-- The call is served the listing, and there is room for one entry. -/
structure Serves (ino : UInt64) (list : List DirectoryEntry) (k : Kernel σ) (turn : Turn σ) :
    Prop where
  keeps : ∀ event ∈ turn.before, ¬ event.Forgets
  listing : ∃ path, (k.client remote turn).inodes.getPath ino = some path ∧
    ((k.client remote turn).readdirCached remote path turn.now).1 = .ok list
  room : ∀ entry, turn.full [] entry = false

/-- What is right at a position: the directory itself twice, and then the entries, each with the
number of its path. -/
def Delivered (inodes : InodeManager) (ino : UInt64) (list : List DirectoryEntry) (d : Dirent) :
    ℕ → Prop
  | 0 => d.ino = ino ∧ d.kind = .Directory ∧ d.name = [dot]
  | 1 => d.ino = ino ∧ d.kind = .Directory ∧ d.name = [dot, dot]
  | i + 2 => ∃ entry, list[i]? = some entry ∧ inodes.getInode ⟨entry.path⟩ = some d.ino ∧
      d.kind = entryKind entry ∧ d.name = entryName entry

/-- The invariant. -/
structure Progress (ino : UInt64) (list : List DirectoryEntry) (k : Kernel σ) : Prop where
  offset_eq : k.offset.toNat = k.received.length
  offset_le : k.offset.toNat ≤ list.length + 2
  delivered : ∀ i d, k.received[i]? = some d → Delivered k.fs.inodes ino list d i
  complete : k.ended = true → k.received.length = list.length + 2

variable {remote}

/-! ### A reply -/

/-- The entries of a reply, the first one at the position `i` after the offset. -/
def dirents (offset : UInt64) : ℕ → List (UInt64 × FileType × Bytes) → List Dirent
  | _, [] => []
  | i, (ino, kind, name) :: rest =>
    ⟨ino, offset + UInt64.ofNat i + 1, kind, name⟩ :: dirents offset (i + 1) rest

lemma getElem?_dirents (offset : UInt64) (i : ℕ) (entries : List (UInt64 × FileType × Bytes))
    (j : ℕ) : (dirents offset i entries)[j]? =
      entries[j]?.map fun e => ⟨e.1, offset + UInt64.ofNat (i + j) + 1, e.2.1, e.2.2⟩ := by
  induction entries generalizing i j with
  | nil => rfl
  | cons e rest ih =>
    cases j with
    | zero => rfl
    | succ j =>
      rw [dirents, List.getElem?_cons_succ, List.getElem?_cons_succ, ih, Nat.add_right_comm,
        Nat.add_assoc]

@[simp] lemma length_dirents (offset : UInt64) (i : ℕ)
    (entries : List (UInt64 × FileType × Bytes)) :
    (dirents offset i entries).length = entries.length := by
  induction entries generalizing i with
  | nil => rfl
  | cons e rest ih => exact congrArg Nat.succ (ih (i + 1))

/-- A reply has the first entries, and not none of them if there is room for one. -/
lemma addEntries_eq (full : List Dirent → Dirent → Bool) (offset : UInt64) (i : ℕ)
    (entries : List (UInt64 × FileType × Bytes)) (buffer : List Dirent) :
    ∃ k, addEntries full offset i entries buffer = buffer ++ dirents offset i (entries.take k) ∧
      ((∀ entry, full buffer entry = false) → 0 < k) := by
  induction entries generalizing i buffer with
  | nil => exact ⟨1, by simp [addEntries, dirents], fun _ => Nat.one_pos⟩
  | cons e rest ih =>
    obtain ⟨ino, kind, name⟩ := e
    rw [addEntries]
    split_ifs with hfull
    · refine ⟨0, by simp [dirents], fun hroom => ?_⟩
      rw [hroom] at hfull
      cases hfull
    · obtain ⟨k, heq, -⟩ := ih (i + 1)
        (buffer ++ [⟨ino, offset + UInt64.ofNat i + 1, kind, name⟩])
      refine ⟨k + 1, ?_, fun _ => Nat.succ_pos k⟩
      rw [heq, List.take_succ_cons, dirents, List.append_assoc]
      rfl

/-! ### The listing of a call -/

/-- All entries, with their numbers, of which a call skips the first ones. -/
def allEntries (ino : UInt64) (list : List DirectoryEntry) (m : InodeManager) :
    List (UInt64 × FileType × Bytes) :=
  (ino, .Directory, [dot]) :: (ino, .Directory, [dot, dot]) :: (listEntries list m).1

lemma length_listEntries (list : List DirectoryEntry) (m : InodeManager) :
    (listEntries list m).1.length = list.length := by
  induction list generalizing m with
  | nil => rfl
  | cons entry rest ih => exact congrArg Nat.succ (ih _)

@[simp] lemma length_allEntries (ino : UInt64) (list : List DirectoryEntry) (m : InodeManager) :
    (allEntries ino list m).length = list.length + 2 := by
  simp [allEntries, length_listEntries]

lemma getElem?_listEntries {list : List DirectoryEntry} {m : InodeManager} {i : ℕ}
    {e : UInt64 × FileType × Bytes} (h : (listEntries list m).1[i]? = some e) :
    ∃ entry, list[i]? = some entry ∧ (listEntries list m).2.getInode ⟨entry.path⟩ = some e.1 ∧
      e.2 = (entryKind entry, entryName entry) := by
  induction list generalizing m i with
  | nil => cases h
  | cons entry rest ih =>
    cases i with
    | zero =>
      cases h
      exact ⟨entry, rfl, getInode_listEntries rest (m.getInode_allocate_self _), rfl⟩
    | succ i =>
      obtain ⟨entry', hentry', hget, he⟩ := ih h
      exact ⟨entry', hentry', hget, he⟩

/-- What is at a position of the list. -/
lemma delivered_of_allEntries {ino : UInt64} {list : List DirectoryEntry} {m : InodeManager}
    {i : ℕ} {e : UInt64 × FileType × Bytes} (h : (allEntries ino list m)[i]? = some e)
    (offset : UInt64) :
    Delivered (listEntries list m).2 ino list ⟨e.1, offset, e.2.1, e.2.2⟩ i := by
  rcases i with _ | _ | i
  · cases h
    exact ⟨rfl, rfl, rfl⟩
  · cases h
    exact ⟨rfl, rfl, rfl⟩
  · obtain ⟨entry, hentry, hget, he⟩ := getElem?_listEntries h
    refine ⟨entry, hentry, hget, ?_⟩
    rw [he]
    exact ⟨rfl, rfl⟩

/-- The answer of `readdir_async`, given the listing. -/
lemma readdirAsync_of_cached {fs : RacfsAsyncFs σ} {ino offset : UInt64} {path : PathBuf}
    {now : DateTime} {list : List DirectoryEntry} (hpath : fs.inodes.getPath ino = some path)
    (hlist : (fs.readdirCached remote path now).1 = .ok list) :
    ∃ fs', fs.readdirAsync remote ino offset now =
        (.ok ((allEntries ino list fs.inodes).drop offset.toNat), fs') ∧
      fs'.inodes = (listEntries list fs.inodes).2 := by
  have hinodes := @readdirCached_inodes σ remote fs path now
  rw [readdirAsync, hpath]
  simp only
  rcases hcached : fs.readdirCached remote path now with ⟨r, fs₁⟩
  rw [hcached] at hlist hinodes
  obtain rfl : r = .ok list := hlist
  simp only at hinodes ⊢
  rw [← hinodes]
  exact ⟨_, rfl, rfl⟩

/-! ### Numbers -/

lemma getInode_makeEntry {fs : RacfsAsyncFs σ} (c : (path : Bytes) → Call σ Bytes)
    (parent : UInt64) (name : Bytes) {p : PathBuf} {n : UInt64}
    (h : fs.inodes.getInode p = some n) :
    (fs.makeEntry remote c parent name).2.inodes.getInode p = some n := by
  rcases @makeEntry_cases σ remote fs c parent name with
    ⟨-, heq⟩ | ⟨path, -, ⟨-, heq⟩ | ⟨inodes, rfl | rfl, heq⟩⟩
  all_goals rw [heq]
  · exact h
  · exact h
  · exact h
  · exact InodeManager.getInode_allocate h path

lemma inodes_readAsync (fs : RacfsAsyncFs σ) (ino offset : UInt64) (size : UInt32) :
    (fs.readAsync remote ino offset size).2.inodes = fs.inodes := by
  rw [RacfsAsyncFs.readAsync]
  cases fs.inodes.getPath ino with
  | none => rfl
  | some path =>
    simp only
    cases fs.cache.getFileContent path with
    | some cached => rfl
    | none =>
      simp only
      rcases hcall : fs.call (remote.readFile path.toStringLossy) with ⟨e | a, fs₁⟩
      · exact (call_tables hcall).1
      · exact (call_tables hcall).1

lemma inodes_writeAsync (fs : RacfsAsyncFs σ) (ino offset : UInt64) (data : Bytes) :
    (fs.writeAsync remote ino offset data).2.inodes = fs.inodes := by
  rw [RacfsAsyncFs.writeAsync]
  cases fs.inodes.getPath ino with
  | none => rfl
  | some path =>
    simp only
    split_ifs with hsmall hfull
    · set pushed : RacfsAsyncFs σ :=
        { fs with cache := (fs.cache.pushWriteBack path ⟨offset, data, 0⟩).2 } with hpushed
      have hflush := (@flushWriteBack_tables σ remote pushed path).1
      rcases hsent : pushed.flushWriteBack remote path with ⟨e | a, fs₁⟩
      all_goals
        rw [hsent] at hflush
        exact hflush
    · rfl
    · have hflush := (@flushWriteBack_tables σ remote fs path).1
      rcases hsent : fs.flushWriteBack remote path with ⟨e | a, fs₁⟩
      · rw [hsent] at hflush
        exact hflush
      · rw [hsent] at hflush
        simp only
        rcases hcall : fs₁.call (remote.writeFile path.toStringLossy (fromUtf8Lossy data)
          (some offset.toInt64)) with ⟨e | a, fs₂⟩
        all_goals exact (call_tables hcall).1.trans hflush

/-- A number that a path has stays if the event does not forget it. -/
lemma getInode_after {fs : RacfsAsyncFs σ} {event : Event σ} (hkeeps : ¬ event.Forgets)
    {p : PathBuf} {n : UInt64} (h : fs.inodes.getInode p = some n) :
    (event.after remote fs).inodes.getInode p = some n := by
  cases event with
  | op o =>
    cases o with
    | lookup parent name now =>
      rcases @lookupAsync_cases σ remote fs parent name now with
        heq | ⟨path, -, -, heq | heq⟩
      · exact (congrArg (fun fs => fs.inodes.getInode p) heq).trans h
      · exact (congrArg (fun m => InodeManager.getInode m p) heq).trans h
      · exact (congrArg (fun m => InodeManager.getInode m p) heq).trans
          (InodeManager.getInode_allocate h path)
    | getattr ino now =>
      rcases @getattrAsync_cases σ remote fs ino now with heq | ⟨path, -, heq⟩
      · exact (congrArg (fun fs => fs.inodes.getInode p) heq).trans h
      · have hinodes := @statCached_inodes σ remote fs path now
        rw [← heq] at hinodes
        exact (congrArg (fun m => InodeManager.getInode m p) hinodes).trans h
    | create parent name => exact getInode_makeEntry _ parent name h
    | mkdir parent name mode => exact getInode_makeEntry _ parent name h
    | symlink parent name target => exact getInode_makeEntry _ parent name h
    | unlink parent name => exact absurd trivial hkeeps
    | rmdir parent name => exact absurd trivial hkeeps
    | rename parent name newparent newname => exact absurd trivial hkeeps
    | chmod ino mode =>
      rcases @chmodAsync_cases σ remote fs ino mode with ⟨-, heq⟩ | ⟨path, -, heq | heq⟩
      all_goals exact (congrArg (fun fs => fs.inodes.getInode p) heq).trans h
    | truncate ino size =>
      rcases @truncateAsync_cases σ remote fs ino size with
        ⟨-, heq⟩ | ⟨path, -, ⟨-, heq⟩ | heq⟩
      all_goals exact (congrArg (fun fs => fs.inodes.getInode p) heq).trans h
  | readdir ino offset now =>
    rw [Event.after, RacfsAsyncFs.readdirAsync]
    cases fs.inodes.getPath ino with
    | none => exact h
    | some path =>
      have hinodes := @readdirCached_inodes σ remote fs path now
      simp only
      rcases hcached : fs.readdirCached remote path now with ⟨e | list, fs₁⟩
      · rw [hcached] at hinodes
        exact (congrArg (fun m => InodeManager.getInode m p) hinodes).trans h
      · rw [hcached] at hinodes
        refine getInode_listEntries list ?_
        exact (congrArg (fun m => InodeManager.getInode m p) hinodes).trans h
  | read ino offset size =>
    exact (congrArg (fun m => InodeManager.getInode m p)
      (inodes_readAsync fs ino offset size)).trans h
  | write ino offset data =>
    exact (congrArg (fun m => InodeManager.getInode m p)
      (inodes_writeAsync fs ino offset data)).trans h
  | release ino =>
    rw [Event.after, RacfsAsyncFs.releaseAsync]
    cases fs.inodes.getPath ino with
    | none => exact h
    | some path =>
      exact (congrArg (fun m => InodeManager.getInode m p)
        (flushWriteBack_tables fs path).1).trans h
  | drop path => exact h
  | server s => exact h

lemma getInode_client {k : Kernel σ} {turn : Turn σ}
    (hkeeps : ∀ event ∈ turn.before, ¬ event.Forgets) {p : PathBuf} {n : UInt64}
    (h : k.fs.inodes.getInode p = some n) :
    (k.client remote turn).inodes.getInode p = some n := by
  rw [Kernel.client]
  generalize k.fs = fs at h
  generalize turn.before = events at hkeeps
  induction events generalizing fs with
  | nil => exact h
  | cons event events ih =>
    exact ih _ (getInode_after (hkeeps event List.mem_cons_self) h)
      fun e he => hkeeps e (List.mem_cons_of_mem _ he)

lemma Delivered.mono {m m' : InodeManager}
    (hm : ∀ p n, m.getInode p = some n → m'.getInode p = some n) {ino : UInt64}
    {list : List DirectoryEntry} {d : Dirent} {i : ℕ} (h : Delivered m ino list d i) :
    Delivered m' ino list d i := by
  rcases i with _ | _ | i
  · exact h
  · exact h
  · obtain ⟨entry, hentry, hget, hd⟩ := h
    exact ⟨entry, hentry, hm _ _ hget, hd⟩

/-! ### The listing of a directory -/

lemma toNat_next_offset {offset : UInt64} {j : ℕ} (h : offset.toNat + j + 1 < 2 ^ 64) :
    (offset + UInt64.ofNat j + 1).toNat = offset.toNat + j + 1 := by
  have hj : (UInt64.ofNat j).toNat = j := UInt64.toNat_ofNat_of_lt' (by show j < 2 ^ 64; omega)
  rw [UInt64.toNat_add, UInt64.toNat_add, hj, UInt64.toNat_one]
  omega

/-- The reply to a call that is served the listing: the entries behind the offset, and not none of
them unless there are no more. -/
lemma readdir_of_serves {k : Kernel σ} {turn : Turn σ} {ino : UInt64}
    {list : List DirectoryEntry} (hserves : Serves remote ino list k turn)
    (hsize : list.length + 2 < 2 ^ 64) (hle : k.offset.toNat ≤ list.length + 2) :
    ∃ page fs', readdir remote turn.full (k.client remote turn) ino k.offset turn.now =
        (.ok page, fs') ∧
      (∀ p n, k.fs.inodes.getInode p = some n → fs'.inodes.getInode p = some n) ∧
      (∀ j d, page[j]? = some d → Delivered fs'.inodes ino list d (k.offset.toNat + j) ∧
        d.offset.toNat = k.offset.toNat + j + 1) ∧
      k.offset.toNat + page.length ≤ list.length + 2 ∧
      (page = [] → k.offset.toNat = list.length + 2) := by
  obtain ⟨path, hpath, hlist⟩ := hserves.listing
  set fs := k.client remote turn with hfs
  obtain ⟨fs', hread, hinodes⟩ := @readdirAsync_of_cached _ _ fs ino k.offset path turn.now list
    hpath hlist
  set entries := (allEntries ino list fs.inodes).drop k.offset.toNat with hentries
  obtain ⟨c, hadd, hpos⟩ := addEntries_eq turn.full k.offset 0 entries []
  rw [List.nil_append] at hadd
  refine ⟨dirents k.offset 0 (entries.take c), fs', ?_, ?_, ?_, ?_, ?_⟩
  · rw [readdir, hread, ← hadd]
  · intro p n h
    rw [hinodes]
    exact getInode_listEntries list (getInode_client hserves.keeps h)
  · intro j d hd
    rw [getElem?_dirents, Nat.zero_add] at hd
    obtain ⟨e, he, rfl⟩ := Option.map_eq_some_iff.1 hd
    have hall : (allEntries ino list fs.inodes)[k.offset.toNat + j]? = some e := by
      rw [List.getElem?_take] at he
      split_ifs at he with hj
      rwa [hentries, List.getElem?_drop] at he
    have hlt := (List.getElem?_eq_some_iff.1 hall).1
    rw [length_allEntries] at hlt
    rw [hinodes]
    exact ⟨delivered_of_allEntries hall _, toNat_next_offset (by omega)⟩
  · rw [length_dirents, List.length_take, hentries, List.length_drop, length_allEntries]
    omega
  · intro hnil
    have hnone := congrArg List.length hnil
    rw [length_dirents, List.length_take, hentries, List.length_drop, length_allEntries,
      List.length_nil] at hnone
    have hroom := hpos hserves.room
    omega

lemma progress_step {k k' : Kernel σ} {turn : Turn σ} {ino : UInt64}
    {list : List DirectoryEntry} (hsize : list.length + 2 < 2 ^ 64) (h : Progress ino list k)
    (hserves : k.ended = false → Serves remote ino list k turn)
    (hk' : k.step remote ino turn = some k') :
    Progress ino list k' ∧
      (k'.ended = false → k.ended = false ∧ k.received.length < k'.received.length) := by
  rw [Kernel.step] at hk'
  split_ifs at hk' with hended
  · obtain rfl := Option.some.inj hk'
    exact ⟨h, fun hnot => absurd hended (by simp [hnot])⟩
  · have hopen : k.ended = false := by simpa using hended
    obtain ⟨page, fs', hread, hkept, hpage, hlen, hnil⟩ :=
      readdir_of_serves (hserves hopen) hsize h.offset_le
    rw [hread] at hk'
    simp only at hk'
    have hreceived : ∀ i d, k.received[i]? = some d → Delivered fs'.inodes ino list d i :=
      fun i d hd => (h.delivered i d hd).mono hkept
    cases hlast : page.getLast? with
    | none =>
      rw [hlast] at hk'
      obtain rfl := Option.some.inj hk'
      refine ⟨⟨h.offset_eq, h.offset_le, hreceived, fun _ => ?_⟩, fun hnot => ?_⟩
      · rw [← h.offset_eq]
        exact hnil (List.getLast?_eq_none_iff.1 hlast)
      · cases hnot
    | some last =>
      rw [hlast] at hk'
      obtain rfl := Option.some.inj hk'
      have hpos : 0 < page.length := by
        refine List.length_pos_of_ne_nil fun hpage => ?_
        rw [hpage] at hlast
        cases hlast
      have hoffset : last.offset.toNat = k.offset.toNat + page.length := by
        rw [List.getLast?_eq_getElem?] at hlast
        rw [(hpage _ _ hlast).2]
        omega
      refine ⟨⟨?_, ?_, fun i d hd => ?_, fun hnot => ?_⟩, fun _ => ⟨hopen, ?_⟩⟩
      · rw [hoffset, List.length_append, h.offset_eq]
      · rw [hoffset]
        exact hlen
      · rcases Nat.lt_or_ge i k.received.length with hi | hi
        · rw [List.getElem?_append_left hi] at hd
          exact hreceived i d hd
        · rw [List.getElem?_append_right hi] at hd
          have hd' := (hpage _ _ hd).1
          rw [h.offset_eq, Nat.add_sub_cancel' hi] at hd'
          exact hd'
      · cases hnot
      · rw [List.length_append]
        omega

lemma progress_start (fs : RacfsAsyncFs σ) (ino : UInt64) (list : List DirectoryEntry) :
    Progress ino list (Kernel.start fs) where
  offset_eq := rfl
  offset_le := Nat.zero_le _
  delivered i d hd := by cases hd
  complete hended := by cases hended

/-- The calls end, and before there are more of them than entries and one. -/
lemma run_progress {ino : UInt64} {list : List DirectoryEntry} (hsize : list.length + 2 < 2 ^ 64)
    {turns : List (Turn σ)} : ∀ {k : Kernel σ}, Progress ino list k →
    StepsMeet (Kernel.step remote ino)
      (fun k turn => k.ended = false → Serves remote ino list k turn) k turns →
    ∃ k', run (Kernel.step remote ino) k turns = some k' ∧ Progress ino list k' ∧
      (k'.ended = false →
        k.ended = false ∧ k.received.length + turns.length ≤ k'.received.length) := by
  induction turns with
  | nil =>
    intro k h _
    exact ⟨k, rfl, h, fun hopen => ⟨hopen, Nat.le_refl _⟩⟩
  | cons turn turns ih =>
    intro k h hmeet
    obtain ⟨k₁, hk₁⟩ : ∃ k₁, k.step remote ino turn = some k₁ := by
      rw [Kernel.step]
      split_ifs
      · exact ⟨_, rfl⟩
      · split
        · exact ⟨_, rfl⟩
        · split
          all_goals exact ⟨_, rfl⟩
    obtain ⟨hserves, hrest⟩ := hmeet k₁ hk₁
    obtain ⟨hprogress, hmore⟩ := progress_step hsize h hserves hk₁
    obtain ⟨k', hrun, hprogress', hlen⟩ := ih hprogress hrest
    refine ⟨k', by rw [run, hk₁]; exact hrun, hprogress', fun hopen => ?_⟩
    obtain ⟨hopen₁, hlen₁⟩ := hlen hopen
    obtain ⟨hopen₀, hlt⟩ := hmore hopen₁
    rw [List.length_cons]
    exact ⟨hopen₀, by omega⟩

/-- **A directory is listed once.**  If all calls are served the same listing, and there is room
for one entry in every reply, then the kernel ends after as many calls as there are entries and
three, or before.  It has got the directory itself as `.` and `..` and every entry once, in the
order of the listing, each under the number that its path has. -/
theorem kernel_lists_once (remote : Remote σ) (fs : RacfsAsyncFs σ) (ino : UInt64)
    (list : List DirectoryEntry) (hsize : list.length + 2 < 2 ^ 64) (turns : List (Turn σ))
    (hturns : list.length + 3 ≤ turns.length)
    (hserves : StepsMeet (Kernel.step remote ino)
      (fun k turn => k.ended = false → Serves remote ino list k turn) (.start fs) turns) :
    ∃ k, run (Kernel.step remote ino) (.start fs) turns = some k ∧ k.ended = true ∧
      k.received.length = list.length + 2 ∧
      ∀ i d, k.received[i]? = some d → Delivered k.fs.inodes ino list d i := by
  obtain ⟨k, hrun, hprogress, hlen⟩ :=
    run_progress hsize (progress_start fs ino list) hserves
  have hended : k.ended = true := by
    by_contra hnot
    have hmany := (hlen (by simpa using hnot)).2
    have hfew := hprogress.offset_le
    rw [hprogress.offset_eq] at hfew
    omega
  exact ⟨k, hrun, hended, hprogress.complete hended, hprogress.delivered⟩

/-- One entry fits into a reply. -/
def oneEntry (buffer : List Dirent) (_ : Dirent) : Bool := !buffer.isEmpty

/-- The calls for the root of a server with one file; a look-up of the file runs in between. -/
def fourTurns : List (Turn (ServerState Unit)) :=
  [⟨[], 0, oneEntry⟩, ⟨[.op (.lookup 1 (ascii "f") 0)], 0, oneEntry⟩, ⟨[], 0, oneEntry⟩,
    ⟨[], 0, oneEntry⟩]

theorem kernel_lists_once_fileServer :
    ∃ k, run (Kernel.step (httpRemote Client.escaped fun _ => "") 1)
        (.start (RacfsAsyncFs.new 1 (fileServer []))) fourTurns = some k ∧ k.ended = true ∧
      k.received.length = 3 ∧ ∀ i d, k.received[i]? = some d →
        Delivered k.fs.inodes 1 [⟨"644", 0, some "", ascii "/f", "file"⟩] d i := by
  have hnone : ∀ event ∈ ([] : List (Event (ServerState Unit))), ¬ event.Forgets :=
    fun _ hevent => by cases hevent
  have hlookup : ∀ event ∈ ([.op (.lookup 1 (ascii "f") 0)] : List (Event (ServerState Unit))),
      ¬ event.Forgets := by
    intro event hevent
    rw [List.mem_singleton.1 hevent]
    exact id
  refine kernel_lists_once _ _ 1 [⟨"644", 0, some "", ascii "/f", "file"⟩] (by decide) fourTurns
    (by decide) ?_
  refine stepsMeet_cons rfl (fun _ => ⟨hnone, ⟨⟨ascii "/"⟩, rfl, rfl⟩, fun _ => rfl⟩)
    (stepsMeet_cons rfl (fun _ => ⟨hlookup, ⟨⟨ascii "/"⟩, rfl, rfl⟩, fun _ => rfl⟩)
      (stepsMeet_cons rfl (fun _ => ⟨hnone, ⟨⟨ascii "/"⟩, rfl, rfl⟩, fun _ => rfl⟩)
        (stepsMeet_cons rfl (fun _ => ⟨hnone, ⟨⟨ascii "/"⟩, rfl, rfl⟩, fun _ => rfl⟩) trivial)))

end Racfs.Fuse
