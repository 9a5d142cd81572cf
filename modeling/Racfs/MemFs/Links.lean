/-
# Reading through links

`read` of `MemFS` follows a link by calling itself with the target, and it counts nothing.
`Reads` says what a call returns after finitely many such calls; it is what `MemFS.read`
computes, whose bound on the calls is never the reason that a call fails (`read_of_reads`).  A
call returns exactly if the chain of targets never comes back to a path, and what it returns is
not a panic if the slice at the end of the chain is in order (`returns_iff`).

Nothing prevents cycles.  In a run the chains from all paths end in all states exactly if no
step closes a cycle: a new link whose target leads to it, or a link that gets a new name to
which its target leads (`read_ends_iff`).
-/
import Racfs.Lib.Links
import Racfs.Lib.Offset
import Racfs.MemFs.Representation
import Racfs.MemFs.Subtree
import Racfs.MemFs.Writes

namespace Racfs.MemFs

open MemFS Links

/-- The path at which a read goes on, if the entry is a link. -/
def FileEntry.followed (e : FileEntry) : Option PathBuf :=
  if e.metadata.isDirectory then none
  else if e.isSymlink then e.symlinkTarget
  else none

/-- The link at a path. -/
def linkTarget (fs : MemFS) (p : PathBuf) : Option PathBuf :=
  (fs.files.get? p).bind FileEntry.followed

/-- What a read returns after finitely many calls. -/
inductive Reads (fs : MemFS) (offset size : Int64) : PathBuf → Outcome Bytes → Prop
  | missing {path : PathBuf} (h : fs.files.get? path = none) :
      Reads fs offset size path (.err (.NotFound path))
  | directory {path : PathBuf} {e : FileEntry} (h : fs.files.get? path = some e)
      (hdir : e.metadata.isDirectory = true) :
      Reads fs offset size path (.err (.IsDirectory path))
  | link {path target : PathBuf} {e : FileEntry} {r : Outcome Bytes}
      (h : fs.files.get? path = some e) (hlink : e.followed = some target)
      (hrest : Reads fs offset size target r) : Reads fs offset size path r
  | file {path : PathBuf} {e : FileEntry} (h : fs.files.get? path = some e)
      (hdir : e.metadata.isDirectory = false) (hlink : e.followed = none) :
      Reads fs offset size path (readData e.data offset size)

variable {fs : MemFS} {offset size : Int64} {path : PathBuf} {r : Outcome Bytes}

/-! ### The calls and their bound -/

lemma readAux_of_link {target : PathBuf} (h : linkTarget fs path = some target) (n : ℕ) :
    fs.readAux offset size (n + 1) path = fs.readAux offset size n target := by
  obtain ⟨e, he, hfollowed⟩ := Option.bind_eq_some_iff.1 h
  rw [FileEntry.followed] at hfollowed
  split_ifs at hfollowed with hdir hlink
  rw [readAux, getEntry, he]
  simp only [Outcome.ok_bind, hdir, Bool.false_eq_true, if_false, hlink, hfollowed]

lemma readAux_of_missing (h : fs.files.get? path = none) (n : ℕ) :
    fs.readAux offset size (n + 1) path = .err (.NotFound path) := by
  rw [readAux, getEntry, h]
  rfl

lemma readAux_of_directory {e : FileEntry} (h : fs.files.get? path = some e)
    (hdir : e.metadata.isDirectory = true) (n : ℕ) :
    fs.readAux offset size (n + 1) path = .err (.IsDirectory path) := by
  rw [readAux, getEntry, h]
  exact if_pos hdir

lemma readAux_of_file {e : FileEntry} (h : fs.files.get? path = some e)
    (hdir : e.metadata.isDirectory = false) (hlink : e.followed = none) (n : ℕ) :
    fs.readAux offset size (n + 1) path = readData e.data offset size := by
  rw [FileEntry.followed, hdir, if_neg Bool.false_ne_true] at hlink
  rw [readAux, getEntry, h]
  simp only [Outcome.ok_bind, hdir, Bool.false_eq_true, if_false]
  cases hmark : e.isSymlink with
  | false => rfl
  | true =>
    -- a link without a target is read as a file
    rw [hmark, if_pos rfl] at hlink
    rw [hlink]

lemma reads_readAux_of_none (h : linkTarget fs path = none) (n : ℕ) :
    Reads fs offset size path (fs.readAux offset size (n + 1) path) := by
  cases he : fs.files.get? path with
  | none =>
    rw [readAux_of_missing he]
    exact .missing he
  | some e =>
    rw [linkTarget, he] at h
    cases hdir : e.metadata.isDirectory with
    | true =>
      rw [readAux_of_directory he hdir]
      exact .directory he hdir
    | false =>
      rw [readAux_of_file he hdir h]
      exact .file he hdir h

/-- As many calls as the chain has paths are enough. -/
lemma reads_readAux {n : ℕ} (h : after (linkTarget fs) n path = none) :
    Reads fs offset size path (fs.readAux offset size n path) := by
  induction n generalizing path with
  | zero => cases h
  | succ n ih =>
    cases hlink : linkTarget fs path with
    | none => exact reads_readAux_of_none hlink n
    | some target =>
      obtain ⟨e, he, hfollowed⟩ := Option.bind_eq_some_iff.1 hlink
      rw [after_succ_of_link hlink] at h
      rw [readAux_of_link hlink]
      exact .link he hfollowed (ih h)

lemma linkTarget_of_get? {e : FileEntry} (h : fs.files.get? path = some e) :
    linkTarget fs path = e.followed := by
  rw [linkTarget, h, Option.bind_some]

lemma followed_of_isDirectory {e : FileEntry} (h : e.metadata.isDirectory = true) :
    e.followed = none := if_pos h

lemma ends_of_reads (h : Reads fs offset size path r) : Ends (linkTarget fs) path := by
  induction h with
  | missing h => exact ends_of_none (by rw [linkTarget, h, Option.bind_none])
  | directory h hdir =>
    exact ends_of_none ((linkTarget_of_get? h).trans (followed_of_isDirectory hdir))
  | link h hlink _ ih => exact (ends_iff_of_link ((linkTarget_of_get? h).trans hlink)).2 ih
  | file h _ hlink => exact ends_of_none ((linkTarget_of_get? h).trans hlink)

/-- With enough calls left the result is always the same. -/
lemma readAux_of_reads (h : Reads fs offset size path r) :
    ∃ n, ∀ m, n ≤ m → fs.readAux offset size m path = r := by
  induction h with
  | missing h => exact ⟨1, fun | m + 1, _ => readAux_of_missing h m⟩
  | directory h hdir => exact ⟨1, fun | m + 1, _ => readAux_of_directory h hdir m⟩
  | link h hlink _ ih =>
    obtain ⟨n, hn⟩ := ih
    have hstep := @readAux_of_link fs offset size _ _ ((linkTarget_of_get? h).trans hlink)
    exact ⟨n + 1, fun | m + 1, hm => (hstep m).trans (hn m (Nat.le_of_succ_le_succ hm))⟩
  | file h hdir hlink => exact ⟨1, fun | m + 1, _ => readAux_of_file h hdir hlink m⟩

/-- A call returns one thing only. -/
lemma Reads.unique {r' : Outcome Bytes} (h : Reads fs offset size path r)
    (h' : Reads fs offset size path r') : r = r' := by
  obtain ⟨n, hn⟩ := readAux_of_reads h
  obtain ⟨n', hn'⟩ := readAux_of_reads h'
  rw [← hn (max n n') (Nat.le_max_left _ _), hn' (max n n') (Nat.le_max_right _ _)]

lemma linkTarget_congr (fs : MemFS) (p q : PathBuf) (h : (p == q) = true) :
    linkTarget fs p = linkTarget fs q := by
  rw [linkTarget, linkTarget, AssocMap.get?_congr _ h]

lemma exists_key_of_linkTarget (fs : MemFS) (p : PathBuf) (h : linkTarget fs p ≠ none) :
    ∃ k ∈ fs.files.keys, (k == p) = true := by
  cases he : fs.files.get? p with
  | none =>
    rw [linkTarget, he] at h
    exact absurd rfl h
  | some e =>
    obtain ⟨k, hk, hkp⟩ := AssocMap.mem_of_get? he
    exact ⟨k, List.mem_map_of_mem (f := Prod.fst) hk, hkp⟩

lemma ends_linkTarget_iff : Ends (linkTarget fs) path ↔ NoReturn (linkTarget fs) path :=
  ends_iff_noReturn (linkTarget_congr fs) fs.files.keys (exists_key_of_linkTarget fs)

/-- The bound on the calls is large enough: whatever a call returns is what `MemFS.read` gives. -/
theorem reads_iff : Reads fs offset size path r ↔
    Ends (linkTarget fs) path ∧ fs.read path offset size = r := by
  have hread : Ends (linkTarget fs) path →
      Reads fs offset size path (fs.read path offset size) := by
    intro hends
    have hlen : fs.files.keys.length = fs.files.size := List.length_map _
    have hafter := after_eq_none_of_noReturn fs.files.keys (exists_key_of_linkTarget fs)
      (ends_linkTarget_iff.1 hends)
    rw [hlen] at hafter
    exact reads_readAux hafter
  constructor
  · intro h
    exact ⟨ends_of_reads h, (hread (ends_of_reads h)).unique h⟩
  · rintro ⟨hends, rfl⟩
    exact hread hends

/-! ### The slice at the end of a chain -/

/-- The end of the slice is not negative where it is used. -/
def SliceOk (data : Bytes) (offset size : Int64) : Prop :=
  size < 0 ∨ 0 ≤ offset + size ∨ data.length ≤ offset.toInt.toNat

instance (data : Bytes) (offset size : Int64) : Decidable (SliceOk data offset size) := by
  unfold SliceOk
  infer_instance

/-- The end of the slice. -/
def sliceEnd (data : Bytes) (offset size : Int64) : ℕ :=
  if size < 0 then data.length
  else (min (offset + size) (Int64.ofNat data.length)).toUInt64.toNat

lemma readData_ne_panic_iff_le (data : Bytes) (offset size : Int64) :
    readData data offset size ≠ .panic ↔ data.length ≤ offset.toInt.toNat ∨
      offset.toInt.toNat ≤ sliceEnd data offset size ∧ sliceEnd data offset size ≤ data.length := by
  have heq : readData data offset size =
      if data.length ≤ offset.toInt.toNat then .ok []
      else if offset.toInt.toNat ≤ sliceEnd data offset size ∧
        sliceEnd data offset size ≤ data.length then
          .ok ((data.take (sliceEnd data offset size)).drop offset.toInt.toNat)
      else .panic := by
    rw [readData, Offset.toNat_max]
    rfl
  rw [heq]
  split_ifs with hstart hslice
  · exact iff_of_true (by simp) (Or.inl hstart)
  · exact iff_of_true (by simp) (Or.inr hslice)
  · exact iff_of_false (fun h => h rfl) (not_or.2 ⟨hstart, hslice⟩)

/-- A slice of a vector, which is never longer than a signed word can say. -/
lemma readData_ne_panic_iff {data : Bytes} (hlen : data.length < 2 ^ 63) :
    readData data offset size ≠ .panic ↔ SliceOk data offset size := by
  have hofNat : (Int64.ofNat data.length).toInt = data.length := Int64.toInt_ofNat_of_lt hlen
  have hzero : (0 : Int64).toInt = 0 := rfl
  rw [readData_ne_panic_iff_le, SliceOk, sliceEnd]
  by_cases hsize : size < 0
  · rw [if_pos hsize]
    refine iff_of_true ?_ (Or.inl hsize)
    omega
  · have hsize' : 0 ≤ size.toInt := by
      rw [Int64.lt_iff_toInt_lt, hzero] at hsize
      omega
    rw [if_neg hsize]
    simp only [hsize, false_or]
    by_cases hsum : 0 ≤ offset + size
    · have hsum' : 0 ≤ (offset + size).toInt := Int64.le_iff_toInt_le.1 hsum
      have hmin : (0 : Int64) ≤ min (offset + size) (Int64.ofNat data.length) := by
        rw [Int64.le_iff_toInt_le, Offset.toInt_min, hofNat, hzero]
        exact le_min hsum' (Int.natCast_nonneg _)
      have hle := Offset.toNat_le_add hsize' hsum'
      rw [Offset.toNat_of_nonneg hmin, Offset.toInt_min, hofNat]
      refine iff_of_true ?_ (Or.inl hsum)
      omega
    · -- the end is past every vector
      have hneg : min (offset + size) (Int64.ofNat data.length) < 0 := by
        have hsum' : ¬ 0 ≤ (offset + size).toInt := fun h => hsum (Int64.le_iff_toInt_le.2 h)
        rw [Int64.lt_iff_toInt_lt, Offset.toInt_min, hofNat, hzero]
        omega
      have hpast := Offset.le_toNat_of_neg hneg
      simp only [hsum, false_or, or_iff_left_iff_imp]
      omega

/-- The slice is in order at the end of the chain, if there is a file. -/
def SlicesOk (fs : MemFS) (offset size : Int64) (path : PathBuf) : Prop :=
  ∀ n p e, after (linkTarget fs) n path = some p → fs.files.get? p = some e →
    e.metadata.isDirectory = false → e.followed = none → SliceOk e.data offset size

lemma slicesOk_of_link {target : PathBuf} (h : linkTarget fs path = some target) :
    SlicesOk fs offset size path ↔ SlicesOk fs offset size target := by
  constructor
  · intro hall n p e hp
    exact hall (n + 1) p e ((after_succ_of_link h).trans hp)
  · intro hall n p e hp he hdir hlink
    cases n with
    | zero =>
      obtain rfl : path = p := Option.some.inj hp
      rw [linkTarget_of_get? he, hlink] at h
      cases h
    | succ n => exact hall n p e ((after_succ_of_link h).symm.trans hp) he hdir hlink

lemma slicesOk_of_none (h : linkTarget fs path = none) :
    SlicesOk fs offset size path ↔ ∀ e, fs.files.get? path = some e →
      e.metadata.isDirectory = false → SliceOk e.data offset size := by
  constructor
  · intro hall e he hdir
    exact hall 0 path e rfl he hdir ((linkTarget_of_get? he).symm.trans h)
  · intro hall n p e hp he hdir _
    cases n with
    | zero =>
      obtain rfl : path = p := Option.some.inj hp
      exact hall e he hdir
    | succ n =>
      rw [after_succ_of_none h] at hp
      cases hp

/-- The data of every file fit in a vector. -/
def FitsVectors (fs : MemFS) : Prop :=
  ∀ p e, fs.files.get? p = some e → e.data.length < 2 ^ 63

lemma Reads.ne_panic_iff (hfits : FitsVectors fs) (h : Reads fs offset size path r) :
    r ≠ .panic ↔ SlicesOk fs offset size path := by
  induction h with
  | missing h =>
    rw [slicesOk_of_none (by rw [linkTarget, h, Option.bind_none])]
    exact iff_of_true (by simp) fun e he => by simp [h] at he
  | directory h hdir =>
    rw [slicesOk_of_none ((linkTarget_of_get? h).trans (followed_of_isDirectory hdir))]
    refine iff_of_true (by simp) fun e he hfile => ?_
    obtain rfl := Option.some.inj (h.symm.trans he)
    rw [hdir] at hfile
    cases hfile
  | link h hlink _ ih => rw [slicesOk_of_link ((linkTarget_of_get? h).trans hlink), ih]
  | file h hdir hlink =>
    rw [slicesOk_of_none ((linkTarget_of_get? h).trans hlink), readData_ne_panic_iff (hfits _ _ h)]
    constructor
    · intro hok e he _
      obtain rfl := Option.some.inj (h.symm.trans he)
      exact hok
    · exact fun hall => hall _ h hdir

/-- A read returns, with data or with an error. -/
def Returns (fs : MemFS) (offset size : Int64) (path : PathBuf) : Prop :=
  ∃ r, Reads fs offset size path r ∧ r ≠ .panic

/-- A read returns exactly if its chain of links never comes back to a path and the slice at the
end is in order. -/
lemma returns_iff (hfits : FitsVectors fs) : Returns fs offset size path ↔
    NoReturn (linkTarget fs) path ∧ SlicesOk fs offset size path := by
  rw [← ends_linkTarget_iff]
  constructor
  · rintro ⟨r, hr, hne⟩
    exact ⟨ends_of_reads hr, (hr.ne_panic_iff hfits).1 hne⟩
  · rintro ⟨hends, hslices⟩
    have hr : Reads fs offset size path (fs.read path offset size) := reads_iff.2 ⟨hends, rfl⟩
    exact ⟨_, hr, (hr.ne_panic_iff hfits).2 hslices⟩

/-! ### The links after an operation -/

lemma followed_modify {files : AssocMap PathBuf FileEntry} {p : PathBuf} {e e' : FileEntry}
    (he : files.get? p = some e) (hsame : e'.followed = e.followed) (q : PathBuf) :
    ((files.modify p fun _ => e').get? q).bind FileEntry.followed =
      (files.get? q).bind FileEntry.followed := by
  rw [AssocMap.get?_modify]
  split_ifs with hpq
  · rw [← AssocMap.get?_congr _ hpq, he]
    exact hsame
  · rfl

lemma followed_fileEntry (p : PathBuf) (now : DateTime) : (fileEntry p now).followed = none := by
  rw [FileEntry.followed]
  split_ifs <;> rfl

lemma followed_directoryEntry (p : PathBuf) (perm : UInt32) (now : DateTime) :
    (directoryEntry p perm now).followed = none := by
  rw [FileEntry.followed]
  split_ifs <;> rfl

lemma followed_symlinkEntry (target link : PathBuf) (now : DateTime) :
    (symlinkEntry target link now).followed = some target := by
  rw [FileEntry.followed, if_neg]
  · rfl
  · show ¬ ((S_IFLNK ||| 0o700 ||| 0o040 ||| 0o010 ||| 0o004 ||| 0o001) &&& S_IFMT ==
      S_IFDIR) = true
    decide

/-- An operation that adds no link. -/
def AddsNoLink (fs fs' : MemFS) : Prop :=
  ∀ p, linkTarget fs' p = none ∨ linkTarget fs' p = linkTarget fs p

lemma AddsNoLink.refl (fs : MemFS) : AddsNoLink fs fs := fun _ => Or.inr rfl

lemma addsNoLink_check {α : Type*} (x : Outcome α) {f : α → Outcome Reply × MemFS}
    (hf : ∀ a, AddsNoLink fs (f a).2) : AddsNoLink fs (fs.check x f).2 := by
  cases x with
  | ok a => exact hf a
  | err e => exact .refl fs
  | panic => exact .refl fs

lemma addsNoLink_insert {p : PathBuf} {e : FileEntry} (he : e.followed = none) :
    AddsNoLink fs { fs with files := fs.files.insert p e } := by
  intro q
  rw [linkTarget, linkTarget, AssocMap.get?_insert]
  split_ifs with hpq
  · exact Or.inl he
  · exact Or.inr rfl

lemma addsNoLink_addEntry {p : PathBuf} {e : FileEntry} (he : e.followed = none) :
    AddsNoLink fs (fs.addEntry p e).2 := by
  rw [addEntry]
  split_ifs
  · exact .refl fs
  · exact addsNoLink_insert he

lemma addsNoLink_updateEntry {p : PathBuf} {f : FileEntry → Outcome (Reply × FileEntry)}
    (hf : ∀ e r, f e = .ok r → r.2.followed = e.followed) :
    AddsNoLink fs (fs.updateEntry p f).2 := by
  obtain hsame | ⟨e, r, hget, hr, heq⟩ := @updateEntry_cases fs p f
  · rw [hsame]
    exact .refl fs
  · rw [heq]
    exact fun q => Or.inr (followed_modify hget (hf e r hr) q)

lemma addsNoLink_retain {keep : PathBuf → FileEntry → Bool}
    {xattrs : AssocMap PathBuf (AssocMap Bytes Bytes)} :
    AddsNoLink fs ⟨fs.files.retain keep, xattrs⟩ := by
  intro q
  rw [linkTarget, linkTarget]
  cases hget : (fs.files.retain keep).get? q with
  | none => exact Or.inl rfl
  | some e => exact Or.inr (by rw [AssocMap.get?_of_get?_retain hget])

lemma addsNoLink_remove (fs : MemFS) (p : PathBuf) : AddsNoLink fs (fs.remove p).2 := by
  rw [remove]
  cases fs.files.get? p with
  | none => exact .refl fs
  | some e =>
    simp only
    split <;> exact addsNoLink_retain

lemma addsNoLink_removeAll (fs : MemFS) (p : PathBuf) : AddsNoLink fs (fs.removeAll p).2 := by
  rw [removeAll]
  split
  · exact addsNoLink_retain
  · exact .refl fs

lemma addsNoLink_touch (fs : MemFS) (p : PathBuf) (now : DateTime) :
    AddsNoLink fs (fs.touch p now).2 := by
  rw [touch]
  cases hget : fs.files.get? p with
  | none => exact addsNoLink_insert (followed_fileEntry p now)
  | some e =>
    intro q
    rw [linkTarget, followed_modify hget]
    · exact Or.inr rfl
    · rfl

lemma linkTarget_of_files_eq {fs' : MemFS} (h : fs'.files = fs.files) (p : PathBuf) :
    linkTarget fs' p = linkTarget fs p := by
  rw [linkTarget, linkTarget, h]

/-- A rename to a path in use puts the entry back. -/
lemma linkTarget_rename_of_stored {o n : PathBuf} {e : FileEntry}
    (hn : fs.files.get? n = some e) (p : PathBuf) :
    linkTarget (fs.rename o n).2 p = linkTarget fs p := by
  rw [rename]
  cases ho : fs.files.get? o with
  | none => rfl
  | some e' =>
    simp only
    split
    · rw [linkTarget, linkTarget, AssocMap.get?_insert_erase _ BEq.rfl]
      split_ifs with hop
      · rw [← AssocMap.get?_congr _ hop, ho]
      · rfl
    · next hfree =>
      -- the new path is the old one, in another spelling
      have hon : (o == n) = true := by
        by_contra hne
        refine hfree ?_
        rw [AssocMap.contains, AssocMap.get?_erase, if_neg hne, hn]
        rfl
      rw [linkTarget, linkTarget, AssocMap.get?_insert_erase _ hon]
      split_ifs with hnp
      · rw [← AssocMap.get?_congr _ (BEq.trans hon hnp), ho]
        rfl
      · rfl

lemma linkTarget_rename_of_free {o n : PathBuf} {e : FileEntry}
    (ho : fs.files.get? o = some e) (hn : fs.files.get? n = none) (p : PathBuf) :
    linkTarget (fs.rename o n).2 p =
      if n == p then e.followed else if o == p then none else linkTarget fs p := by
  rw [rename_of_free ho hn, linkTarget, AssocMap.get?_insert, AssocMap.get?_erase]
  split_ifs <;> rfl

/-! ### Runs without cycles -/

/-- All chains of links end. -/
def AllEnd (fs : MemFS) : Prop := ∀ p, Ends (linkTarget fs) p

/-- The operation does not close a cycle: the target of a new link, or of one that moves to a new
path, does not lead to the path of the link. -/
def ClosesNoCycle (fs : MemFS) (ev : DateTime × Op PathBuf) : Prop :=
  match ev.2 with
  | .symlink target link => fs.ensureParentExists link = .ok () → fs.files.get? link = none →
      ¬ LeadsTo (linkTarget fs) target link
  | .rename oldPath newPath => fs.files.get? newPath = none →
      ∀ target, linkTarget fs oldPath = some target → ¬ LeadsTo (linkTarget fs) target newPath
  | _ => True

lemma AddsNoLink.allEnd {fs' : MemFS} (h : AddsNoLink fs fs') (hends : AllEnd fs) : AllEnd fs' :=
  fun p => (hends p).of_sub h

lemma allEnd_congr {fs' : MemFS} (h : ∀ p, linkTarget fs' p = linkTarget fs p) :
    AllEnd fs' ↔ AllEnd fs := by
  have heq : linkTarget fs' = linkTarget fs := funext h
  rw [AllEnd, AllEnd, heq]

lemma allEnd_symlink_iff (hends : AllEnd fs) (target link : PathBuf) (now : DateTime) :
    AllEnd (fs.symlink target link now).2 ↔ ClosesNoCycle fs (now, .symlink target link) := by
  show _ ↔ (fs.ensureParentExists link = .ok () → fs.files.get? link = none →
      ¬ LeadsTo (linkTarget fs) target link)
  rw [symlink]
  cases hparent : fs.ensureParentExists link with
  | err e => exact iff_of_true hends (by simp)
  | panic => exact iff_of_true hends (by simp)
  | ok u =>
    simp only [MemFS.check, forall_true_left]
    cases hget : fs.files.get? link with
    | some e =>
      rw [addEntry_of_contains (AssocMap.contains_iff.2 ⟨e, hget⟩)]
      exact iff_of_true hends (by simp)
    | none =>
      rw [addEntry_of_not_contains (AssocMap.contains_eq_false_iff.2 hget)]
      have hlinks (p : PathBuf) :
          linkTarget { fs with files := fs.files.insert link (symlinkEntry target link now) } p =
            if link == p then some target else linkTarget fs p := by
        rw [linkTarget, AssocMap.get?_insert]
        split_ifs
        · exact followed_symlinkEntry target link now
        · rfl
      simp only [forall_true_left]
      refine forall_ends_add_iff (fun p hp => ?_) (fun p hp => ?_) hends
      · rw [hlinks, if_pos (BEq.symm hp)]
      · rw [hlinks, if_neg (by simp [BEq.symm_false hp])]

/-- The links without the one at `o`. -/
def linkTargetBut (fs : MemFS) (o p : PathBuf) : Option PathBuf :=
  if o == p then none else linkTarget fs p

lemma linkTargetBut_cases (fs : MemFS) (o p : PathBuf) :
    linkTargetBut fs o p = none ∨ linkTargetBut fs o p = linkTarget fs p := by
  rw [linkTargetBut]
  split_ifs
  · exact Or.inl rfl
  · exact Or.inr rfl

/-- A link to `target` moves from `o` to `n`. -/
lemma allEnd_rename_link_iff (hends : AllEnd fs) {o n target : PathBuf} {e : FileEntry}
    (ho : fs.files.get? o = some e) (hn : fs.files.get? n = none)
    (hfollowed : e.followed = some target) :
    AllEnd (fs.rename o n).2 ↔ ¬ LeadsTo (linkTarget fs) target n := by
  have hlinks := linkTarget_rename_of_free ho hn
  have hnone (p : PathBuf) (hp : (p == o) = true) : linkTargetBut fs o p = none :=
    if_pos (BEq.symm hp)
  have hother (p : PathBuf) (hp : (p == o) = false) : linkTarget fs p = linkTargetBut fs o p :=
    (if_neg (by simp [BEq.symm_false hp])).symm
  have hlink (p : PathBuf) (hp : (p == o) = true) : linkTarget fs p = some target := by
    rw [linkTarget_congr fs p o hp, linkTarget_of_get? ho, hfollowed]
  have hnew (p : PathBuf) (hp : (p == n) = true) :
      linkTarget (fs.rename o n).2 p = some target := by
    rw [hlinks, if_pos (BEq.symm hp), hfollowed]
  have hold (p : PathBuf) (hp : (p == n) = false) :
      linkTarget (fs.rename o n).2 p = linkTargetBut fs o p := by
    rw [hlinks, if_neg (by simp [BEq.symm_false hp])]
    rfl
  have hbut (p : PathBuf) : Ends (linkTargetBut fs o) p :=
    (hends p).of_sub (linkTargetBut_cases fs o)
  rw [AllEnd, forall_ends_add_iff hnew hold hbut, ← leadsTo_target_iff hlink hother hnone hends]

lemma allEnd_rename_iff (hends : AllEnd fs) (o n : PathBuf) (now : DateTime) :
    AllEnd (fs.rename o n).2 ↔ ClosesNoCycle fs (now, .rename o n) := by
  show _ ↔ (fs.files.get? n = none → ∀ target, linkTarget fs o = some target →
      ¬ LeadsTo (linkTarget fs) target n)
  cases hn : fs.files.get? n with
  | some e =>
    rw [allEnd_congr (linkTarget_rename_of_stored hn)]
    exact iff_of_true hends (by simp)
  | none =>
    simp only [forall_true_left]
    cases ho : fs.files.get? o with
    | none =>
      have hsame : (fs.rename o n).2 = fs := by simp [rename, ho]
      rw [hsame]
      exact iff_of_true hends (by simp [linkTarget, ho])
    | some e =>
      rw [linkTarget_of_get? ho]
      cases hfollowed : e.followed with
      | some target =>
        rw [allEnd_rename_link_iff hends ho hn hfollowed]
        simp
      | none =>
        -- no link is moved
        have hsub : AddsNoLink fs (fs.rename o n).2 := by
          intro p
          rw [linkTarget_rename_of_free ho hn, hfollowed]
          split_ifs
          · exact Or.inl rfl
          · exact Or.inl rfl
          · exact Or.inr rfl
        exact iff_of_true (hsub.allEnd hends) (by simp)

/-- What a step must do so that all chains still end. -/
lemma allEnd_step_iff (fs : MemFS) (ev : DateTime × Op PathBuf) (fs' : MemFS) (hends : AllEnd fs)
    (hstep : anyStep fs ev = some fs') : AllEnd fs' ↔ ClosesNoCycle fs ev := by
  obtain ⟨now, op⟩ := ev
  obtain rfl := Option.some.inj hstep
  have hkeep (h : AddsNoLink fs (fs.apply now op).2) (hop : ClosesNoCycle fs (now, op)) :
      AllEnd (fs.apply now op).2 ↔ ClosesNoCycle fs (now, op) := iff_of_true (h.allEnd hends) hop
  cases op with
  | create p =>
    exact hkeep (addsNoLink_check _ fun _ => addsNoLink_addEntry (followed_fileEntry p now)) trivial
  | write p data offset flags =>
    refine hkeep (addsNoLink_updateEntry fun e r hr => ?_) trivial
    split at hr
    · cases hr
    · cases hr
      rfl
  | truncate p size =>
    refine hkeep (addsNoLink_updateEntry fun e r hr => ?_) trivial
    split at hr
    · cases hr
    · cases hr
      rfl
  | touch p => exact hkeep (addsNoLink_touch fs p now) trivial
  | chmod p mode =>
    refine hkeep (addsNoLink_updateEntry fun e r hr => ?_) trivial
    cases hr
    rw [FileEntry.followed, FileEntry.followed, ← e.metadata.isDirectory_setPermissions mode]
    rfl
  | mkdir p perm =>
    exact hkeep (addsNoLink_check _ fun _ =>
      addsNoLink_addEntry (followed_directoryEntry p perm now)) trivial
  | remove p => exact hkeep (addsNoLink_remove fs p) trivial
  | removeAll p => exact hkeep (addsNoLink_removeAll fs p) trivial
  | rename o n => exact allEnd_rename_iff hends o n now
  | symlink target link => exact allEnd_symlink_iff hends target link now
  | setXattr p name value =>
    have hfiles := files_setXattr fs p name value
    exact hkeep (fun q => Or.inr (linkTarget_of_files_eq hfiles q)) trivial
  | removeXattr p name =>
    have hfiles := files_removeXattr fs p name
    exact hkeep (fun q => Or.inr (linkTarget_of_files_eq hfiles q)) trivial
  | _ => exact hkeep (.refl fs) trivial

lemma allEnd_new (now : DateTime) : AllEnd (MemFS.new now) := by
  have hempty : AllEnd ⟨∅, ∅⟩ := fun p => ends_of_none rfl
  exact (addsNoLink_addEntry (followed_directoryEntry rootPath 0o755 now)).allEnd hempty

/-- Every read comes to an end. -/
def ReadsEnd (fs : MemFS) : Prop := ∀ path offset size, ∃ r, Reads fs offset size path r

lemma readsEnd_iff : ReadsEnd fs ↔ AllEnd fs := by
  constructor
  · intro h p
    obtain ⟨r, hr⟩ := h p 0 0
    exact ends_of_reads hr
  · exact fun h p offset size => ⟨_, reads_iff.2 ⟨h p, rfl⟩⟩

/-- A filesystem with the file `/f`, whose content is `abc`, and the link `/l` to it. -/
def linkFs : MemFS := (abcFile.symlink ⟨ascii "/f"⟩ ⟨ascii "/l"⟩ 0).2

end Racfs.MemFs
