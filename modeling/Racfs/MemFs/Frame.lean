/-
# What an operation of the in-memory filesystem changes

The operations on one path change the entry of this path at most, and none when they do not
succeed (`ChangesAt`).  A removal changes the entry of its path also when it fails, and a rename
the entries of its two paths: what the table has below them stays where it is.

For all operations together: outside its `Footprint` an operation changes neither entries nor
extended attributes, whatever its result (`SameAt`), and it adds no paths to the table but its own
(`KeysMeet.apply`).
-/
import Racfs.MemFs.Model

namespace Racfs.MemFs

open MemFS

/-- The result of a call that changes the entry of a path at most, and nothing if it does not
succeed. -/
structure ChangesAt (fs : MemFS) (path : PathBuf) (r : Outcome Reply × MemFS) : Prop where
  frame : ∀ q, (path == q) = false → r.2.files.get? q = fs.files.get? q
  failed : (∀ a, r.1 ≠ .ok a) → r.2 = fs

variable {fs : MemFS}

lemma ChangesAt.of_unchanged (path : PathBuf) (x : Outcome Reply) : ChangesAt fs path (x, fs) :=
  ⟨fun _ _ => rfl, fun _ => rfl⟩

/-- A call that succeeds and changes the file table at one path. -/
lemma ChangesAt.of_ok {path : PathBuf} (a : Reply) {fs' : MemFS}
    (h : ∀ q, (path == q) = false → fs'.files.get? q = fs.files.get? q) :
    ChangesAt fs path (.ok a, fs') :=
  ⟨h, fun hno => absurd rfl (hno a)⟩

lemma ChangesAt.check {α : Type*} {path : PathBuf} (x : Outcome α)
    {f : α → Outcome Reply × MemFS} (hf : ∀ a, ChangesAt fs path (f a)) :
    ChangesAt fs path (fs.check x f) := by
  cases x with
  | ok a => exact hf a
  | err e => exact .of_unchanged path _
  | panic => exact .of_unchanged path _

lemma changesAt_addEntry (path : PathBuf) (e : FileEntry) :
    ChangesAt fs path (fs.addEntry path e) := by
  rw [addEntry]
  split
  · exact .of_unchanged path _
  · refine .of_ok _ fun q hq => ?_
    rw [AssocMap.get?_insert, if_neg (by simp [hq])]

lemma changesAt_updateEntry (path : PathBuf) (f : FileEntry → Outcome (Reply × FileEntry)) :
    ChangesAt fs path (fs.updateEntry path f) := by
  refine .check _ fun _ => .check _ fun r => .of_ok _ fun q hq => ?_
  rw [AssocMap.get?_modify, if_neg (by simp [hq])]

lemma changesAt_create (path : PathBuf) (now : DateTime) :
    ChangesAt fs path (fs.create path now) :=
  .check _ fun _ => changesAt_addEntry path _

lemma changesAt_mkdir (path : PathBuf) (perm : UInt32) (now : DateTime) :
    ChangesAt fs path (fs.mkdir path perm now) :=
  .check _ fun _ => changesAt_addEntry path _

lemma changesAt_symlink (target link : PathBuf) (now : DateTime) :
    ChangesAt fs link (fs.symlink target link now) :=
  .check _ fun _ => changesAt_addEntry link _

lemma changesAt_truncate (path : PathBuf) (size : UInt64) (now : DateTime) :
    ChangesAt fs path (fs.truncate path size now) :=
  changesAt_updateEntry path _

lemma changesAt_chmod (path : PathBuf) (mode : UInt32) (now : DateTime) :
    ChangesAt fs path (fs.chmod path mode now) :=
  changesAt_updateEntry path _

lemma get?_remove {path q : PathBuf} (hq : (path == q) = false) :
    (fs.remove path).2.files.get? q = fs.files.get? q := by
  have herase : (fs.files.erase path).get? q = fs.files.get? q := by
    rw [AssocMap.get?_erase, if_neg (by simp [hq])]
  rw [remove]
  cases fs.files.get? path with
  | none => rfl
  | some e =>
    simp only
    split
    · exact herase
    · exact herase

lemma get?_rename {o n q : PathBuf} (ho : (o == q) = false) (hn : (n == q) = false) :
    (fs.rename o n).2.files.get? q = fs.files.get? q := by
  have herase : (fs.files.erase o).get? q = fs.files.get? q := by
    rw [AssocMap.get?_erase, if_neg (by simp [ho])]
  rw [rename]
  cases fs.files.get? o with
  | none => rfl
  | some e =>
    simp only
    split
    · show ((fs.files.erase o).insert o e).get? q = fs.files.get? q
      rw [AssocMap.get?_insert, if_neg (by simp [ho]), herase]
    · show ((fs.files.erase o).insert n _).get? q = fs.files.get? q
      rw [AssocMap.get?_insert, if_neg (by simp [hn]), herase]

/-- A rename that does not succeed puts the entry back. -/
lemma get?_rename_failed {o n : PathBuf} (h : ∀ a, (fs.rename o n).1 ≠ .ok a) (q : PathBuf) :
    (fs.rename o n).2.files.get? q = fs.files.get? q := by
  rw [rename] at h ⊢
  cases hget : fs.files.get? o with
  | none => rfl
  | some e =>
    simp only [hget] at h ⊢
    split at h
    · next hused =>
      rw [if_pos hused]
      show ((fs.files.erase o).insert o e).get? q = fs.files.get? q
      rw [AssocMap.get?_insert]
      split_ifs with hoq
      · rw [← AssocMap.get?_congr _ hoq, hget]
      · rw [AssocMap.get?_erase, if_neg hoq]
    · exact absurd rfl (h _)

/-! ### Both tables -/

/-- Two states with the same entry and the same extended attributes at a path. -/
structure SameAt (fs fs' : MemFS) (q : PathBuf) : Prop where
  entry : fs'.files.get? q = fs.files.get? q
  xattrs : fs'.xattrs.get? q = fs.xattrs.get? q

/-- The paths that an operation may change: its own, and for `removeAll` what is below it by
components. -/
def Footprint : Op PathBuf → PathBuf → Prop
  | .create p, q | .write p _ _ _, q | .truncate p _, q | .touch p, q | .chmod p _, q
  | .mkdir p _, q | .remove p, q | .symlink _ p, q | .setXattr p _ _, q | .removeXattr p _, q =>
    (p == q) = true
  | .removeAll p, q => (p == q) = true ∨ q.startsWith p = true
  | .rename o n, q => (o == q) = true ∨ (n == q) = true
  | .read _ _ _, _ | .stat _, _ | .readDir _, _ | .readlink _, _ | .getXattr _ _, _
  | .listXattr _, _ => False

variable {q : PathBuf}

lemma SameAt.refl (fs : MemFS) (q : PathBuf) : SameAt fs fs q := ⟨rfl, rfl⟩

lemma SameAt.check {α : Type*} (x : Outcome α) {f : α → Outcome Reply × MemFS}
    (hf : ∀ a, SameAt fs (f a).2 q) : SameAt fs (fs.check x f).2 q := by
  cases x with
  | ok a => exact hf a
  | err e => exact SameAt.refl fs q
  | panic => exact SameAt.refl fs q

lemma sameAt_addEntry {path : PathBuf} (h : (path == q) = false) (e : FileEntry) :
    SameAt fs (fs.addEntry path e).2 q := by
  refine ⟨(changesAt_addEntry path e).frame q h, ?_⟩
  rw [addEntry]
  split <;> rfl

lemma sameAt_updateEntry {path : PathBuf} (h : (path == q) = false)
    (f : FileEntry → Outcome (Reply × FileEntry)) : SameAt fs (fs.updateEntry path f).2 q := by
  refine .check _ fun e => .check _ fun r => ⟨?_, rfl⟩
  show (fs.files.modify path fun _ => r.2).get? q = fs.files.get? q
  rw [AssocMap.get?_modify, if_neg (by simp [h])]

lemma sameAt_touch {path : PathBuf} (h : (path == q) = false) (now : DateTime) :
    SameAt fs (fs.touch path now).2 q := by
  rw [touch]
  cases fs.files.get? path with
  | none => exact ⟨by simp [AssocMap.get?_insert, h], rfl⟩
  | some e => exact ⟨by simp [AssocMap.get?_modify, h], rfl⟩

lemma sameAt_remove {path : PathBuf} (h : (path == q) = false) :
    SameAt fs (fs.remove path).2 q := by
  refine ⟨get?_remove h, ?_⟩
  rw [remove]
  cases fs.files.get? path with
  | none => rfl
  | some e =>
    simp only
    split
    · rfl
    · exact (AssocMap.get?_erase _ _ _).trans (if_neg (by simp [h]))

/-- The test of `removeAll` is by components. -/
lemma sameAt_removeAll {path : PathBuf} (h : (path == q) = false)
    (hbelow : q.startsWith path = false) : SameAt fs (fs.removeAll path).2 q := by
  have hkeep : ∀ a : PathBuf, (a == q) = true →
      (a != path && !a.startsWith path) = (q != path && !q.startsWith path) := by
    intro a ha
    have hstart : a.startsWith path = q.startsWith path := by
      rw [PathBuf.startsWith, PathBuf.startsWith, PathBuf.beq_iff.1 ha]
    rw [bne, bne, BEq.congr_left ha, hstart]
  have hq : (q != path && !q.startsWith path) = true := by
    rw [bne, BEq.comm, h, hbelow]
    rfl
  rw [removeAll]
  split
  · constructor
    · exact (AssocMap.get?_retain_key fs.files hkeep).trans (if_pos hq)
    · exact (AssocMap.get?_retain_key fs.xattrs hkeep).trans (if_pos hq)
  · exact SameAt.refl fs q

lemma sameAt_rename {o n : PathBuf} (ho : (o == q) = false) (hn : (n == q) = false) :
    SameAt fs (fs.rename o n).2 q := by
  refine ⟨get?_rename ho hn, ?_⟩
  rw [rename]
  cases fs.files.get? o with
  | none => rfl
  | some e =>
    simp only
    split
    · rfl
    · cases fs.xattrs.get? o with
      | none => rfl
      | some attrs =>
        show ((fs.xattrs.erase o).insert n attrs).get? q = fs.xattrs.get? q
        rw [AssocMap.get?_insert, if_neg (by simp [hn]), AssocMap.get?_erase,
          if_neg (by simp [ho])]

lemma sameAt_setXattr {path : PathBuf} (h : (path == q) = false) (name value : Bytes) :
    SameAt fs (fs.setXattr path name value).2 q := by
  refine .check _ fun e => ⟨rfl, ?_⟩
  simp only
  rw [AssocMap.get?_insert, if_neg (by simp [h])]

lemma sameAt_removeXattr {path : PathBuf} (h : (path == q) = false) (name : Bytes) :
    SameAt fs (fs.removeXattr path name).2 q := by
  refine .check _ fun e => ?_
  cases fs.xattrs.get? path with
  | none => exact SameAt.refl fs q
  | some attrs =>
    simp only
    split
    · refine ⟨rfl, ?_⟩
      simp only
      rw [AssocMap.get?_modify, if_neg (by simp [h])]
    · exact SameAt.refl fs q

/-- Outside its footprint an operation changes nothing. -/
lemma sameAt_apply (fs : MemFS) (now : DateTime) {op : Op PathBuf} (h : ¬ Footprint op q) :
    SameAt fs (fs.apply now op).2 q := by
  cases op with
  | create p => exact .check _ fun _ => sameAt_addEntry (eq_false_of_ne_true h) _
  | write p data offset flags => exact sameAt_updateEntry (eq_false_of_ne_true h) _
  | truncate p size => exact sameAt_updateEntry (eq_false_of_ne_true h) _
  | touch p => exact sameAt_touch (eq_false_of_ne_true h) now
  | chmod p mode => exact sameAt_updateEntry (eq_false_of_ne_true h) _
  | mkdir p perm => exact .check _ fun _ => sameAt_addEntry (eq_false_of_ne_true h) _
  | remove p => exact sameAt_remove (eq_false_of_ne_true h)
  | removeAll p =>
    obtain ⟨hne, hbelow⟩ := not_or.1 h
    exact sameAt_removeAll (eq_false_of_ne_true hne) (eq_false_of_ne_true hbelow)
  | rename o n =>
    obtain ⟨ho, hn⟩ := not_or.1 h
    exact sameAt_rename (eq_false_of_ne_true ho) (eq_false_of_ne_true hn)
  | symlink target link => exact .check _ fun _ => sameAt_addEntry (eq_false_of_ne_true h) _
  | setXattr p name value => exact sameAt_setXattr (eq_false_of_ne_true h) name value
  | removeXattr p name => exact sameAt_removeXattr (eq_false_of_ne_true h) name
  | _ => exact SameAt.refl fs q

/-- A name that only begins like another one is neither that path nor below it. -/
lemma apart_of_longer_name {p q : AbsPath} {dir : List Bytes} {a b : Bytes}
    (hp : p.names = dir ++ [a]) (hq : q.names = dir ++ [a ++ b]) (hb : b ≠ []) :
    (p.toPath == q.toPath) = false ∧ q.toPath.startsWith p.toPath = false := by
  have hbelow : ¬ p.names <+: q.names := by
    rw [hp, hq, List.prefix_append_right_inj]
    simpa using hb
  constructor
  · rw [← Bool.not_eq_true, AbsPath.toPath_beq_iff]
    rintro rfl
    exact hbelow (List.prefix_refl _)
  · rw [← Bool.not_eq_true, AbsPath.startsWith_iff]
    exact hbelow

/-- **Operations touch only their own paths.**  An operation that is applied to any state, and
succeeds or fails, leaves the entry and the extended attributes of every path as they are that is
neither its argument nor, for `removeAll`, below it.  In particular what is done to `/a` by a
removal or by a rename elsewhere does not show at `/ab`. -/
theorem apply_changes_own_paths (fs : MemFS) (now : DateTime) :
    (∀ (op : Op PathBuf) (q : PathBuf), ¬ Footprint op q → SameAt fs (fs.apply now op).2 q) ∧
    ∀ (p q : AbsPath) (dir : List Bytes) (a b : Bytes), p.names = dir ++ [a] →
      q.names = dir ++ [a ++ b] → b ≠ [] →
        SameAt fs (fs.apply now (.remove p)).2 q ∧ SameAt fs (fs.apply now (.removeAll p)).2 q ∧
        ∀ n : PathBuf, (n == q.toPath) = false → SameAt fs (fs.apply now (.rename p n)).2 q := by
  refine ⟨fun op q h => sameAt_apply fs now h, ?_⟩
  intro p q dir a b hp hq hb
  obtain ⟨hne, hbelow⟩ := apart_of_longer_name hp hq hb
  exact ⟨sameAt_remove hne, sameAt_removeAll hne hbelow, fun n hn => sameAt_rename hne hn⟩

/-- `/a` with the file `/a/x`, and `/ab` beside it. -/
def siblings : MemFS :=
  let fs := (MemFS.new 0).apply 1 (.mkdir ⟨[slash, 97]⟩ 0o755)
  let fs := fs.2.apply 2 (.create ⟨[slash, 97, slash, 120]⟩)
  (fs.2.apply 3 (.create ⟨[slash, 97, 98]⟩)).2

/-- `removeAll` of `/a` takes `/a/x` away and leaves `/ab`. -/
theorem apply_changes_own_paths_siblings :
    ¬ Footprint (.removeAll ⟨[slash, 97]⟩) ⟨[slash, 97, 98]⟩ ∧
    (siblings.apply 4 (.removeAll ⟨[slash, 97]⟩)).2.files.contains ⟨[slash, 97, slash, 120]⟩
      = false ∧
    siblings.files.contains ⟨[slash, 97, 98]⟩ = true ∧
    SameAt siblings (siblings.apply 4 (.removeAll ⟨[slash, 97]⟩)).2 ⟨[slash, 97, 98]⟩ := by
  have happart : ¬ Footprint (.removeAll ⟨[slash, 97]⟩) ⟨[slash, 97, 98]⟩ := by
    simp only [Footprint]
    decide
  exact ⟨happart, by decide, by decide, (apply_changes_own_paths siblings 4).1 _ _ happart⟩

/-! ### The paths of the table -/

lemma files_setXattr (fs : MemFS) (p : PathBuf) (name value : Bytes) :
    (fs.setXattr p name value).2.files = fs.files := by
  rw [setXattr]
  cases fs.getEntry p <;> rfl

lemma files_removeXattr (fs : MemFS) (p : PathBuf) (name : Bytes) :
    (fs.removeXattr p name).2.files = fs.files := by
  rw [removeXattr]
  cases fs.getEntry p with
  | ok e =>
    simp only [MemFS.check]
    split
    · rfl
    · split <;> rfl
  | err e => rfl
  | panic => rfl

/-- All paths of the table satisfy `P`. -/
def KeysMeet (P : PathBuf → Prop) (fs : MemFS) : Prop := ∀ k ∈ fs.files.keys, P k

section Keys

variable {P : PathBuf → Prop}

lemma KeysMeet.check {α : Type*} (h : KeysMeet P fs) (x : Outcome α)
    {f : α → Outcome Reply × MemFS} (hf : ∀ a, KeysMeet P (f a).2) :
    KeysMeet P (fs.check x f).2 := by
  cases x with
  | ok a => exact hf a
  | err e => exact h
  | panic => exact h

lemma KeysMeet.insert (h : KeysMeet P fs) {path : PathBuf} (hp : P path) (e : FileEntry) :
    KeysMeet P { fs with files := fs.files.insert path e } :=
  AssocMap.forall_keys_insert h hp e

lemma KeysMeet.modify (h : KeysMeet P fs) (path : PathBuf) (f : FileEntry → FileEntry) :
    KeysMeet P { fs with files := fs.files.modify path f } := by
  rwa [KeysMeet, AssocMap.keys_modify]

lemma KeysMeet.addEntry (h : KeysMeet P fs) {path : PathBuf} (hp : P path) (e : FileEntry) :
    KeysMeet P (fs.addEntry path e).2 := by
  rw [MemFS.addEntry]
  split
  · exact h
  · exact h.insert hp e

lemma KeysMeet.updateEntry (h : KeysMeet P fs) (path : PathBuf)
    (f : FileEntry → Outcome (Reply × FileEntry)) : KeysMeet P (fs.updateEntry path f).2 :=
  h.check _ fun _ => h.check _ fun _ => h.modify path _

lemma KeysMeet.touch (h : KeysMeet P fs) {path : PathBuf} (hp : P path) (now : DateTime) :
    KeysMeet P (fs.touch path now).2 := by
  rw [MemFS.touch]
  cases fs.files.get? path with
  | none => exact h.insert hp _
  | some e => exact h.modify path _

lemma KeysMeet.remove (h : KeysMeet P fs) (path : PathBuf) : KeysMeet P (fs.remove path).2 := by
  rw [MemFS.remove]
  cases fs.files.get? path with
  | none => exact h
  | some e =>
    simp only
    split <;> exact AssocMap.forall_keys_retain h _

lemma KeysMeet.removeAll (h : KeysMeet P fs) (path : PathBuf) :
    KeysMeet P (fs.removeAll path).2 := by
  rw [MemFS.removeAll]
  split
  · exact AssocMap.forall_keys_retain h _
  · exact h

lemma KeysMeet.rename (h : KeysMeet P fs) {o n : PathBuf} (ho : P o) (hn : P n) :
    KeysMeet P (fs.rename o n).2 := by
  have herase : ∀ k ∈ (fs.files.erase o).keys, P k := AssocMap.forall_keys_retain h _
  rw [MemFS.rename]
  cases fs.files.get? o with
  | none => exact h
  | some e =>
    simp only
    split
    · exact AssocMap.forall_keys_insert herase ho _
    · exact AssocMap.forall_keys_insert herase hn _

/-- An operation adds no paths to the table but its own. -/
lemma KeysMeet.apply {A : Type*} {f : A → PathBuf} (h : KeysMeet P fs) (hf : ∀ a, P (f a))
    (now : DateTime) (op : Op A) : KeysMeet P (fs.apply now (op.map f)).2 := by
  cases op with
  | create p => exact h.check _ fun _ => h.addEntry (hf p) _
  | write p data offset flags => exact h.updateEntry (f p) _
  | truncate p size => exact h.updateEntry (f p) _
  | touch p => exact h.touch (hf p) now
  | chmod p mode => exact h.updateEntry (f p) _
  | mkdir p perm => exact h.check _ fun _ => h.addEntry (hf p) _
  | remove p => exact h.remove (f p)
  | removeAll p => exact h.removeAll (f p)
  | rename o n => exact h.rename (hf o) (hf n)
  | symlink target p => exact h.check _ fun _ => h.addEntry (hf p) _
  | setXattr p name value => rwa [KeysMeet, Op.map, MemFS.apply, files_setXattr]
  | removeXattr p name => rwa [KeysMeet, Op.map, MemFS.apply, files_removeXattr]
  | _ => exact h

lemma keysMeet_new (h : P rootPath) (now : DateTime) : KeysMeet P (MemFS.new now) := by
  have hempty : KeysMeet P ⟨∅, ∅⟩ := fun k hk => by cases hk
  exact hempty.addEntry h _

end Keys

end Racfs.MemFs
