/-
# The tree of the in-memory filesystem

The table of `MemFS` is flat; that it is a tree is a convention that every operation has to
keep: the root is a stored directory, and so is the parent of every other stored path
(`TreeInv`).  We look at the table through the abstract view `kind`, a partial function from
lists of names as in `Racfs.Lib.NameTree`, say for each operation what it does to the view, and
read off the exact condition under which it keeps the tree (`Keeps`).

Creating files and links, writing, truncating, changing permissions and extended attributes
always keep it.  The others do not: `mkdir` looks at the grandparent instead of the parent,
`touch` does not look at all, `remove` takes the entry out before it finds out that the
directory is not empty, `rename` neither looks at the new parent nor takes along what is below,
and the root can be removed and renamed like any other path.
-/
import Racfs.MemFs.Frame
import Racfs.Lib.NameTree
import Racfs.Lib.Run

namespace Racfs.MemFs

open MemFS

/-- A path is stored. -/
def Stored (fs : MemFS) (p : PathBuf) : Prop := fs.files.contains p = true

instance (fs : MemFS) (p : PathBuf) : Decidable (Stored fs p) :=
  inferInstanceAs (Decidable (fs.files.contains p = true))

/-- A path is stored, as a directory. -/
def IsDir (fs : MemFS) (p : PathBuf) : Prop :=
  ∃ e, fs.files.get? p = some e ∧ e.metadata.isDirectory = true

/-- The tree invariant: the root is a directory, and so is the parent of every other stored
path. -/
def TreeInv (fs : MemFS) : Prop :=
  IsDir fs rootPath ∧
    ∀ p, Stored fs p → (p == rootPath) = false → ∃ q, p.parent = some q ∧ IsDir fs q

/-- All stored paths are normalized absolute paths, up to their spelling. -/
def Normal (fs : MemFS) : Prop := ∀ k, Stored fs k → ∃ p : AbsPath, (k == p.toPath) = true

/-- The tree of names: which paths are stored, and whether as directories. -/
def kind (files : AssocMap PathBuf FileEntry) (ns : List Bytes) : Option Bool :=
  if h : ∀ n ∈ ns, IsName n then
    (files.get? (AbsPath.mk ns h).toPath).map fun e => e.metadata.isDirectory
  else none

/-! ### The view of a path -/

lemma kind_names (files : AssocMap PathBuf FileEntry) (p : AbsPath) :
    kind files p.names = (files.get? p.toPath).map fun e => e.metadata.isDirectory := by
  rw [kind, dif_pos p.valid]

/-- A node of the tree is a path. -/
lemma exists_of_kind {files : AssocMap PathBuf FileEntry} {ns : List Bytes}
    (h : kind files ns ≠ none) :
    ∃ p : AbsPath, p.names = ns := by
  by_cases hv : ∀ n ∈ ns, IsName n
  · exact ⟨⟨ns, hv⟩, rfl⟩
  · rw [kind, dif_neg hv] at h
    exact absurd rfl h

lemma kind_eq_none_iff {fs : MemFS} {p : AbsPath} :
    kind fs.files p.names = none ↔ ¬ Stored fs p.toPath := by
  rw [kind_names, Option.map_eq_none_iff, Stored, Bool.not_eq_true,
    AssocMap.contains_eq_false_iff]

lemma kind_eq_true_iff {fs : MemFS} {p : AbsPath} :
    kind fs.files p.names = some true ↔ IsDir fs p.toPath := by
  rw [kind_names, Option.map_eq_some_iff, IsDir]

lemma toPath_root : AbsPath.root.toPath = rootPath := rfl

/-- Equal paths have equal parents. -/
lemma parent_congr {p q : PathBuf} (h : (p == q) = true) : p.parent = q.parent := by
  rw [PathBuf.beq_iff] at h
  rw [PathBuf.parent, PathBuf.parent, h]

/-- The invariant says that the view is a tree. -/
lemma treeInv_iff_isTree {fs : MemFS} (hn : Normal fs) : TreeInv fs ↔ IsTree (kind fs.files) := by
  have hparent : ∀ p : AbsPath, p.names ≠ [] → p.toPath.parent = some p.dropLast.toPath := by
    intro p hp
    rw [AbsPath.parent_toPath, if_neg hp]
  constructor
  · rintro ⟨hroot, hp⟩
    refine ⟨?_, fun ns hne hsome => ?_⟩
    · exact kind_eq_true_iff (p := AbsPath.root).2 hroot
    · obtain ⟨p, rfl⟩ := exists_of_kind hsome
      have hstored : Stored fs p.toPath := not_not.1 fun h => hsome (kind_eq_none_iff.2 h)
      have hnr : (p.toPath == rootPath) = false := by
        rw [← toPath_root, AbsPath.toPath_beq, decide_eq_false_iff_not]
        rintro rfl
        exact hne rfl
      obtain ⟨q, hq, hdir⟩ := hp p.toPath hstored hnr
      rw [hparent p hne, Option.some.injEq] at hq
      subst hq
      exact kind_eq_true_iff.2 hdir
  · intro h
    refine ⟨kind_eq_true_iff (p := AbsPath.root).1 h.root, fun k hk hnr => ?_⟩
    obtain ⟨p, hkp⟩ := hn k hk
    have hne : p.names ≠ [] := by
      intro hnil
      have : p = AbsPath.root := AbsPath.ext hnil
      rw [this, toPath_root, hnr] at hkp
      cases hkp
    have hsome : kind fs.files p.names ≠ none := by
      rw [Ne, kind_eq_none_iff, not_not, Stored, AssocMap.contains,
        ← AssocMap.get?_congr _ hkp]
      exact hk
    refine ⟨p.dropLast.toPath, ?_, kind_eq_true_iff.1 (h.parent _ hne hsome)⟩
    rw [parent_congr hkp, hparent p hne]

/-! ### The view after a change of the table -/

/-- A change of the table at one path is a change of the view at one list of names. -/
lemma kind_eq_update {files files' : AssocMap PathBuf FileEntry} (p : AbsPath)
    (v : Option FileEntry)
    (h : ∀ q : AbsPath, files'.get? q.toPath = if p = q then v else files.get? q.toPath) :
    kind files' = Function.update (kind files) p.names (v.map fun e => e.metadata.isDirectory) := by
  funext ns
  by_cases hv : ∀ n ∈ ns, IsName n
  · obtain ⟨q, rfl⟩ : ∃ q : AbsPath, q.names = ns := ⟨⟨ns, hv⟩, rfl⟩
    rw [kind_names, h]
    by_cases hpq : p = q
    · simp [hpq]
    · have hne : q.names ≠ p.names := fun h => hpq (AbsPath.ext h.symm)
      rw [Function.update_of_ne hne, kind_names, if_neg hpq]
  · have hne : ns ≠ p.names := by
      rintro rfl
      exact hv p.valid
    rw [Function.update_of_ne hne, kind, kind, dif_neg hv, dif_neg hv]

section Views

variable {files : AssocMap PathBuf FileEntry}

lemma kind_insert (p : AbsPath) (e : FileEntry) :
    kind (files.insert p.toPath e) =
      Function.update (kind files) p.names (some e.metadata.isDirectory) := by
  refine kind_eq_update p (some e) fun q => ?_
  simp [AssocMap.get?_insert]

lemma kind_erase (p : AbsPath) :
    kind (files.erase p.toPath) = Function.update (kind files) p.names none := by
  refine kind_eq_update p none fun q => ?_
  simp [AssocMap.get?_erase]

/-- An entry that stays a directory, or stays none, does not change the view. -/
lemma kind_modify (p : AbsPath) {e e' : FileEntry} (he : files.get? p.toPath = some e)
    (hdir : e'.metadata.isDirectory = e.metadata.isDirectory) :
    kind (files.modify p.toPath fun _ => e') = kind files := by
  rw [kind_eq_update p (some e') fun q => ?_, Option.map_some, hdir]
  · have hp : kind files p.names = some e.metadata.isDirectory := by simp [kind_names, he]
    rw [← hp, Function.update_eq_self]
  · simp only [AssocMap.get?_modify, AbsPath.toPath_beq, decide_eq_true_eq]
    split
    · next hpq =>
      subst hpq
      simp [he]
    · rfl

lemma kind_prune (p : AbsPath) :
    kind (files.retain fun q _ => q != p.toPath && !q.startsWith p.toPath) =
      fun ns => if p.names <+: ns then none else kind files ns := by
  have hcongr : ∀ k : PathBuf, ∀ a (v : FileEntry), (a == k) = true →
      (a != p.toPath && !a.startsWith p.toPath) = (k != p.toPath && !k.startsWith p.toPath) := by
    intro k a _ hak
    rw [bne, bne, BEq.congr_left hak, PathBuf.startsWith, PathBuf.startsWith,
      PathBuf.beq_iff.1 hak]
  funext ns
  by_cases hv : ∀ n ∈ ns, IsName n
  · obtain ⟨q, rfl⟩ : ∃ q : AbsPath, q.names = ns := ⟨⟨ns, hv⟩, rfl⟩
    rw [kind_names, AssocMap.get?_retain _ (hcongr _)]
    by_cases hpre : p.names <+: q.names
    · have hstarts : q.toPath.startsWith p.toPath = true := AbsPath.startsWith_iff.2 hpre
      cases hget : files.get? q.toPath <;> simp [hstarts, hpre]
    · have hstarts : q.toPath.startsWith p.toPath = false := by
        rw [← Bool.not_eq_true, AbsPath.startsWith_iff]
        exact hpre
      have hne : (q.toPath == p.toPath) = false := by
        rw [AbsPath.toPath_beq, decide_eq_false_iff_not]
        rintro rfl
        exact hpre (List.prefix_refl _)
      rw [if_neg hpre, kind_names]
      cases hget : files.get? q.toPath <;> simp [hstarts, hne, bne]
  · simp only [kind, dif_neg hv, ite_self]

end Views

/-! ### What the operations do to the tree -/

/-- Nothing is stored strictly below a path. -/
def NothingBelow (fs : MemFS) (p : AbsPath) : Prop :=
  ∀ q : AbsPath, p.names <+: q.names → p ≠ q → ¬ Stored fs q.toPath

/-- What an operation needs to keep the tree. -/
def Keeps (fs : MemFS) : Op AbsPath → Prop
  | .mkdir p _ =>
    Stored fs p.toPath ∨ (fs.mkdirCheck p.toPath).isOk = false ∨ IsDir fs p.dropLast.toPath
  | .touch p => Stored fs p.toPath ∨ IsDir fs p.dropLast.toPath
  | .remove p => ¬ IsDir fs p.toPath ∨ p ≠ .root ∧ NothingBelow fs p
  | .removeAll p => p ≠ .root
  | .rename o n =>
    ¬ Stored fs o.toPath ∨ Stored fs n.toPath ∨
      o ≠ .root ∧ NothingBelow fs o ∧ n.dropLast ≠ o ∧ IsDir fs n.dropLast.toPath
  | _ => True

section Operations

variable {fs : MemFS}

lemma names_ne_nil_iff {p : AbsPath} : p.names ≠ [] ↔ p ≠ .root :=
  not_congr ⟨fun h => AbsPath.ext h, fun h => h ▸ rfl⟩

lemma nothingBelow_iff {p : AbsPath} :
    NothingBelow fs p ↔ ∀ ns, p.names <+: ns → p.names ≠ ns → kind fs.files ns = none := by
  constructor
  · intro h ns hpre hne
    by_contra hsome
    obtain ⟨q, rfl⟩ := exists_of_kind hsome
    exact hsome (kind_eq_none_iff.2 (h q hpre fun heq => hne (heq ▸ rfl)))
  · intro h q hpre hne
    exact kind_eq_none_iff.1 (h q.names hpre fun heq => hne (AbsPath.ext heq))

/-- A change of an entry that leaves its type alone keeps the view. -/
lemma kind_updateEntry (p : AbsPath) {f : FileEntry → Outcome (Reply × FileEntry)}
    (hf : ∀ e r, f e = .ok r → r.2.metadata.isDirectory = e.metadata.isDirectory) :
    kind (fs.updateEntry p.toPath f).2.files = kind fs.files := by
  rcases updateEntry_cases p.toPath f with h | ⟨e, r, hget, hfe, h⟩
  · rw [h]
  · rw [h, kind_modify p hget (hf e r hfe)]

/-- A new entry needs a parent. -/
lemma isTree_addEntry_iff (h : IsTree (kind fs.files)) (p : AbsPath) (e : FileEntry) :
    IsTree (kind (fs.addEntry p.toPath e).2.files) ↔
      Stored fs p.toPath ∨ IsDir fs p.dropLast.toPath := by
  by_cases hp : Stored fs p.toPath
  · rw [addEntry_of_contains hp]
    simp [h, hp]
  · have hnone : fs.files.contains p.toPath = false := by simpa [Stored] using hp
    rw [addEntry_of_not_contains hnone, kind_insert,
      isTree_add_iff h (kind_eq_none_iff.2 hp), ← kind_eq_true_iff]
    simp [hp, AbsPath.dropLast]

/-- The parent check is right in a tree. -/
lemma isDir_of_ensureParentExists (h : IsTree (kind fs.files)) {p : AbsPath} (hp : p ≠ .root)
    (hok : fs.ensureParentExists p.toPath = .ok ()) : IsDir fs p.dropLast.toPath := by
  rw [ensureParentExists, AbsPath.parent_toPath, if_neg (names_ne_nil_iff.2 hp)] at hok
  simp only [AbsPath.toPath_bytes, AbsPath.text_eq_iff] at hok
  split at hok
  · next hnil =>
    -- the parent is the root
    rw [← kind_eq_true_iff, hnil]
    exact h.root
  · split at hok
    · cases hok
    · next e hget =>
      split at hok
      · next hdir => exact ⟨e, hget, hdir⟩
      · cases hok

/-- `create` and `symlink` make the parent check and keep the tree. -/
lemma isTree_checked_addEntry (h : IsTree (kind fs.files)) (p : AbsPath) (e : FileEntry) :
    IsTree (kind (fs.check (fs.ensureParentExists p.toPath) fun _ =>
      fs.addEntry p.toPath e).2.files) := by
  cases hc : fs.ensureParentExists p.toPath with
  | ok u =>
    refine (isTree_addEntry_iff h p e).2 ?_
    by_cases hp : p = .root
    -- the root is stored, so nothing is added
    · left
      have hroot : kind fs.files p.names = some true := hp ▸ h.root
      exact not_not.1 fun hns => by simp [kind_eq_none_iff.2 hns] at hroot
    · exact Or.inr (isDir_of_ensureParentExists h hp hc)
  | err e => exact h
  | panic => exact h

lemma isTree_mkdir_iff (h : IsTree (kind fs.files)) (p : AbsPath) (perm : UInt32) (now : DateTime) :
    IsTree (kind (fs.mkdir p.toPath perm now).2.files) ↔ Keeps fs (.mkdir p perm) := by
  rw [mkdir, Keeps]
  cases hc : fs.mkdirCheck p.toPath with
  | ok u =>
    rw [check_of_ok rfl, isTree_addEntry_iff h]
    simp [Outcome.isOk]
  | err e => simp [MemFS.check, h, Outcome.isOk]
  | panic => simp [MemFS.check, h, Outcome.isOk]

lemma isTree_touch_iff (h : IsTree (kind fs.files)) (p : AbsPath) (now : DateTime) :
    IsTree (kind (fs.touch p.toPath now).2.files) ↔ Keeps fs (.touch p) := by
  rw [Keeps, ← isTree_addEntry_iff h p (fileEntry p.toPath now)]
  rw [touch]
  cases hget : fs.files.get? p.toPath with
  | some e =>
    have hc : fs.files.contains p.toPath = true := AssocMap.contains_iff.2 ⟨e, hget⟩
    rw [addEntry_of_contains hc]
    simp only
    rw [kind_modify p hget]
    rfl
  | none => rw [addEntry_of_not_contains (AssocMap.contains_eq_false_iff.2 hget)]

lemma kind_remove (p : AbsPath) :
    kind (fs.remove p.toPath).2.files = Function.update (kind fs.files) p.names none := by
  rw [remove]
  cases hget : fs.files.get? p.toPath with
  | none =>
    have hnone : kind fs.files p.names = none := by simp [kind_names, hget]
    simp only
    rw [← hnone, Function.update_eq_self]
  | some e =>
    simp only
    -- the entry is gone, whether the removal fails or not
    split <;> exact kind_erase p

lemma isTree_remove_iff (h : IsTree (kind fs.files)) (p : AbsPath) :
    IsTree (kind (fs.remove p.toPath).2.files) ↔ Keeps fs (.remove p) := by
  rw [kind_remove, isTree_erase_iff h, Keeps, nothingBelow_iff, names_ne_nil_iff]
  constructor
  · exact Or.inr
  · rintro (hfile | hdir)
    · -- a file is not the root and has nothing below it
      rw [← kind_eq_true_iff] at hfile
      refine ⟨?_, fun q hpre hne => h.eq_none_of_prefix hpre hne hfile⟩
      rintro rfl
      exact hfile h.root
    · exact hdir

lemma isTree_removeAll_iff (h : IsTree (kind fs.files)) (p : AbsPath) :
    IsTree (kind (fs.removeAll p.toPath).2.files) ↔ Keeps fs (.removeAll p) := by
  rw [removeAll, Keeps]
  by_cases hp : fs.files.contains p.toPath = true
  · rw [if_pos hp, kind_prune, isTree_prune_iff h, names_ne_nil_iff]
  · -- only paths that are not stored, and the root is
    have hroot : p ≠ .root := by
      rintro rfl
      have hnone : kind fs.files AbsPath.root.names = none := kind_eq_none_iff.2 hp
      have hsome : kind fs.files AbsPath.root.names = some true := h.root
      simp [hnone] at hsome
    rw [if_neg hp]
    simp [h, hroot]

/-- A rename to a path in use changes nothing in the view; this includes the path itself. -/
lemma kind_rename_of_stored {o n : AbsPath} (hn : Stored fs n.toPath) :
    kind (fs.rename o.toPath n.toPath).2.files = kind fs.files := by
  rw [rename]
  cases hget : fs.files.get? o.toPath with
  | none => rfl
  | some e =>
    have hsame : Function.update (kind fs.files) o.names (some e.metadata.isDirectory) =
        kind fs.files := by
      have ho : kind fs.files o.names = some e.metadata.isDirectory := by simp [kind_names, hget]
      rw [← ho, Function.update_eq_self]
    simp only
    split
    · -- the entry is put back
      rw [kind_insert, kind_erase, Function.update_idem]
      exact hsame
    · next hc =>
      -- the new path was in use, so it is the old one
      have hon : o = n := by
        by_contra hne
        refine hc ?_
        rw [AssocMap.contains, AssocMap.get?_erase, AbsPath.toPath_beq, decide_eq_false hne]
        exact hn
      subst hon
      rw [kind_insert, kind_erase, Function.update_idem]
      exact hsame

lemma kind_rename_of_not_stored {o n : AbsPath} {e : FileEntry}
    (ho : fs.files.get? o.toPath = some e) (hn : ¬ Stored fs n.toPath) :
    kind (fs.rename o.toPath n.toPath).2.files =
      Function.update (Function.update (kind fs.files) o.names none) n.names
        (some e.metadata.isDirectory) := by
  have hc : (fs.files.erase o.toPath).contains n.toPath = false := by
    have hnone : fs.files.get? n.toPath = none := by
      rw [← AssocMap.contains_eq_false_iff]
      simpa [Stored] using hn
    rw [AssocMap.contains_eq_false_iff, AssocMap.get?_erase, hnone, ite_self]
  simp only [rename, ho, hc, Bool.false_eq_true, if_false]
  rw [kind_insert, kind_erase]
  rfl

lemma isTree_rename_iff (h : IsTree (kind fs.files)) (o n : AbsPath) :
    IsTree (kind (fs.rename o.toPath n.toPath).2.files) ↔ Keeps fs (.rename o n) := by
  by_cases hn : Stored fs n.toPath
  · rw [kind_rename_of_stored hn]
    simp [Keeps, h, hn]
  cases ho : fs.files.get? o.toPath with
  | none =>
    have hns : ¬ Stored fs o.toPath := by
      simpa [Stored] using AssocMap.contains_eq_false_iff.2 ho
    have hsame : (fs.rename o.toPath n.toPath).2 = fs := by simp [rename, ho]
    rw [hsame]
    simp [Keeps, h, hns]
  | some e =>
    have hs : Stored fs o.toPath := AssocMap.contains_iff.2 ⟨e, ho⟩
    have hne : n.names ≠ o.names := by
      intro heq
      rw [AbsPath.ext heq] at hn
      exact hn hs
    have hdrop : n.names.dropLast ≠ o.names ↔ n.dropLast ≠ o :=
      not_congr ⟨fun heq => AbsPath.ext heq, fun heq => heq ▸ rfl⟩
    rw [kind_rename_of_not_stored ho hn, isTree_move_iff h (kind_eq_none_iff.2 hn) hne, Keeps,
      names_ne_nil_iff, ← nothingBelow_iff, hdrop, ← kind_eq_true_iff]
    simp [hn, hs, AbsPath.dropLast]

end Operations

/-! ### Runs -/

/-- One operation on normalized absolute paths, at a point of time. -/
def step (fs : MemFS) (ev : DateTime × Op AbsPath) : Option MemFS :=
  some (fs.apply ev.1 (ev.2.map AbsPath.toPath)).2

/-- The exact condition for each operation. -/
lemma isTree_apply_iff {fs : MemFS} (h : IsTree (kind fs.files)) (now : DateTime)
    (op : Op AbsPath) :
    IsTree (kind (fs.apply now (op.map AbsPath.toPath)).2.files) ↔ Keeps fs op := by
  cases op with
  | create p => exact iff_of_true (isTree_checked_addEntry h p _) trivial
  | symlink target p => exact iff_of_true (isTree_checked_addEntry h p _) trivial
  | mkdir p perm => exact isTree_mkdir_iff h p perm now
  | touch p => exact isTree_touch_iff h p now
  | remove p => exact isTree_remove_iff h p
  | removeAll p => exact isTree_removeAll_iff h p
  | rename o n => exact isTree_rename_iff h o n
  | write p data offset flags =>
    refine iff_of_true ?_ trivial
    rw [Op.map, apply, write, kind_updateEntry p ?_]
    · exact h
    · intro e r hr
      split at hr
      · cases hr
      · cases hr; rfl
  | truncate p size =>
    refine iff_of_true ?_ trivial
    rw [Op.map, apply, truncate, kind_updateEntry p ?_]
    · exact h
    · intro e r hr
      split at hr
      · cases hr
      · cases hr; rfl
  | chmod p mode =>
    refine iff_of_true ?_ trivial
    rw [Op.map, apply, chmod, kind_updateEntry p ?_]
    · exact h
    · intro e r hr
      cases hr
      exact FileMetadata.isDirectory_setPermissions e.metadata mode
  | setXattr p name value =>
    refine iff_of_true ?_ trivial
    rwa [Op.map, apply, files_setXattr]
  | removeXattr p name =>
    refine iff_of_true ?_ trivial
    rwa [Op.map, apply, files_removeXattr]
  | read p offset size => exact iff_of_true h trivial
  | stat p => exact iff_of_true h trivial
  | readDir p => exact iff_of_true h trivial
  | readlink p => exact iff_of_true h trivial
  | getXattr p name => exact iff_of_true h trivial
  | listXattr p => exact iff_of_true h trivial

/-! ### Normalized paths stay normalized -/

lemma normal_iff_keysMeet {fs : MemFS} :
    Normal fs ↔ KeysMeet (fun k => ∃ p : AbsPath, (k == p.toPath) = true) fs := by
  constructor
  · intro h k hk
    obtain ⟨⟨a, e⟩, ha, rfl⟩ := List.mem_map.1 hk
    exact h a (AssocMap.contains_iff.2 ⟨e, AssocMap.get?_of_mem ha⟩)
  · intro h k hk
    obtain ⟨e, he⟩ := AssocMap.contains_iff.1 hk
    obtain ⟨a, ha, hak⟩ := AssocMap.mem_of_get? he
    obtain ⟨p, hp⟩ := h a (List.mem_map_of_mem (f := Prod.fst) ha)
    exact ⟨p, BEq.trans (BEq.symm hak) hp⟩

lemma Normal.apply {fs : MemFS} (h : Normal fs) (now : DateTime) (op : Op AbsPath) :
    Normal (fs.apply now (op.map AbsPath.toPath)).2 :=
  normal_iff_keysMeet.2 ((normal_iff_keysMeet.1 h).apply (fun p => ⟨p, BEq.rfl⟩) now op)

/-! ### The invariant over runs -/

lemma normal_new (now : DateTime) : Normal (MemFS.new now) :=
  normal_iff_keysMeet.2 (keysMeet_new ⟨.root, BEq.rfl⟩ now)

lemma treeInv_new (now : DateTime) : TreeInv (MemFS.new now) := by
  rw [treeInv_iff_isTree (normal_new now)]
  have hkind : kind (MemFS.new now).files = Function.update (kind ∅) [] (some true) := by
    refine (kind_insert .root (directoryEntry rootPath 0o755 now)).trans ?_
    rw [directoryEntry, FileMetadata.isDirectory_setPermissions,
      FileMetadata.isDirectory_directory]
    rfl
  rw [hkind]
  refine ⟨Function.update_self .., fun p hp hsome => ?_⟩
  rw [Function.update_of_ne hp] at hsome
  simp [kind] at hsome

/-- The tree invariant holds in all states of a run exactly when every operation of the run
meets its condition in the state in which it is called. -/
theorem treeInv_iff_keeps (now : DateTime) (ops : List (DateTime × Op AbsPath)) :
    StatesMeet step TreeInv (MemFS.new now) ops ↔
      StepsMeet step (fun fs ev => Keeps fs ev.2) (MemFS.new now) ops := by
  refine statesMeet_iff_stepsMeet (A := Normal) ?_ ?_ (normal_new now) (treeInv_new now)
  · rintro fs ⟨t, op⟩ fs' hn ⟨⟩
    exact hn.apply t op
  · rintro fs ⟨t, op⟩ fs' hn htree ⟨⟩
    rw [treeInv_iff_isTree (hn.apply t op)]
    exact isTree_apply_iff ((treeInv_iff_isTree hn).1 htree) t op

/-- A directory whose parent was never created. -/
theorem not_treeInv_mkdir :
    ∃ fs, run step (MemFS.new 0) [(1, .mkdir ⟨[ascii "a", ascii "b"], by decide⟩ 0o755)] = some fs ∧
      ¬ TreeInv fs := by
  refine ⟨_, rfl, fun h => ?_⟩
  obtain ⟨q, hq, e, he, -⟩ := h.2 ⟨ascii "/a/b"⟩ (by decide) (by decide)
  cases hq
  have hstored := AssocMap.contains_iff.2 ⟨e, he⟩
  revert hstored
  decide

end Racfs.MemFs
