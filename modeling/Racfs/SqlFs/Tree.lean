/-
# The tree in the database

The table `files` is flat; that it is a tree is up to the operations: the row of `/` is a
directory, and so is the row of the parent of every other stored path (`TreeInv`).  As for the
filesystem in memory we look at the table through the view `kind`, a partial function from lists
of names, and use the rules of `Racfs.Lib.NameTree`.

`create` and `mkdir` look at the parent.  `rename` does not: it puts an entry under a missing
parent, under a file or under itself.  What is below a renamed directory is found by `LIKE`,
where the old path is a pattern, and gets its new path from `SUBSTR`, which is given the length
of the old path in bytes.  And the root can be renamed and removed like any other path, as the
pattern for what is below it is `//%`.  The runs whose calls avoid all this (`KeepsTree`) keep
the tree.
-/
import Racfs.SqlFs.Model
import Racfs.Lib.NameTree
import Racfs.Lib.Run

namespace Racfs.SqlFs

/-- A call that changes the tree or a file in it, on normalized absolute paths. -/
inductive TreeOp
  | create (path : AbsPath)
  | mkdir (path : AbsPath) (perm : UInt32)
  | write (path : AbsPath) (data : Bytes) (offset : Int64) (flags : WriteFlags)
  | truncate (path : AbsPath) (size : UInt64)
  | touch (path : AbsPath)
  | rename (oldPath newPath : AbsPath)
  | remove (path : AbsPath)
  | removeAll (path : AbsPath)

/-- The call as one of the filesystem. -/
def TreeOp.toOp : TreeOp → SqlOp
  | create path => .create path
  | mkdir path perm => .mkdir path perm
  | write path data offset flags => .write path data offset flags
  | truncate path size => .truncate path size
  | touch path => .touch path
  | rename oldPath newPath => .rename oldPath newPath
  | remove path => .remove path
  | removeAll path => .removeAll path

namespace SqlFS

/-- One call, at a time. -/
def treeStep (fs : SqlFS) (c : TreeOp × DateTime) : Option SqlFS := some (fs.exec c.2 c.1.toOp).2

/-- A path is stored, as a directory. -/
def IsDirAt (files : AssocMap Bytes FileRow) (text : Bytes) : Prop :=
  ∃ row, files.get? text = some row ∧ row.isDir = true

/-- The tree invariant: the root is a directory, and so is the parent of every other stored
path. -/
def TreeInv (fs : SqlFS) : Prop :=
  IsDirAt fs.files [slash] ∧
    ∀ text, fs.files.contains text = true → text ≠ [slash] →
      ∃ parent, parentText text = some parent ∧ IsDirAt fs.files parent

/-- The length of the old path, as a number of characters, is where a separator comes in the
path, behind what matches the old path. -/
def CutBehind (oldText key : Bytes) : Prop :=
  ∃ i < key.length, key[i]? = some slash ∧ (Utf8.chars (key.take i)).length = oldText.length ∧
    Sql.like (key.take i) oldText = true

instance (oldText key : Bytes) : Decidable (CutBehind oldText key) := by
  unfold CutBehind
  infer_instance

/-- A rename that leads from a place in the tree to another one: the root stays, the new parent
is a directory that stays too, and of a directory everything below moves along. -/
structure RenamesWithin (fs : SqlFS) (oldText newText : Bytes) (row : FileRow) : Prop where
  ne_root : oldText ≠ [slash]
  parent : ∃ parent, parentText newText = some parent ∧ IsDirAt fs.files parent ∧
    parent ≠ oldText ∧ (row.isDir = true → below oldText parent = false)
  children : row.isDir = true → ∀ key ∈ fs.files.keys, below oldText key = true →
    CutBehind oldText key ∧ fs.fits newText row = true

/-- The database refuses the row under the new path, and nothing has been moved before. -/
def RefusesRename (fs : SqlFS) (oldText newText : Bytes) (row : FileRow) : Prop :=
  fs.fits newText row = false ∧
    (row.isDir = true → ∀ key ∈ fs.files.keys, below oldText key = false)

/-- The calls that keep the tree. -/
def KeepsTree (fs : SqlFS) : TreeOp → Prop
  | .rename oldPath newPath =>
    ∀ oldText newText row, pathToStr oldPath = .ok oldText → pathToStr newPath = .ok newText →
      fs.files.get? oldText = some row → fs.files.get? newText = none →
        fs.RenamesWithin oldText newText row ∨ fs.RefusesRename oldText newText row
  | .remove path => path ≠ .root
  | .removeAll path => path ≠ .root
  | _ => True

/-! ### Paths and texts -/

lemma text_of_pathToStr {p : AbsPath} {text : Bytes} (h : pathToStr p = .ok text) :
    text = AbsPath.text p.names := by
  rw [pathToStr] at h
  split_ifs at h with _ hroot
  · exact (Outcome.ok.inj h).symm
  · exact absurd rfl hroot

lemma parentText_text {p : AbsPath} (hp : p.names ≠ []) :
    parentText (AbsPath.text p.names) = some (AbsPath.text p.dropLast.names) := by
  have hkeep : ∀ names : List Bytes, (∀ n ∈ names, IsName n) →
      (names.rdropWhile fun piece => Component.parse piece = none) = names := by
    intro names hvalid
    rw [List.rdropWhile_eq_self_iff]
    intro hne
    rw [Component.parse_of_isName (hvalid _ (List.getLast_mem hne))]
    simp
  rw [parentText, AbsPath.splitOn_text p.valid hp]
  simp only [hkeep _ p.valid]
  obtain ⟨n, ns, hnames⟩ := List.exists_cons_of_ne_nil hp
  rw [hnames]
  simp only
  rw [← hnames, hkeep p.names.dropLast p.dropLast.valid]
  rfl

/-! ### What is below a path, by the pattern -/

lemma below_append {ms ns : List Bytes} (hms : ms ≠ []) (hns : ns ≠ []) :
    below (AbsPath.text ms) (AbsPath.text (ms ++ ns)) = true := by
  rw [AbsPath.text_append hms hns]
  exact Sql.like_of_prefix (by decide) _ _

/-- What is below something below is below. -/
lemma below_append_of_below {text : Bytes} {ms ns : List Bytes} (hms : ms ≠ []) (hns : ns ≠ [])
    (h : below text (AbsPath.text ms) = true) : below text (AbsPath.text (ms ++ ns)) = true := by
  rw [AbsPath.text_append hms hns]
  exact Sql.like_append_of_like (by decide) h (by decide) _

/-- What is below something that matches a path is below it. -/
lemma below_append_of_like {text : Bytes} {ms ns : List Bytes} (hms : ms ≠ []) (hns : ns ≠ [])
    (h : Sql.like (AbsPath.text ms) text = true) :
    below text (AbsPath.text (ms ++ ns)) = true := by
  rw [AbsPath.text_append hms hns]
  exact Sql.like_append_of_like_self (by decide) h _

lemma not_below_self (text : Bytes) : below text text = false := by
  rw [Bool.eq_false_iff]
  intro h
  exact lt_irrefl _ (Sql.count_slash_lt_of_like h)

lemma not_below_root (ns : List Bytes) : below (AbsPath.text ns) [slash] = false := by
  rw [Bool.eq_false_iff]
  intro h
  have hlt := Sql.count_slash_lt_of_like h
  have hroot : (Utf8.chars [slash]).count [slash] = 1 := by decide
  rw [hroot, AbsPath.text, Utf8.chars_cons _ (by decide), List.count_cons_self] at hlt
  omega

/-! ### The table as a tree -/

/-- The tree of names: which paths are stored, and whether as directories. -/
def kind (files : AssocMap Bytes FileRow) (ns : List Bytes) : Option Bool :=
  if ∀ n ∈ ns, IsName n then (files.get? (AbsPath.text ns)).map FileRow.isDir else none

/-- What the operations keep: the table is a tree of normalized paths, and the mode of a row,
which the check of the parent looks at, agrees with its column. -/
structure Inv (files : AssocMap Bytes FileRow) : Prop where
  normal : ∀ text row, files.get? text = some row → ∃ p : AbsPath, AbsPath.text p.names = text
  mode : ∀ text row, files.get? text = some row → (row.mode &&& S_IFMT == S_IFDIR) = row.isDir
  tree : IsTree (kind files)

section View

variable {files files' : AssocMap Bytes FileRow}

lemma kind_names (files : AssocMap Bytes FileRow) (p : AbsPath) :
    kind files p.names = (files.get? (AbsPath.text p.names)).map FileRow.isDir := if_pos p.valid

/-- A node of the tree is a path. -/
lemma exists_of_kind {ns : List Bytes} (h : kind files ns ≠ none) :
    ∃ p : AbsPath, p.names = ns := by
  by_cases hv : ∀ n ∈ ns, IsName n
  · exact ⟨⟨ns, hv⟩, rfl⟩
  · rw [kind, if_neg hv] at h
    exact absurd rfl h

lemma kind_eq_none_iff {p : AbsPath} :
    kind files p.names = none ↔ files.get? (AbsPath.text p.names) = none := by
  rw [kind_names, Option.map_eq_none_iff]

lemma kind_eq_true_iff {p : AbsPath} :
    kind files p.names = some true ↔ IsDirAt files (AbsPath.text p.names) := by
  rw [kind_names, Option.map_eq_some_iff, IsDirAt]

/-- The view of a table, given at the paths. -/
lemma kind_eq {t : List Bytes → Option Bool}
    (ht : ∀ ns, t ns ≠ none → ∃ p : AbsPath, p.names = ns)
    (h : ∀ p : AbsPath, kind files p.names = t p.names) : kind files = t := by
  funext ns
  by_cases hv : ∀ n ∈ ns, IsName n
  · exact h ⟨ns, hv⟩
  · rw [kind, if_neg hv]
    by_contra hne
    obtain ⟨p, rfl⟩ := ht ns (Ne.symm hne)
    exact hv p.valid

/-- A change of the table at one path is a change of the view at one list of names. -/
lemma kind_eq_update (p : AbsPath) (v : Option FileRow)
    (h : ∀ text, files'.get? text = if AbsPath.text p.names == text then v else files.get? text) :
    kind files' = Function.update (kind files) p.names (v.map FileRow.isDir) := by
  refine kind_eq (fun ns hns => ?_) fun q => ?_
  · by_cases heq : ns = p.names
    · exact ⟨p, heq.symm⟩
    · rw [Function.update_of_ne heq] at hns
      exact exists_of_kind hns
  · rw [kind_names, h]
    by_cases hpq : p = q
    · simp [hpq]
    · have hne : q.names ≠ p.names := fun heq => hpq (AbsPath.ext heq.symm)
      rw [Function.update_of_ne hne, kind_names, if_neg]
      rw [beq_iff_eq, AbsPath.text_inj]
      exact hpq

/-- The parent of a stored path, as a text. -/
lemma Inv.isDirAt_parent (h : Inv files) {p : AbsPath} (hp : p.names ≠ [])
    (hstored : files.get? (AbsPath.text p.names) ≠ none) :
    IsDirAt files (AbsPath.text p.dropLast.names) :=
  kind_eq_true_iff.1 (h.tree.parent p.names hp fun hnone => hstored (kind_eq_none_iff.1 hnone))

end View

/-- The invariant implies that of the tree. -/
lemma Inv.treeInv {fs : SqlFS} (h : Inv fs.files) : fs.TreeInv := by
  refine ⟨kind_eq_true_iff (p := .root).1 h.tree.root, fun text hstored hne => ?_⟩
  obtain ⟨row, hrow⟩ := AssocMap.contains_iff.1 hstored
  obtain ⟨p, rfl⟩ := h.normal text row hrow
  have hp : p.names ≠ [] := fun hnil => hne ((AbsPath.text_eq_iff p).2 hnil)
  exact ⟨_, parentText_text hp, h.isDirAt_parent hp (by simp [hrow])⟩

/-! ### Statements -/

section Statements

variable {fs : SqlFS} {files : AssocMap Bytes FileRow}

/-- The check of the parent is right in a tree. -/
lemma isDirAt_of_ensureParentExists (h : Inv fs.files) {p : AbsPath} (hp : p.names ≠ [])
    (hok : fs.ensureParentExists (AbsPath.text p.names) = .ok ()) :
    IsDirAt fs.files (AbsPath.text p.dropLast.names) := by
  rw [ensureParentExists, parentText_text hp] at hok
  simp only at hok
  split_ifs at hok with hroot
  · rw [hroot]
    exact kind_eq_true_iff (p := .root).1 h.tree.root
  · rw [getMetadata] at hok
    split at hok
    · cases hok
    · next row hrow =>
      rw [Outcome.ok_bind] at hok
      split_ifs at hok with hdir
      exact ⟨row, hrow, (h.mode _ row hrow).symm.trans hdir⟩

/-- A new row below a directory. -/
lemma Inv.insertRow (h : Inv fs.files) {p : AbsPath} {row : FileRow}
    (hmode : (row.mode &&& S_IFMT == S_IFDIR) = row.isDir)
    (hparent : fs.ensureParentExists (AbsPath.text p.names) = .ok ())
    (hinsert : Sql.insertRow fs.fits fs.files (AbsPath.text p.names) row = .ok files) :
    Inv files := by
  rw [Sql.insertRow] at hinsert
  split_ifs at hinsert with _ hstored
  obtain rfl := Except.ok.inj hinsert
  rw [Bool.not_eq_true, AssocMap.contains_eq_false_iff] at hstored
  have hnone := kind_eq_none_iff.2 hstored
  have hp : p.names ≠ [] := by
    intro hnil
    have hroot := h.tree.root
    rw [← hnil, hnone] at hroot
    cases hroot
  have hget := fun text => AssocMap.get?_insert fs.files (AbsPath.text p.names) text row
  refine ⟨fun text w hw => ?_, fun text w hw => ?_, ?_⟩
  · rw [hget] at hw
    split_ifs at hw with heq
    · exact ⟨p, beq_iff_eq.1 heq⟩
    · exact h.normal text w hw
  · rw [hget] at hw
    split_ifs at hw
    · obtain rfl := Option.some.inj hw
      exact hmode
    · exact h.mode text w hw
  · rw [kind_eq_update p (some row) hget]
    refine (isTree_add_iff h.tree hnone _).2 ?_
    exact kind_eq_true_iff (p := p.dropLast).2 (isDirAt_of_ensureParentExists h hp hparent)

/-- A change that leaves the type of a row alone. -/
lemma Inv.updateRow (h : Inv fs.files) {text : Bytes} {f : FileRow → FileRow}
    (hupdate : Sql.updateRow fs.fits fs.files text f = .ok files)
    (hf : ∀ row, (f row).isDir = row.isDir ∧ (f row).mode = row.mode) : Inv files := by
  rw [Sql.updateRow] at hupdate
  split_ifs at hupdate
  obtain rfl := Except.ok.inj hupdate
  have hget := fun a => AssocMap.get?_modify fs.files text a f
  have hfrom : ∀ a w, (fs.files.modify text f).get? a = some w →
      ∃ v, fs.files.get? a = some v ∧ w.isDir = v.isDir ∧ w.mode = v.mode := by
    intro a w hw
    rw [hget] at hw
    split_ifs at hw
    · obtain ⟨v, hv, rfl⟩ := Option.map_eq_some_iff.1 hw
      exact ⟨v, hv, hf v⟩
    · exact ⟨w, hw, rfl, rfl⟩
  refine ⟨fun a w hw => ?_, fun a w hw => ?_, ?_⟩
  · obtain ⟨v, hv, -⟩ := hfrom a w hw
    exact h.normal a v hv
  · obtain ⟨v, hv, hdir, hmode⟩ := hfrom a w hw
    rw [hdir, hmode]
    exact h.mode a v hv
  · have hkind : kind (fs.files.modify text f) = kind fs.files := by
      refine kind_eq (fun ns hns => exists_of_kind hns) fun p => ?_
      rw [kind_names, kind_names, hget]
      split_ifs
      · rw [Option.map_map]
        congr 1
        funext row
        exact (hf row).1
      · rfl
    rw [hkind]
    exact h.tree

/-- Rows that stay, of which with every row its parent stays. -/
lemma Inv.retain (h : Inv fs.files) (out : Bytes → Bool) (hroot : out [slash] = false)
    (hparent : ∀ p : AbsPath, p.names ≠ [] → fs.files.get? (AbsPath.text p.names) ≠ none →
      out (AbsPath.text p.dropLast.names) = true → out (AbsPath.text p.names) = true) :
    Inv (fs.files.retain fun key _ => !out key) := by
  have hget : ∀ text, (fs.files.retain fun key _ => !out key).get? text =
      if out text then none else fs.files.get? text := by
    intro text
    rw [AssocMap.get?_retain_key fs.files fun a ha => by rw [beq_iff_eq.1 ha]]
    cases out text <;> rfl
  have hfrom : ∀ text w, (fs.files.retain fun key _ => !out key).get? text = some w →
      fs.files.get? text = some w := fun text w hw => AssocMap.get?_of_get?_retain hw
  refine ⟨fun text w hw => h.normal text w (hfrom text w hw),
    fun text w hw => h.mode text w (hfrom text w hw), ?_⟩
  have hkind : kind (fs.files.retain fun key _ => !out key) =
      fun ns => if out (AbsPath.text ns) then none else kind fs.files ns := by
    refine kind_eq (fun ns hns => ?_) fun p => ?_
    · simp only [ne_eq, ite_eq_left_iff, not_forall] at hns
      obtain ⟨-, hns⟩ := hns
      exact exists_of_kind hns
    · rw [kind_names, hget, kind_names]
      split_ifs <;> rfl
  rw [hkind]
  refine h.tree.retain (by simp [AbsPath.text_nil, hroot]) fun ns hne hsome hout => ?_
  obtain ⟨p, rfl⟩ := exists_of_kind hsome
  exact hparent p hne (fun hnone => hsome (kind_eq_none_iff.2 hnone)) hout

end Statements

/-! ### A rename -/

/-- The first statement of a rename of a stored path: the rows in `moved`, those below a
directory, are moved. -/
structure Renaming (fs : SqlFS) (o n : AbsPath) (row : FileRow) (moved : List Bytes)
    (files₁ : AssocMap Bytes FileRow) : Prop where
  inv : Inv fs.files
  old : fs.files.get? (AbsPath.text o.names) = some row
  new : fs.files.get? (AbsPath.text n.names) = none
  within : fs.RenamesWithin (AbsPath.text o.names) (AbsPath.text n.names) row
  nodup : moved.Nodup
  mem_moved : ∀ key, key ∈ moved ↔
    row.isDir = true ∧ key ∈ fs.files.keys ∧ below (AbsPath.text o.names) key = true
  children : Sql.moveRows fs.fits fs.files moved
    (movedText (AbsPath.text o.names) (AbsPath.text n.names)) = .ok files₁

/-- Both statements: the row of the path itself is moved too. -/
structure Finished (fs : SqlFS) (o n : AbsPath) (row : FileRow) (moved : List Bytes)
    (files₁ files₂ : AssocMap Bytes FileRow) : Prop extends Renaming fs o n row moved files₁ where
  self : Sql.moveRow fs.fits files₁ (AbsPath.text o.names) (AbsPath.text n.names) = .ok files₂

/-- Names that match the old path, and that the new path takes the place of. -/
structure CutAfter (o n : AbsPath) (ms : List Bytes) : Prop where
  ne_nil : ms ≠ []
  like : Sql.like (AbsPath.text ms) (AbsPath.text o.names) = true
  movedText : ∀ ns, ns ≠ [] → movedText (AbsPath.text o.names) (AbsPath.text n.names)
    (AbsPath.text (ms ++ ns)) = AbsPath.text (n.names ++ ns)

/-- What becomes of the stored paths. -/
inductive Renamed (fs : SqlFS) (o n : AbsPath) (moved : List Bytes) : AbsPath → AbsPath → Prop
  | self : Renamed fs o n moved o n
  | below {p q : AbsPath} {ms ns : List Bytes} (hp : p.names = ms ++ ns)
      (hq : q.names = n.names ++ ns) (hns : ns ≠ []) (hcut : CutAfter o n ms)
      (hmem : AbsPath.text p.names ∈ moved) : Renamed fs o n moved p q
  | other {p : AbsPath} (hstored : fs.files.get? (AbsPath.text p.names) ≠ none)
      (hmem : AbsPath.text p.names ∉ moved) (hne : p ≠ o) : Renamed fs o n moved p p

/-- A path that is cut where it should be, by its names. -/
lemma exists_of_cutBehind {o n p : AbsPath} (hn : n.names ≠ [])
    (h : CutBehind (AbsPath.text o.names) (AbsPath.text p.names)) :
    ∃ ms ns, p.names = ms ++ ns ∧ ns ≠ [] ∧ CutAfter o n ms := by
  obtain ⟨i, hi, hslash, hlen, hlike⟩ := h
  have hsplit : AbsPath.text p.names =
      (AbsPath.text p.names).take i ++ slash :: (AbsPath.text p.names).drop (i + 1) := by
    rw [List.getElem?_eq_getElem hi, Option.some.injEq] at hslash
    rw [← hslash, List.getElem_cons_drop, List.take_append_drop]
  have hne : (AbsPath.text p.names).take i ≠ [] := by
    intro hnil
    rw [hnil, AbsPath.text] at hlen
    simp [Utf8.chars, Utf8.charsAux] at hlen
  obtain ⟨ms, ns, hnames, hms, hns, htext, -⟩ := AbsPath.exists_names_of_append hne hsplit
  rw [← htext] at hlen hlike
  refine ⟨ms, ns, hnames, hns, hms, hlike, fun ns' hns' => ?_⟩
  rw [AbsPath.text_append hms hns', AbsPath.text_append hn hns', movedText, ← hlen]
  exact congrArg (AbsPath.text n.names ++ ·) (Sql.substr_append _ (by decide) _)

namespace Renaming

variable {fs : SqlFS} {o n : AbsPath} {row : FileRow} {moved : List Bytes}
  {files₁ : AssocMap Bytes FileRow}

lemma old_ne_nil (h : Renaming fs o n row moved files₁) : o.names ≠ [] :=
  fun hnil => h.within.ne_root ((AbsPath.text_eq_iff o).2 hnil)

lemma new_ne_nil (h : Renaming fs o n row moved files₁) : n.names ≠ [] := by
  intro hnil
  have hroot := h.inv.tree.root
  rw [← hnil, kind_eq_none_iff.2 h.new] at hroot
  cases hroot

/-- Nothing is stored at or below the new path. -/
lemma get?_below_new (h : Renaming fs o n row moved files₁) {q : AbsPath}
    (hq : n.names <+: q.names) : fs.files.get? (AbsPath.text q.names) = none := by
  have hnone := kind_eq_none_iff.2 h.new
  by_cases hnq : n.names = q.names
  · rw [← hnq]
    exact h.new
  · refine kind_eq_none_iff.1 (h.inv.tree.eq_none_of_prefix hq hnq ?_)
    rw [hnone]
    simp

/-- What is moved goes below the new path. -/
lemma exists_below (h : Renaming fs o n row moved files₁) {key : Bytes}
    (hkey : key ∈ moved) :
    ∃ p q, Renamed fs o n moved p q ∧ n.names <+: q.names ∧ n ≠ q ∧
      AbsPath.text q.names = movedText (AbsPath.text o.names) (AbsPath.text n.names) key := by
  obtain ⟨hdir, hstored, hbelow⟩ := (h.mem_moved key).1 hkey
  obtain ⟨w, hw⟩ := AssocMap.mem_keys.1 hstored
  obtain ⟨p, rfl⟩ := h.inv.normal key w hw
  obtain ⟨ms, ns, hp, hns, hcut⟩ :=
    exists_of_cutBehind h.new_ne_nil (h.within.children hdir _ hstored hbelow).1
  have hvalid : ∀ x ∈ n.names ++ ns, IsName x := by
    intro x hx
    rcases List.mem_append.1 hx with hx | hx
    · exact n.valid x hx
    · exact p.valid x (by rw [hp]; exact List.mem_append_right ms hx)
  refine ⟨p, ⟨n.names ++ ns, hvalid⟩, .below hp rfl hns hcut hkey, List.prefix_append _ _,
    fun heq => hns ?_, ?_⟩
  · exact List.append_right_eq_self.1 (congrArg AbsPath.names heq).symm
  · rw [hp, hcut.movedText ns hns]

lemma ne_of_stored (h : Renaming fs o n row moved files₁) {a : Bytes}
    (ha : fs.files.get? a ≠ none) :
    ∀ key ∈ moved, movedText (AbsPath.text o.names) (AbsPath.text n.names) key ≠ a := by
  rintro key hkey rfl
  obtain ⟨p, q, -, hq, -, htext⟩ := h.exists_below hkey
  rw [← htext] at ha
  exact ha (h.get?_below_new hq)

lemma old_notMem (h : Renaming fs o n row moved files₁) :
    AbsPath.text o.names ∉ moved := by
  intro hmem
  have hbelow := ((h.mem_moved _).1 hmem).2.2
  rw [not_below_self] at hbelow
  cases hbelow

/-- The table after the first statement. -/
lemma get?_children (h : Renaming fs o n row moved files₁) :
    (∀ key ∈ moved, files₁.get? (movedText (AbsPath.text o.names) (AbsPath.text n.names) key) =
      fs.files.get? key) ∧
    ∀ a, (∀ key ∈ moved, movedText (AbsPath.text o.names) (AbsPath.text n.names) key ≠ a) →
      files₁.get? a = if a ∈ moved then none else fs.files.get? a := by
  have hstored : ∀ key ∈ moved, ∃ w, fs.files.get? key = some w := fun key hkey =>
    AssocMap.mem_keys.1 ((h.mem_moved key).1 hkey).2.1
  obtain ⟨hmoved, hrest⟩ := Sql.get?_moveRows h.children h.nodup
    (fun key hkey => AssocMap.contains_iff.2 (hstored key hkey)) (fun key hkey hmem => by
      obtain ⟨w, hw⟩ := hstored _ hmem
      exact h.ne_of_stored (by simp [hw]) key hkey rfl)
  exact ⟨fun key hkey => (hmoved key hkey).2, hrest⟩

lemma text_ne (h : Renaming fs o n row moved files₁) :
    AbsPath.text o.names ≠ AbsPath.text n.names := by
  intro heq
  have hnew := h.new
  rw [← heq, h.old] at hnew
  cases hnew

lemma get?_old (h : Renaming fs o n row moved files₁) :
    files₁.get? (AbsPath.text o.names) = some row := by
  rw [h.get?_children.2 _ (h.ne_of_stored (by simp [h.old])), if_neg h.old_notMem, h.old]

/-- The new path is still free. -/
lemma get?_new (h : Renaming fs o n row moved files₁) :
    files₁.get? (AbsPath.text n.names) = none := by
  rw [h.get?_children.2 _ fun key hkey heq => ?_]
  · split_ifs
    · rfl
    · exact h.new
  · obtain ⟨p, q, -, -, hnq, htext⟩ := h.exists_below hkey
    exact hnq (AbsPath.text_inj.1 (htext.trans heq)).symm

lemma mem_moved_of_below (h : Renaming fs o n row moved files₁) {p : AbsPath}
    (hdir : row.isDir = true) (hstored : fs.files.get? (AbsPath.text p.names) ≠ none)
    (hbelow : below (AbsPath.text o.names) (AbsPath.text p.names) = true) :
    AbsPath.text p.names ∈ moved :=
  (h.mem_moved _).2 ⟨hdir, AssocMap.mem_keys.2 (Option.ne_none_iff_exists'.1 hstored), hbelow⟩

/-- The parent of a path that stays is a directory that stays. -/
lemma parent_of_notMem (h : Renaming fs o n row moved files₁) {p : AbsPath} (hp : p.names ≠ [])
    (hstored : fs.files.get? (AbsPath.text p.names) ≠ none)
    (hmem : AbsPath.text p.names ∉ moved) :
    IsDirAt fs.files (AbsPath.text p.dropLast.names) ∧
      AbsPath.text p.dropLast.names ∉ moved ∧ p.dropLast ≠ o := by
  have hdir := h.inv.isDirAt_parent hp hstored
  obtain ⟨x, hx⟩ : ∃ x, p.names = p.dropLast.names ++ [x] :=
    ⟨_, (List.dropLast_append_getLast hp).symm⟩
  refine ⟨hdir, fun hparent => ?_, ?_⟩
  · -- below something that moves everything moves
    obtain ⟨hodir, -, hbelow⟩ := (h.mem_moved _).1 hparent
    have hne : p.dropLast.names ≠ [] := by
      intro hnil
      rw [hnil, AbsPath.text_nil, not_below_root] at hbelow
      cases hbelow
    refine hmem (h.mem_moved_of_below hodir hstored ?_)
    rw [hx]
    exact below_append_of_below hne (by simp) hbelow
  · rintro rfl
    obtain ⟨w, hw, hwdir⟩ := hdir
    have hodir : row.isDir = true := by
      rw [h.old, Option.some.injEq] at hw
      rw [hw, hwdir]
    refine hmem (h.mem_moved_of_below hodir hstored ?_)
    rw [hx]
    exact below_append h.old_ne_nil (by simp)

/-- Every path but the root comes below a directory. -/
lemma parent_renamed (h : Renaming fs o n row moved files₁) {p q : AbsPath}
    (hpq : Renamed fs o n moved p q) (hq : q.names ≠ []) :
    ∃ p', IsDirAt fs.files (AbsPath.text p'.names) ∧ Renamed fs o n moved p' q.dropLast := by
  cases hpq with
  | self =>
    -- the new parent is not among what moves
    obtain ⟨parent, hparent, hdir, hne, hbelow⟩ := h.within.parent
    rw [parentText_text hq, Option.some.injEq] at hparent
    subst hparent
    obtain ⟨w, hw, -⟩ := id hdir
    refine ⟨n.dropLast, hdir, .other (by simp [hw]) (fun hmem => ?_) ?_⟩
    · obtain ⟨hodir, -, hmatch⟩ := (h.mem_moved _).1 hmem
      rw [hbelow hodir] at hmatch
      cases hmatch
    · rintro heq
      exact hne (heq ▸ rfl)
  | @below p q ms ns hp hqn hns hcut hmem =>
    have hodir := ((h.mem_moved _).1 hmem).1
    have hqdrop := AbsPath.names_dropLast_append hqn hns
    by_cases hone : ns.dropLast = []
    · -- it is directly below the directory that is renamed
      rw [hone, List.append_nil] at hqdrop
      rw [show q.dropLast = n from AbsPath.ext hqdrop]
      exact ⟨o, ⟨row, h.old, hodir⟩, .self⟩
    · -- otherwise its parent moves along
      have hpdrop := AbsPath.names_dropLast_append hp hns
      have hstored := AssocMap.mem_keys.1 ((h.mem_moved _).1 hmem).2.1
      have hdir : IsDirAt fs.files (AbsPath.text p.dropLast.names) :=
        h.inv.isDirAt_parent (by simp [hp, hns]) (Option.ne_none_iff_exists'.2 hstored)
      obtain ⟨w, hw, -⟩ := id hdir
      refine ⟨p.dropLast, hdir, .below hpdrop hqdrop hone hcut ?_⟩
      refine h.mem_moved_of_below hodir (by simp [hw]) ?_
      rw [hpdrop]
      exact below_append_of_like hcut.ne_nil hone hcut.like
  | @other p hstored hmem hne =>
    obtain ⟨hdir, hstays, hnot⟩ := h.parent_of_notMem hq hstored hmem
    obtain ⟨w, hw, -⟩ := id hdir
    exact ⟨p.dropLast, hdir, .other (by simp [hw]) hstays hnot⟩

/-- The second statement only fails when the first one has moved nothing. -/
lemma inv_of_error (h : Renaming fs o n row moved files₁) {e : Sql.SqlError}
    (he : Sql.moveRow fs.fits files₁ (AbsPath.text o.names) (AbsPath.text n.names) = .error e) :
    Inv files₁ := by
  cases hmoved : moved with
  | nil =>
    have hchildren := h.children
    rw [hmoved] at hchildren
    obtain rfl := Except.ok.inj hchildren
    exact h.inv
  | cons key rest =>
    have hkey : key ∈ moved := by simp [hmoved]
    obtain ⟨hdir, hstored, hbelow⟩ := (h.mem_moved key).1 hkey
    have hfits := (h.within.children hdir key hstored hbelow).2
    obtain ⟨files₂, hok, -⟩ := Sql.exists_moveRow fs.fits hfits h.text_ne h.get?_old h.get?_new
    exact absurd (hok.symm.trans he) (by simp)

end Renaming

namespace Finished

variable {fs : SqlFS} {o n : AbsPath} {row : FileRow} {moved : List Bytes}
  {files₁ files₂ : AssocMap Bytes FileRow}

/-- The table after both statements. -/
lemma get?_self (h : Finished fs o n row moved files₁ files₂) (a : Bytes) :
    files₂.get? a = if AbsPath.text n.names == a then some row
      else if AbsPath.text o.names == a then none else files₁.get? a := by
  exact (Sql.get?_moveRow h.self h.get?_old h.text_ne).2 a

/-- Every row is where its path leads now. -/
lemma get?_of_renamed (h : Finished fs o n row moved files₁ files₂) {p q : AbsPath}
    (hpq : Renamed fs o n moved p q) :
    files₂.get? (AbsPath.text q.names) = fs.files.get? (AbsPath.text p.names) := by
  rw [h.get?_self]
  cases hpq with
  | self => rw [if_pos BEq.rfl, h.old]
  | @below p q ms ns hp hq hns hcut hmem =>
    have hnew : n ≠ q := by
      rintro rfl
      exact hns (List.append_right_eq_self.1 hq.symm)
    have hfree := h.get?_below_new (q := q) (hq ▸ List.prefix_append _ _)
    have hold : o ≠ q := by
      rintro rfl
      rw [h.old] at hfree
      cases hfree
    simp only [beq_iff_eq, AbsPath.text_inj, hnew, hold, if_false]
    rw [← h.get?_children.1 _ hmem, hp, hcut.movedText ns hns, hq]
  | other hstored hmem hne =>
    have hnew : n ≠ p := by
      rintro rfl
      exact hstored h.new
    simp only [beq_iff_eq, AbsPath.text_inj, hnew, Ne.symm hne, if_false]
    rw [h.get?_children.2 _ (h.ne_of_stored hstored), if_neg hmem]

/-- There are no other rows. -/
lemma exists_renamed (h : Finished fs o n row moved files₁ files₂) {a : Bytes} {w : FileRow}
    (hw : files₂.get? a = some w) :
    ∃ p q, Renamed fs o n moved p q ∧ AbsPath.text q.names = a := by
  rw [h.get?_self] at hw
  split_ifs at hw with hnew hold
  · exact ⟨o, n, .self, beq_iff_eq.1 hnew⟩
  · by_cases hmoved : ∃ key ∈ moved,
        movedText (AbsPath.text o.names) (AbsPath.text n.names) key = a
    · obtain ⟨key, hkey, rfl⟩ := hmoved
      obtain ⟨p, q, hpq, -, -, htext⟩ := h.exists_below hkey
      exact ⟨p, q, hpq, htext⟩
    · rw [h.get?_children.2 a fun key hkey heq => hmoved ⟨key, hkey, heq⟩] at hw
      split_ifs at hw with hmem
      obtain ⟨p, rfl⟩ := h.inv.normal a w hw
      refine ⟨p, p, .other (by simp [hw]) hmem ?_, rfl⟩
      rintro rfl
      exact hold BEq.rfl

lemma inv_files₂ (h : Finished fs o n row moved files₁ files₂) : Inv files₂ := by
  refine ⟨fun a w hw => ?_, fun a w hw => ?_, ?_⟩
  · obtain ⟨p, q, -, hq⟩ := h.exists_renamed hw
    exact ⟨q, hq⟩
  · obtain ⟨p, q, hpq, rfl⟩ := h.exists_renamed hw
    rw [h.get?_of_renamed hpq] at hw
    exact h.inv.mode _ w hw
  · refine h.inv.tree.relabel (R := fun ps qs => ∃ p q : AbsPath, p.names = ps ∧ q.names = qs ∧
      Renamed fs o n moved p q) ?_ ?_ ?_ ?_
    · obtain ⟨w, hw, -⟩ := kind_eq_true_iff (p := .root).1 h.inv.tree.root
      refine ⟨.root, .root, rfl, rfl, .other (by simp [hw]) (fun hmem => ?_) ?_⟩
      · have hbelow := ((h.mem_moved _).1 hmem).2.2
        rw [AbsPath.root, AbsPath.text_nil, not_below_root] at hbelow
        cases hbelow
      · rintro rfl
        exact h.old_ne_nil rfl
    · rintro _ _ ⟨p, q, rfl, rfl, hpq⟩
      rw [kind_names, kind_names, h.get?_of_renamed hpq]
    · intro qs hqs
      obtain ⟨q', rfl⟩ := exists_of_kind hqs
      obtain ⟨w, hw⟩ := Option.ne_none_iff_exists'.1 fun hnone => hqs (kind_eq_none_iff.2 hnone)
      obtain ⟨p, q, hpq, htext⟩ := h.exists_renamed hw
      exact ⟨p.names, p, q, rfl, congrArg AbsPath.names (AbsPath.text_inj.1 htext), hpq⟩
    · rintro _ _ ⟨p, q, rfl, rfl, hpq⟩ - hne
      obtain ⟨p', hdir, hpq'⟩ := h.parent_renamed hpq hne
      exact ⟨p'.names, kind_eq_true_iff.2 hdir, p', q.dropLast, rfl, rfl, hpq'⟩

end Finished

/-! ### The operations -/

section Operations

variable {fs : SqlFS}

lemma check_inv {α : Type*} {x : Outcome α} {f : α → Outcome Reply × SqlFS} (h : Inv fs.files)
    (hf : ∀ a, x = .ok a → Inv (f a).2.files) : Inv (fs.check x f).2.files :=
  of_check (P := fun fs => Inv fs.files) h hf

lemma execute_inv {what : String} {stmt : Except Sql.SqlError (AssocMap Bytes FileRow)}
    {f : SqlFS → Outcome Reply × SqlFS} (h : ∀ e, stmt = .error e → Inv fs.files)
    (hf : ∀ files, stmt = .ok files → Inv (f { fs with files }).2.files) :
    Inv (fs.execute what stmt f).2.files :=
  of_execute (P := fun fs => Inv fs.files) h hf

/-- The operations that make an entry. -/
lemma make_inv (h : Inv fs.files) (p : AbsPath) (what : String) {row : FileRow}
    (hmode : (row.mode &&& S_IFMT == S_IFDIR) = row.isDir) :
    Inv (fs.check (pathToStr p) fun text =>
      fs.check (fs.ensureParentExists text) fun _ =>
        if fs.exists? text then (.err (.AlreadyExists p), fs)
        else
          fs.execute what (Sql.insertRow fs.fits fs.files text row) fun fs =>
            (.ok .unit, fs)).2.files := by
  refine check_inv h fun text htext => ?_
  obtain rfl := text_of_pathToStr htext
  refine check_inv h fun _ hparent => ?_
  split_ifs
  · exact h
  · exact execute_inv (fun _ _ => h) fun files hinsert => h.insertRow hmode hparent hinsert

lemma create_inv (h : Inv fs.files) (p : AbsPath) (now : DateTime) :
    Inv (fs.create p now).2.files := by
  refine make_inv h p "create file" ?_
  simp only [FileRow.new]
  decide

lemma mkdir_inv (h : Inv fs.files) (p : AbsPath) (now : DateTime) :
    Inv (fs.mkdir p now).2.files := by
  refine make_inv h p "create directory" ?_
  simp only [FileRow.new]
  decide

lemma write_inv (h : Inv fs.files) (p : AbsPath) (data : Bytes) (offset : Int64)
    (flags : WriteFlags) (now : DateTime) : Inv (fs.write p data offset flags now).2.files := by
  refine check_inv h fun text _ => check_inv h fun dir _ => ?_
  split_ifs
  · exact h
  · exact h
  · refine execute_inv (fun _ _ => h) fun files hupdate => ?_
    exact h.updateRow hupdate fun row => ⟨rfl, rfl⟩

lemma truncate_inv (h : Inv fs.files) (p : AbsPath) (size : UInt64) (now : DateTime) :
    Inv (fs.truncate p size now).2.files := by
  refine check_inv h fun text _ => check_inv h fun dir _ => ?_
  split_ifs
  · exact h
  · refine execute_inv (fun _ _ => h) fun files hupdate => ?_
    exact h.updateRow hupdate fun row => ⟨rfl, rfl⟩

lemma touch_inv (h : Inv fs.files) (p : AbsPath) (now : DateTime) :
    Inv (fs.touch p now).2.files := by
  have hset : ∀ (fs : SqlFS) (text : Bytes), Inv fs.files →
      Inv (fs.execute "touch" (Sql.updateRow fs.fits fs.files text fun row => row.touched now)
        fun fs => (.ok .unit, fs)).2.files := by
    intro fs text h
    refine execute_inv (fun _ _ => h) fun files hupdate => ?_
    exact h.updateRow hupdate fun row => ⟨rfl, rfl⟩
  refine check_inv h fun text _ => ?_
  split_ifs
  · exact hset fs text h
  · have hcreate := create_inv h p now
    split
    · next fs' hok =>
      rw [hok] at hcreate
      exact hset fs' text hcreate
    · exact hcreate

/-- A directory that is removed has nothing below it. -/
lemma remove_inv (h : Inv fs.files) {p : AbsPath} (hp : p ≠ .root) :
    Inv (fs.remove p).2.files := by
  refine check_inv h fun text htext => ?_
  obtain rfl := text_of_pathToStr htext
  split_ifs
  · exact h
  refine check_inv h fun dir hdir => ?_
  split_ifs with hempty
  · exact h
  · have hpn : p.names ≠ [] := fun hnil => hp (AbsPath.ext hnil)
    refine h.retain (fun key => key == AbsPath.text p.names) ?_ fun q hq hstored hout => ?_
    · rw [beq_eq_false_iff_ne]
      intro heq
      exact hpn ((AbsPath.text_eq_iff p).1 heq.symm)
    · -- the parent of a stored path is a directory that is not empty
      exfalso
      obtain ⟨row, hrow, hrowdir⟩ := h.isDirAt_parent hq hstored
      have hpq := AbsPath.text_inj.1 (beq_iff_eq.1 hout)
      subst hpq
      refine hempty ⟨?_, ?_⟩
      · rw [isDir, hrow] at hdir
        exact (Outcome.ok.inj hdir).symm.trans hrowdir
      · obtain ⟨w, hw⟩ := Option.ne_none_iff_exists'.1 hstored
        refine List.any_eq_true.2 ⟨_, AssocMap.mem_keys.2 ⟨w, hw⟩, ?_⟩
        rw [← List.dropLast_append_getLast hq]
        exact below_append hpn (by simp)

lemma removeAll_inv (h : Inv fs.files) {p : AbsPath} (hp : p ≠ .root) :
    Inv (fs.removeAll p).2.files := by
  refine check_inv h fun text htext => ?_
  obtain rfl := text_of_pathToStr htext
  split_ifs
  · exact h
  have hpn : p.names ≠ [] := fun hnil => hp (AbsPath.ext hnil)
  refine h.retain (fun key => key == AbsPath.text p.names || below _ key) ?_
    fun q hq _ hout => ?_
  · rw [not_below_root, Bool.or_false, beq_eq_false_iff_ne]
    intro heq
    exact hpn ((AbsPath.text_eq_iff p).1 heq.symm)
  · rw [Bool.or_eq_true] at hout ⊢
    right
    obtain ⟨x, hx⟩ : ∃ x, q.names = q.dropLast.names ++ [x] :=
      ⟨_, (List.dropLast_append_getLast hq).symm⟩
    rw [hx]
    rcases hout with hout | hout
    · have hpq := AbsPath.text_inj.1 (beq_iff_eq.1 hout)
      rw [hpq]
      exact below_append hpn (by simp)
    · refine below_append_of_below ?_ (by simp) hout
      intro hnil
      rw [hnil, AbsPath.text_nil, not_below_root] at hout
      cases hout

lemma rename_inv (h : Inv fs.files) {o n : AbsPath}
    (hkeeps : fs.KeepsTree (.rename o n)) : Inv (fs.rename o n).2.files := by
  refine check_inv h fun oldText hold => check_inv h fun newText hnew => ?_
  split_ifs with holdStored hnewStored
  · exact h
  · exact h
  refine check_inv h fun dir hdir => ?_
  obtain ⟨row, hrow⟩ := AssocMap.contains_iff.1 (by simpa [exists?] using holdStored)
  have hfree : fs.files.get? newText = none :=
    AssocMap.contains_eq_false_iff.1 (by simpa [exists?] using hnewStored)
  have hcond := hkeeps oldText newText row hold hnew hrow hfree
  obtain rfl := text_of_pathToStr hold
  obtain rfl := text_of_pathToStr hnew
  obtain rfl : row.isDir = dir := by
    rw [isDir, hrow] at hdir
    exact Outcome.ok.inj hdir
  have hne : AbsPath.text o.names ≠ AbsPath.text n.names := by
    intro heq
    rw [heq, hfree] at hrow
    cases hrow
  rcases hcond with hwithin | ⟨hfits, hnone⟩
  · split_ifs with hd
    · refine execute_inv (fun _ _ => h) fun files₁ hchildren => ?_
      have hren : Renaming fs o n row (fs.files.keys.filter (below (AbsPath.text o.names)))
          files₁ := ⟨h, hrow, hfree, hwithin, fs.files.nodup_keys.filter _,
            fun key => by simp [hd], hchildren⟩
      exact execute_inv (fun e he => hren.inv_of_error he) fun files₂ hself =>
        Finished.inv_files₂ ⟨hren, hself⟩
    · refine execute_inv (fun _ _ => h) fun files₂ hself => ?_
      have hren : Renaming fs o n row [] fs.files :=
        ⟨h, hrow, hfree, hwithin, List.nodup_nil, fun key => by simp [hd], rfl⟩
      exact Finished.inv_files₂ ⟨hren, hself⟩
  · have hrefused : Sql.moveRow fs.fits fs.files (AbsPath.text o.names) (AbsPath.text n.names) =
        .error .tooBig := Sql.moveRow_of_not_fits hrow hne hfits
    split_ifs with hd
    · have hmoved : fs.files.keys.filter (below (AbsPath.text o.names)) = [] :=
        List.filter_eq_nil_iff.2 fun key hkey => by simp [hnone hd key hkey]
      rw [hmoved]
      refine execute_inv (fun _ _ => h) fun files₁ hchildren => ?_
      obtain rfl := Except.ok.inj hchildren
      refine execute_inv (fun _ _ => h) fun files₂ hself => ?_
      exact absurd (hself.symm.trans hrefused) (by simp)
    · refine execute_inv (fun _ _ => h) fun files₂ hself => ?_
      exact absurd (hself.symm.trans hrefused) (by simp)

/-- A call that meets its condition keeps the invariant. -/
lemma exec_inv (h : Inv fs.files) (now : DateTime) {op : TreeOp} (hkeeps : fs.KeepsTree op) :
    Inv (fs.exec now op.toOp).2.files := by
  cases op with
  | create path => exact create_inv h path now
  | mkdir path perm => exact mkdir_inv h path now
  | write path data offset flags => exact write_inv h path data offset flags now
  | truncate path size => exact truncate_inv h path size now
  | touch path => exact touch_inv h path now
  | rename oldPath newPath => exact rename_inv h hkeeps
  | remove path => exact remove_inv h hkeeps
  | removeAll path => exact removeAll_inv h hkeeps

end Operations

/-! ### Runs -/

lemma inv_new (config : SqlConfig) (fits : Bytes → FileRow → Bool) (now : DateTime) :
    Inv (new config fits now).files := by
  have hget : ∀ text, (new config fits now).files.get? text = if [slash] == text then
      some (.new true (S_IFDIR ||| 0o700 ||| 0o040 ||| 0o010 ||| 0o004 ||| 0o001) now)
      else none := by
    intro text
    rw [new, AssocMap.get?_insert, AssocMap.get?_empty]
  refine ⟨fun text row h => ?_, fun text row h => ?_, ?_⟩
  · rw [hget] at h
    split_ifs at h with heq
    exact ⟨.root, beq_iff_eq.1 heq⟩
  · rw [hget] at h
    split_ifs at h
    obtain rfl := Option.some.inj h
    simp only [FileRow.new]
    decide
  · refine ⟨?_, fun ns hne hsome => absurd ?_ hsome⟩
    · exact (kind_names _ .root).trans (by rw [hget]; rfl)
    · obtain ⟨p, rfl⟩ := exists_of_kind hsome
      rw [kind_eq_none_iff, hget, if_neg]
      rw [beq_iff_eq]
      exact fun heq => hne ((AbsPath.text_eq_iff p).1 heq.symm)

/-- In a run whose calls meet their conditions, all states are trees. -/
theorem treeInv_of_keepsTree (config : SqlConfig) (fits : Bytes → FileRow → Bool) (now : DateTime)
    (calls : List (TreeOp × DateTime))
    (hcalls : StepsMeet treeStep (fun fs c => fs.KeepsTree c.1) (new config fits now) calls) :
    StatesMeet treeStep TreeInv (new config fits now) calls := by
  have hinv : StatesMeet treeStep (fun fs => Inv fs.files) (new config fits now) calls := by
    refine statesMeet_of_stepsMeet (fun fs c fs' h hok hstep => ?_) (inv_new config fits now) hcalls
    obtain rfl := Option.some.inj hstep
    exact exec_inv h c.2 hok
  exact hinv.imp fun fs h => h.treeInv

/-- A directory that is moved, with a file in it, into another one. -/
theorem treeInv_of_keepsTree_moved :
    StatesMeet treeStep TreeInv (new .default (fun _ _ => true) 0)
      [(.mkdir ⟨[ascii "a"], by decide⟩ 0, 1), (.create ⟨[ascii "a", ascii "f"], by decide⟩, 2),
        (.mkdir ⟨[ascii "b"], by decide⟩ 0, 3),
        (.rename ⟨[ascii "a"], by decide⟩ ⟨[ascii "b", ascii "c"], by decide⟩, 4),
        (.remove ⟨[ascii "b", ascii "c", ascii "f"], by decide⟩, 5)] := by
  refine treeInv_of_keepsTree .default (fun _ _ => true) 0 _ ?_
  refine fun _ h => ⟨trivial, ?_⟩
  obtain rfl := Option.some.inj h
  refine fun _ h => ⟨trivial, ?_⟩
  obtain rfl := Option.some.inj h
  refine fun _ h => ⟨trivial, ?_⟩
  obtain rfl := Option.some.inj h
  refine fun _ h => ⟨?_, ?_⟩
  · intro oldText newText row hold hnew _ _
    obtain rfl := text_of_pathToStr hold
    obtain rfl := text_of_pathToStr hnew
    refine Or.inl ⟨by decide, ⟨ascii "/b", by decide, ⟨_, rfl, rfl⟩, by decide,
      fun _ => by decide⟩, fun _ key hkey hbelow => ⟨?_, rfl⟩⟩
    revert key
    decide
  · obtain rfl := Option.some.inj h
    exact fun _ _ => ⟨fun heq => absurd (congrArg AbsPath.names heq) (by decide), trivial⟩

/-- A directory that is moved into itself. -/
theorem not_treeInv_moved_into_itself :
    ¬ StatesMeet treeStep TreeInv (new .default (fun _ _ => true) 0)
      [(.mkdir ⟨[ascii "a"], by decide⟩ 0, 1),
        (.rename ⟨[ascii "a"], by decide⟩ ⟨[ascii "a", ascii "b"], by decide⟩, 2)] := by
  intro h
  obtain ⟨-, hparent⟩ := (h.2 _ rfl).2 _ rfl
  obtain ⟨parent, hp, row, hrow, -⟩ := hparent (ascii "/a/b") (by decide) (by decide)
  have ha : parent = ascii "/a" := Option.some.inj (hp.symm.trans (by decide))
  subst ha
  have hstored := AssocMap.contains_iff.2 ⟨row, hrow⟩
  revert hstored
  decide

end SqlFS

end Racfs.SqlFs
