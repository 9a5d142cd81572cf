/-
# Filesystems that behave as a tree of paths

What one may expect of a filesystem behind the cache wrapper (`IsPathTree`): a failed mutation
changes nothing, and a successful one changes the entry of its path and the listing of the
parent; `removeAll` takes the whole subtree out, and `rename` moves it.  A read returns a part
of the file.

`PathTree` is a plain filesystem of this kind: a table of nodes with normalized absolute paths
as keys.
-/
import Racfs.Vfs.CachedFs

namespace Racfs

namespace AbsPath

/-- The path of `r` below `p`. -/
def append (p r : AbsPath) : AbsPath :=
  ⟨p.names ++ r.names, fun n hn => (List.mem_append.1 hn).elim (p.valid n) (r.valid n)⟩

/-- `p` is `q` or a directory above it. -/
def Above (p q : AbsPath) : Prop := p.names <+: q.names

instance (p q : AbsPath) : Decidable (p.Above q) := inferInstanceAs (Decidable (_ <+: _))

/-- What is below `p` goes to the same place below `q`. -/
def rebase (p q r : AbsPath) : AbsPath :=
  if p.Above r then q.append (r.drop p.names.length) else r

lemma above_append (p r : AbsPath) : p.Above (p.append r) := List.prefix_append _ _

lemma Above.refl (p : AbsPath) : p.Above p := List.prefix_rfl

lemma Above.eq_or_dropLast {p q : AbsPath} (h : p.Above q) : p = q ∨ p.Above q.dropLast := by
  obtain ⟨r, hr⟩ := h
  rcases List.eq_nil_or_concat' r with rfl | ⟨r, n, rfl⟩
  · exact Or.inl (ext (by simpa using hr))
  · refine Or.inr ⟨r, ?_⟩
    show p.names ++ r = q.names.dropLast
    rw [← hr, ← List.append_assoc, List.dropLast_concat]

/-- What is above a child of `q` is above `q`, or it is a child of `q` too. -/
lemma not_above_of_dropLast {p q r : AbsPath} (hp : p.dropLast = q) (hr : ¬ r.Above q)
    (hr' : q ≠ r.dropLast) : ¬ r.Above p := by
  intro habove
  rcases habove.eq_or_dropLast with rfl | habove
  · exact hr' hp.symm
  · exact hr (hp ▸ habove)

lemma append_drop {p q : AbsPath} (h : p.Above q) : p.append (q.drop p.names.length) = q := by
  refine ext ?_
  obtain ⟨r, hr⟩ := h
  show p.names ++ q.names.drop p.names.length = q.names
  rw [← hr, List.drop_left]

@[simp] lemma drop_append (p r : AbsPath) : (p.append r).drop p.names.length = r :=
  ext List.drop_left

lemma append_injective {p r r' : AbsPath} (h : p.append r = p.append r') : r = r' :=
  ext (List.append_cancel_left (congrArg names h))

lemma rebase_append (p q r : AbsPath) : rebase p q (p.append r) = q.append r := by
  rw [rebase, if_pos (above_append p r), drop_append]

lemma rebase_of_not_above {p q r : AbsPath} (h : ¬ p.Above r) : rebase p q r = r := if_neg h

lemma above_rebase {p q r : AbsPath} (h : p.Above r) : q.Above (rebase p q r) := by
  rw [rebase, if_pos h]
  exact above_append _ _

end AbsPath

namespace Vfs

/-! ### The laws -/

/-- The part of a file that starts at `offset` and has at most `size` bytes, or all that
follows for a negative size. -/
def window (data : Bytes) (offset size : ℤ) : Bytes :=
  (data.take (if size < 0 then data.length else (offset + size).toNat)).drop offset.toNat

@[simp] lemma window_whole (data : Bytes) : window data 0 (-1) = data := by
  simp [window]

namespace Mutation

/-- The paths of a mutation. -/
def paths {P : Type*} : Mutation P → List P
  | .create path => [path]
  | .write path _ _ _ => [path]
  | .mkdir path _ => [path]
  | .remove path => [path]
  | .removeAll path => [path]
  | .rename oldPath newPath => [oldPath, newPath]
  | .chmod path _ => [path]
  | .truncate path _ => [path]
  | .touch path => [path]

/-- Whether a mutation changes whole subtrees. -/
def deep {P : Type*} : Mutation P → Bool
  | .removeAll _ => true
  | .rename _ _ => true
  | _ => false

/-- The entries that a mutation may change. -/
def Touches (m : Mutation AbsPath) (q : AbsPath) : Prop :=
  ∃ p ∈ m.paths, q = p ∨ m.deep = true ∧ p.Above q

/-- The directories whose listings it may change besides. -/
def Lists (m : Mutation AbsPath) (q : AbsPath) : Prop := ∃ p ∈ m.paths, q = p.dropLast

end Mutation

/-- The filesystem behaves as a tree of paths. -/
structure IsPathTree {S : Type*} (fs : FileSystem S) : Prop where
  /-- A failed mutation changes nothing. -/
  failed : ∀ s now m, (fs.mutate s now m).1.isOk = false → (fs.mutate s now m).2 = s
  /-- A mutation leaves the other entries alone. -/
  frame : ∀ s now (m : Mutation AbsPath) (q : AbsPath), ¬ m.Touches q →
    (∀ offset size, fs.read (fs.mutate s now (m.map AbsPath.toPath)).2 q.toPath offset size =
      fs.read s q.toPath offset size) ∧
    fs.stat (fs.mutate s now (m.map AbsPath.toPath)).2 q.toPath = fs.stat s q.toPath ∧
    (¬ m.Lists q →
      fs.readDir (fs.mutate s now (m.map AbsPath.toPath)).2 q.toPath = fs.readDir s q.toPath)
  /-- `removeAll` takes the whole subtree out. -/
  removed : ∀ s now (p r : AbsPath), (fs.mutate s now (.removeAll p.toPath)).1.isOk = true →
    (fs.stat (fs.mutate s now (.removeAll p.toPath)).2 (p.append r).toPath).isOk = false
  /-- `rename` moves the whole subtree. -/
  moved : ∀ s now (o n r : AbsPath), (fs.mutate s now (.rename o.toPath n.toPath)).1.isOk = true →
    (∀ offset size data,
      fs.read (fs.mutate s now (.rename o.toPath n.toPath)).2 (n.append r).toPath offset size
        = .ok data ↔ fs.read s (o.append r).toPath offset size = .ok data) ∧
    (fs.stat (fs.mutate s now (.rename o.toPath n.toPath)).2 (n.append r).toPath).isOk =
      (fs.stat s (o.append r).toPath).isOk ∧
    (¬ n.Above (o.append r) →
      (fs.stat (fs.mutate s now (.rename o.toPath n.toPath)).2 (o.append r).toPath).isOk = false)
  /-- A read returns a part of the whole file. -/
  readWindow : ∀ s p offset size, fs.read s p offset size =
    (fs.read s p 0 (-1)).map fun data => window data offset.toInt size.toInt
  /-- A vector has at most `isize::MAX` bytes. -/
  readLength : ∀ s p data, fs.read s p 0 (-1) = .ok data → data.length < 2 ^ 63

/-! ### A plain filesystem -/

/-- A file with its bytes, or a directory. -/
structure Node where
  data : Option Bytes
  metadata : FileMetadata
  /-- The bytes fit in a vector. -/
  fits : ∀ bs, data = some bs → bs.length < 2 ^ 63

/-- The nodes of a filesystem, by their paths. -/
abbrev PathTree := AssocMap AbsPath Node

namespace PathTree

/-- A filesystem with the root directory only. -/
def new (now : DateTime) : PathTree :=
  (∅ : PathTree).insert AbsPath.root ⟨none, .directory AbsPath.root.toPath now, by simp⟩

/-- Read a part of a file. -/
def read (t : PathTree) (path : PathBuf) (offset size : Int64) : Outcome Bytes :=
  match t.get? path.lexical with
  | none => .err (.NotFound path)
  | some node =>
    match node.data with
    | none => .err (.IsDirectory path)
    | some data => .ok (window data offset.toInt size.toInt)

/-- The metadata of a path. -/
def stat (t : PathTree) (path : PathBuf) : Outcome FileMetadata :=
  match t.get? path.lexical with
  | none => .err (.NotFound path)
  | some node => .ok { node.metadata with path := path }

/-- The entries of a directory. -/
def children (t : PathTree) (p : AbsPath) : List (AbsPath × Node) :=
  t.entries.filter fun e => e.1 ≠ AbsPath.root ∧ e.1.dropLast = p

/-- The listing of a directory. -/
def readDir (t : PathTree) (path : PathBuf) : Outcome (List FileMetadata) :=
  match t.get? path.lexical with
  | none => .err (.NotFound path)
  | some node =>
    match node.data with
    | none => .ok ((t.children path.lexical).map fun e => { e.2.metadata with path := e.1.toPath })
    | some _ => .err (.NotADirectory path)

/-- Whether the parent of a path is a directory. -/
def hasParent (t : PathTree) (p : AbsPath) : Bool :=
  ((t.get? p.dropLast).map fun node => node.data.isNone) == some true

/-- A new node where there is none. -/
def addNode (t : PathTree) (p : AbsPath) (node : Node) : Outcome (Reply × PathTree) :=
  if t.contains p then .err (.AlreadyExists p.toPath)
  else if t.hasParent p then .ok (.unit, t.insert p node)
  else .err (.NotFound p.dropLast.toPath)

/-- Change the bytes of a file. -/
def editData (t : PathTree) (now : DateTime) (p : AbsPath) (f : Bytes → Bytes) (reply : Reply) :
    Outcome (Reply × PathTree) :=
  match t.get? p with
  | none => .err (.NotFound p.toPath)
  | some node =>
    match node.data with
    | none => .err (.IsDirectory p.toPath)
    | some data =>
      if h : (f data).length < 2 ^ 63 then
        .ok (reply, t.insert p ⟨some (f data),
          { node.metadata with modified := some now, size := (f data).length.toUInt64 },
          fun _ hbs => Option.some.inj hbs ▸ h⟩)
      else .err .StorageFull

/-- Change the metadata of a node. -/
def editMetadata (t : PathTree) (p : AbsPath) (f : FileMetadata → FileMetadata) :
    Outcome (Reply × PathTree) :=
  match t.get? p with
  | none => .err (.NotFound p.toPath)
  | some node => .ok (.unit, t.insert p { node with metadata := f node.metadata })

/-- Zeros up to a length. -/
def padTo (n : ℕ) (data : Bytes) : Bytes := data ++ List.replicate (n - data.length) 0

/-- Write bytes at an offset. -/
def splice (new : Bytes) (offset : ℕ) (data : Bytes) : Bytes :=
  (padTo offset data).take offset ++ new ++ data.drop (offset + new.length)

/-- Take a node out. -/
def removeNode (t : PathTree) (p : AbsPath) : Outcome (Reply × PathTree) :=
  if p = AbsPath.root then .err (.PermissionDenied p.toPath)
  else if !t.contains p then .err (.NotFound p.toPath)
  else if !(t.children p).isEmpty then .err .DirectoryNotEmpty
  else .ok (.unit, t.erase p)

/-- Take a subtree out. -/
def removeSubtree (t : PathTree) (p : AbsPath) : Outcome (Reply × PathTree) :=
  if p = AbsPath.root then .err (.PermissionDenied p.toPath)
  else if !t.contains p then .err (.NotFound p.toPath)
  else .ok (.unit, t.retain fun q _ => !decide (p.Above q))

/-- The entries after a subtree has been moved from `o` to `n`, where there was nothing. -/
def moveEntries (t : PathTree) (o n : AbsPath) : List (AbsPath × Node) :=
  (t.entries.filter fun e => o.Above e.1 ∨ ¬ n.Above e.1).map fun e => (o.rebase n e.1, e.2)

lemma rebase_inj {o n p q : AbsPath} (hp : o.Above p ∨ ¬ n.Above p) (hq : o.Above q ∨ ¬ n.Above q)
    (h : o.rebase n p = o.rebase n q) : p = q := by
  by_cases hop : o.Above p
  · obtain ⟨r, rfl⟩ : ∃ r, o.append r = p := ⟨_, AbsPath.append_drop hop⟩
    rw [AbsPath.rebase_append] at h
    by_cases hoq : o.Above q
    · obtain ⟨r', rfl⟩ : ∃ r', o.append r' = q := ⟨_, AbsPath.append_drop hoq⟩
      rw [AbsPath.rebase_append] at h
      rw [AbsPath.append_injective h]
    · rw [AbsPath.rebase_of_not_above hoq] at h
      exact absurd (h ▸ AbsPath.above_append n r) (hq.resolve_left hoq)
  · rw [AbsPath.rebase_of_not_above hop] at h
    by_cases hoq : o.Above q
    · obtain ⟨r, rfl⟩ : ∃ r, o.append r = q := ⟨_, AbsPath.append_drop hoq⟩
      rw [AbsPath.rebase_append] at h
      exact absurd (h ▸ AbsPath.above_append n r) (hp.resolve_left hop)
    · rwa [AbsPath.rebase_of_not_above hoq] at h

/-- Move a subtree. -/
def move (t : PathTree) (o n : AbsPath) : PathTree where
  entries := t.moveEntries o n
  distinct := by
    refine List.pairwise_map.2 ?_
    refine (List.pairwise_filter.2 (t.distinct.imp ?_))
    intro a b hab ha hb
    rw [beq_eq_false_iff_ne] at hab ⊢
    exact fun h => hab (rebase_inj (by simpa using ha) (by simpa using hb) h)

/-- Move a subtree to a free place. -/
def renameNode (t : PathTree) (o n : AbsPath) : Outcome (Reply × PathTree) :=
  if !t.contains o then .err (.NotFound o.toPath)
  else if o.Above n then .err (.InvalidInput "Cannot move a directory below itself")
  else if t.entries.any fun e => n.Above e.1 then .err (.AlreadyExists n.toPath)
  else if t.hasParent n then .ok (.unit, t.move o n)
  else .err (.NotFound n.dropLast.toPath)

/-- What a mutation does with the nodes. -/
def apply (t : PathTree) (now : DateTime) : Mutation AbsPath → Outcome (Reply × PathTree)
  | .create p => t.addNode p ⟨some [], .file p.toPath 0 now, by simp⟩
  | .write p data offset _ =>
    if offset < 0 then .err (.InvalidInput "Negative offset")
    else t.editData now p (splice data offset.toInt.toNat) (.written data.length.toUInt64)
  | .mkdir p perm =>
    t.addNode p ⟨none, (FileMetadata.directory p.toPath now).setPermissions perm, by simp⟩
  | .remove p => t.removeNode p
  | .removeAll p => t.removeSubtree p
  | .rename o n => t.renameNode o n
  | .chmod p mode => t.editMetadata p fun m => m.setPermissions mode
  | .truncate p size =>
    t.editData now p (fun data => (padTo size.toNat data).take size.toNat) .unit
  | .touch p => t.editMetadata p fun m => { m with modified := some now }

/-- The result of a mutation and the nodes after it. -/
def mutate (t : PathTree) (now : DateTime) (m : Mutation PathBuf) : Outcome Reply × PathTree :=
  match t.apply now (m.map PathBuf.lexical) with
  | .ok (reply, t') => (.ok reply, t')
  | .err e => (.err e, t)
  | .panic => (.panic, t)

/-- The filesystem. -/
def fileSystem : FileSystem PathTree := ⟨read, stat, readDir, mutate⟩

/-! ### It is a tree of paths -/

lemma addNode_eq_ok {t t' : PathTree} {p : AbsPath} {node : Node} {reply : Reply}
    (h : t.addNode p node = .ok (reply, t')) : t' = t.insert p node := by
  rw [addNode] at h
  split_ifs at h
  · cases h
    rfl

lemma editData_eq_ok {t t' : PathTree} {now : DateTime} {p : AbsPath} {f : Bytes → Bytes}
    {a reply : Reply} (h : t.editData now p f a = .ok (reply, t')) :
    ∃ node, t' = t.insert p node := by
  rw [editData] at h
  split at h
  · cases h
  · split at h
    · cases h
    · split_ifs at h
      cases h
      exact ⟨_, rfl⟩

lemma editMetadata_eq_ok {t t' : PathTree} {p : AbsPath} {f : FileMetadata → FileMetadata}
    {reply : Reply} (h : t.editMetadata p f = .ok (reply, t')) : ∃ node, t' = t.insert p node := by
  rw [editMetadata] at h
  split at h
  · cases h
  · cases h
    exact ⟨_, rfl⟩

lemma removeNode_eq_ok {t t' : PathTree} {p : AbsPath} {reply : Reply}
    (h : t.removeNode p = .ok (reply, t')) : t' = t.erase p := by
  rw [removeNode] at h
  split_ifs at h
  cases h
  rfl

lemma removeSubtree_eq_ok {t t' : PathTree} {p : AbsPath} {reply : Reply}
    (h : t.removeSubtree p = .ok (reply, t')) :
    t' = t.retain fun q _ => !decide (p.Above q) := by
  rw [removeSubtree] at h
  split_ifs at h
  cases h
  rfl

lemma renameNode_eq_ok {t t' : PathTree} {o n : AbsPath} {reply : Reply}
    (h : t.renameNode o n = .ok (reply, t')) :
    t' = t.move o n ∧ ¬ o.Above n ∧ ∀ e ∈ t.entries, ¬ n.Above e.1 := by
  rw [renameNode] at h
  split_ifs at h with _ hbelow hfree
  cases h
  exact ⟨rfl, hbelow, by simpa using hfree⟩

/-- What a mutation can do. -/
lemma apply_cases {t t' : PathTree} {now : DateTime} {m : Mutation AbsPath} {reply : Reply}
    (h : t.apply now m = .ok (reply, t')) :
    (∃ p ∈ m.paths, (∃ node, t' = t.insert p node) ∨ t' = t.erase p) ∨
    (∃ p, m = .removeAll p ∧ t' = t.retain fun q _ => !decide (p.Above q)) ∨
    (∃ o n, m = .rename o n ∧ t' = t.move o n ∧ ∀ e ∈ t.entries, ¬ n.Above e.1) := by
  cases m with
  | create p => exact Or.inl ⟨p, by simp [Mutation.paths], Or.inl ⟨_, addNode_eq_ok h⟩⟩
  | write p data offset flags =>
    simp only [apply] at h
    split_ifs at h
    exact Or.inl ⟨p, by simp [Mutation.paths], Or.inl (editData_eq_ok h)⟩
  | mkdir p perm => exact Or.inl ⟨p, by simp [Mutation.paths], Or.inl ⟨_, addNode_eq_ok h⟩⟩
  | remove p => exact Or.inl ⟨p, by simp [Mutation.paths], Or.inr (removeNode_eq_ok h)⟩
  | removeAll p => exact Or.inr (Or.inl ⟨p, rfl, removeSubtree_eq_ok h⟩)
  | rename o n =>
    obtain ⟨rfl, -, hfree⟩ := renameNode_eq_ok h
    exact Or.inr (Or.inr ⟨o, n, rfl, rfl, hfree⟩)
  | chmod p mode =>
    rw [apply] at h
    exact Or.inl ⟨p, by simp [Mutation.paths], Or.inl (editMetadata_eq_ok h)⟩
  | truncate p size => exact Or.inl ⟨p, by simp [Mutation.paths], Or.inl (editData_eq_ok h)⟩
  | touch p =>
    rw [apply] at h
    exact Or.inl ⟨p, by simp [Mutation.paths], Or.inl (editMetadata_eq_ok h)⟩

lemma children_insert {t : PathTree} {p q : AbsPath} (node : Node) (h : q ≠ p.dropLast) :
    children (t.insert p node) q = t.children q := by
  show (AssocMap.upsert p node t.entries).filter _ = t.entries.filter _
  generalize t.entries = l
  induction l with
  | nil => simp [AssocMap.upsert, Ne.symm h]
  | cons e l ih =>
    rw [AssocMap.upsert]
    split_ifs with hk
    · rw [beq_iff_eq] at hk
      rw [List.filter_cons_of_neg (by simp [hk, Ne.symm h]),
        List.filter_cons_of_neg (by simp [hk, Ne.symm h])]
    · rw [List.filter_cons, List.filter_cons, ih]

lemma children_retain {t : PathTree} {keep : AbsPath → Node → Bool} {q : AbsPath}
    (h : ∀ p node, p.dropLast = q → p ≠ AbsPath.root → keep p node = true) :
    children (t.retain keep) q = t.children q := by
  show (t.entries.filter _).filter _ = t.entries.filter _
  rw [List.filter_filter]
  refine List.filter_congr fun e _ => ?_
  by_cases hq : e.1 ≠ AbsPath.root ∧ e.1.dropLast = q
  · simp [hq, h e.1 e.2 hq.2 hq.1]
  · simp [hq]

/-- Only what is below `o` or `n` moves. -/
lemma children_move {t : PathTree} {o n q : AbsPath} (ho : ¬ o.Above q) (hn : ¬ n.Above q)
    (ho' : q ≠ o.dropLast) (hn' : q ≠ n.dropLast) : (t.move o n).children q = t.children q := by
  show ((t.entries.filter _).map _).filter _ = t.entries.filter _
  rw [List.filter_map, List.filter_filter]
  -- the moved entries are no children of `q`, the others stay as they are
  have hfilter : ∀ e ∈ t.entries,
      (decide (o.rebase n e.1 ≠ AbsPath.root ∧ (o.rebase n e.1).dropLast = q) &&
        decide (o.Above e.1 ∨ ¬ n.Above e.1)) =
      decide (e.1 ≠ AbsPath.root ∧ e.1.dropLast = q) := by
    intro e he
    by_cases hoe : o.Above e.1
    · have h1 : ¬ e.1.dropLast = q := fun hp => AbsPath.not_above_of_dropLast hp ho ho' hoe
      have h2 : ¬ (o.rebase n e.1).dropLast = q := fun hp =>
        AbsPath.not_above_of_dropLast hp hn hn' (AbsPath.above_rebase hoe)
      simp [h1, h2]
    · rw [AbsPath.rebase_of_not_above hoe]
      by_cases hp : e.1.dropLast = q
      · simp [hp, AbsPath.not_above_of_dropLast hp hn hn']
      · simp [hp]
  refine (congrArg (List.map _) (List.filter_congr hfilter)).trans ?_
  refine (List.map_congr_left fun e he => ?_).trans (List.map_id _)
  have hp : e.1.dropLast = q := by
    exact (of_decide_eq_true (List.mem_filter.1 he).2).2
  show (o.rebase n e.1, e.2) = e
  rw [AbsPath.rebase_of_not_above (AbsPath.not_above_of_dropLast hp ho ho')]

/-- A node that is kept is found at its new place. -/
lemma get?_move_rebase (t : PathTree) {o n q : AbsPath} (hq : o.Above q ∨ ¬ n.Above q) :
    (t.move o n).get? (o.rebase n q) = t.get? q := by
  show AssocMap.lookup _ (t.moveEntries o n) = AssocMap.lookup _ t.entries
  rw [moveEntries, AssocMap.lookup_map_key (k := q), AssocMap.lookup_filter _ t.distinct]
  · cases AssocMap.lookup q t.entries with
    | none => rfl
    | some v => simp [Option.filter, hq]
  · intro a v ha
    rw [beq_iff_eq.1 ha]
  · intro e he
    have hkept : o.Above e.1 ∨ ¬ n.Above e.1 := by simpa using (List.mem_filter.1 he).2
    rw [Bool.eq_iff_iff, beq_iff_eq, beq_iff_eq]
    constructor
    · intro h
      exact rebase_inj hkept hq h
    · rintro rfl
      rfl

lemma get?_move_append (t : PathTree) (o n r : AbsPath) :
    (t.move o n).get? (n.append r) = t.get? (o.append r) := by
  rw [← AbsPath.rebase_append o n r]
  exact get?_move_rebase t (Or.inl (AbsPath.above_append o r))

lemma get?_move_of_not_above {t : PathTree} {o n q : AbsPath} (hn : ¬ n.Above q) :
    (t.move o n).get? q = if o.Above q then none else t.get? q := by
  split_ifs with ho
  · show AssocMap.lookup _ (t.moveEntries o n) = _
    rw [AssocMap.lookup_eq_none_iff]
    intro e he
    obtain ⟨d, hd, rfl⟩ := List.mem_map.1 he
    rw [beq_eq_false_iff_ne]
    rintro rfl
    -- an entry is below `n` when it has moved, and else not below `o`
    by_cases hod : o.Above d.1
    · exact hn (AbsPath.above_rebase hod)
    · rw [AbsPath.rebase_of_not_above hod] at ho
      exact hod ho
  · have hq := get?_move_rebase t (o := o) (Or.inr hn)
    rwa [AbsPath.rebase_of_not_above ho] at hq

/-- A mutation leaves the other nodes alone. -/
lemma apply_frame {t t' : PathTree} {now : DateTime} {m : Mutation AbsPath} {reply : Reply}
    (h : t.apply now m = .ok (reply, t')) {q : AbsPath} (hq : ¬ m.Touches q) :
    t'.get? q = t.get? q ∧ (¬ m.Lists q → t'.children q = t.children q) := by
  rcases apply_cases h with ⟨p, hp, hnode⟩ | ⟨p, rfl, rfl⟩ | ⟨o, n, rfl, rfl, -⟩
  · have hne : q ≠ p := fun e => hq ⟨p, hp, Or.inl e⟩
    have hlist : ¬ m.Lists q → q ≠ p.dropLast := fun hl e => hl ⟨p, hp, e⟩
    rcases hnode with ⟨node, rfl⟩ | rfl
    · refine ⟨?_, fun hl => children_insert node (hlist hl)⟩
      rw [AssocMap.get?_insert, if_neg (by simpa using Ne.symm hne)]
    · refine ⟨?_, fun hl => children_retain fun p' _ hp' _ => ?_⟩
      · rw [AssocMap.get?_erase, if_neg (by simpa using Ne.symm hne)]
      · have : p' ≠ p := fun e => hlist hl (by rw [← hp', e])
        simpa using this
  · have hbelow : ¬ p.Above q := fun e => hq ⟨p, by simp [Mutation.paths], Or.inr ⟨rfl, e⟩⟩
    refine ⟨?_, fun hl => children_retain fun p' _ hp' _ => ?_⟩
    · rw [AssocMap.get?_retain _ (by simp +contextual)]
      cases hv : t.get? q with
      | none => rfl
      | some v => simp [Option.filter, hbelow]
    · have hl' : q ≠ p.dropLast := fun e => hl ⟨p, by simp [Mutation.paths], e⟩
      simpa using AbsPath.not_above_of_dropLast hp' hbelow hl'
  · have ho : ¬ o.Above q := fun e => hq ⟨o, by simp [Mutation.paths], Or.inr ⟨rfl, e⟩⟩
    have hn : ¬ n.Above q := fun e => hq ⟨n, by simp [Mutation.paths], Or.inr ⟨rfl, e⟩⟩
    refine ⟨by rw [get?_move_of_not_above hn, if_neg ho], fun hl => ?_⟩
    refine children_move ho hn (fun e => hl ⟨o, ?_, e⟩) (fun e => hl ⟨n, ?_, e⟩)
    all_goals simp [Mutation.paths]

/-- The nodes after a mutation. -/
lemma mutate_cases (t : PathTree) (now : DateTime) (m : Mutation PathBuf) :
    ((mutate t now m).1.isOk = false ∧ (mutate t now m).2 = t) ∨
    (mutate t now m).1.isOk = true ∧
      ∃ reply, t.apply now (m.map PathBuf.lexical) = .ok (reply, (mutate t now m).2) := by
  rw [mutate]
  cases h : t.apply now (m.map PathBuf.lexical) with
  | ok r => exact Or.inr ⟨rfl, r.1, rfl⟩
  | err e => exact Or.inl ⟨rfl, rfl⟩
  | panic => exact Or.inl ⟨rfl, rfl⟩

lemma apply_of_isOk {t : PathTree} {now : DateTime} {m : Mutation PathBuf}
    (h : (mutate t now m).1.isOk = true) :
    ∃ reply, t.apply now (m.map PathBuf.lexical) = .ok (reply, (mutate t now m).2) := by
  rcases mutate_cases t now m with ⟨hfail, -⟩ | ⟨-, hok⟩
  · simp [h] at hfail
  · exact hok

lemma map_map_lexical (m : Mutation AbsPath) :
    (m.map AbsPath.toPath).map PathBuf.lexical = m := by
  cases m <;> simp [Mutation.map]

lemma isOk_stat (t : PathTree) (p : AbsPath) : (stat t p.toPath).isOk = t.contains p := by
  unfold stat AssocMap.contains
  rw [PathBuf.lexical_toPath]
  cases t.get? p <;> rfl

lemma read_eq_ok_iff {t : PathTree} {p : AbsPath} {offset size : Int64} {data : Bytes} :
    read t p.toPath offset size = .ok data ↔
      ∃ node bs, t.get? p = some node ∧ node.data = some bs ∧
        window bs offset.toInt size.toInt = data := by
  rw [read, PathBuf.lexical_toPath]
  cases t.get? p with
  | none => simp
  | some node => cases hd : node.data <;> simp [hd]

theorem isPathTree : IsPathTree fileSystem where
  failed := by
    intro t now m h
    rcases mutate_cases t now m with ⟨-, hsame⟩ | ⟨hok, -⟩
    · exact hsame
    · exact absurd (hok.symm.trans h) (by simp)
  frame := by
    intro t now m q hq
    have hnodes : (mutate t now (m.map AbsPath.toPath)).2.get? q = t.get? q ∧ (¬ m.Lists q →
        (mutate t now (m.map AbsPath.toPath)).2.children q = t.children q) := by
      rcases mutate_cases t now (m.map AbsPath.toPath) with ⟨-, hsame⟩ | ⟨-, reply, happly⟩
      · rw [hsame]
        exact ⟨rfl, fun _ => rfl⟩
      · rw [map_map_lexical] at happly
        exact apply_frame happly hq
    refine ⟨fun offset size => ?_, ?_, fun hl => ?_⟩
    · simp only [fileSystem, read, PathBuf.lexical_toPath, hnodes.1]
    · simp only [fileSystem, stat, PathBuf.lexical_toPath, hnodes.1]
    · simp only [fileSystem, readDir, PathBuf.lexical_toPath, hnodes.1, hnodes.2 hl]
  removed := by
    intro t now p r h
    obtain ⟨reply, happly⟩ := apply_of_isOk h
    simp only [Mutation.map, PathBuf.lexical_toPath] at happly
    have ht := removeSubtree_eq_ok happly
    change (stat _ _).isOk = false
    rw [isOk_stat, AssocMap.contains_eq_false_iff]
    change AssocMap.get? (mutate t now (.removeAll p.toPath)).2 _ = none
    rw [ht, AssocMap.get?_retain _ (by simp +contextual)]
    cases t.get? (p.append r) with
    | none => rfl
    | some v => simp [Option.filter, AbsPath.above_append]
  moved := by
    intro t now o n r h
    obtain ⟨reply, happly⟩ := apply_of_isOk h
    simp only [Mutation.map, PathBuf.lexical_toPath] at happly
    obtain ⟨ht, -, -⟩ := renameNode_eq_ok happly
    have hmoved := get?_move_append t o n r
    rw [← ht] at hmoved
    refine ⟨fun offset size data => ?_, ?_, fun hn => ?_⟩
    · change read _ _ _ _ = _ ↔ read _ _ _ _ = _
      rw [read_eq_ok_iff, read_eq_ok_iff]
      change (∃ node bs, AssocMap.get? (mutate t now _).2 _ = _ ∧ _) ↔ _
      rw [hmoved]
    · change (stat _ _).isOk = (stat _ _).isOk
      rw [isOk_stat, isOk_stat, AssocMap.contains, AssocMap.contains]
      exact congrArg _ hmoved
    · change (stat _ _).isOk = false
      rw [isOk_stat, AssocMap.contains_eq_false_iff]
      change AssocMap.get? (mutate t now (.rename o.toPath n.toPath)).2 _ = none
      rw [ht, get?_move_of_not_above hn, if_pos (AbsPath.above_append o r)]
  readWindow := by
    intro t p offset size
    simp only [fileSystem, read]
    cases t.get? p.lexical with
    | none => rfl
    | some node => cases hd : node.data <;> simp [hd]
  readLength := by
    intro t p data h
    simp only [fileSystem, read] at h
    split at h
    · cases h
    · next node _ =>
      split at h
      · cases h
      · next bs hbs =>
        obtain rfl : bs = data := by simpa using h
        exact node.fits bs hbs

end PathTree
end Vfs
end Racfs
