/-
# What a listing shows

A listing should have one entry for each path whose parent is the directory, and no other
(`ListsChildren`).  `readDir` looks for the stored paths whose text continues the text of the
directory, takes the directory off where the components allow it, and keeps what consists of
one name.  Two things can go wrong: a child whose text is not a continuation is missed
(`Missed`), and a path beside the directory whose text happens to be one is taken for a child
(`Stray`).  Nothing else can (`readDir_lists_iff`).  With paths in their normal spelling only
the second is possible, and only among the names in the root (`lists_iff_of_wellKeyed`); such are
the tables that runs over these paths build (`lists_iff_of_reachable`).
-/
import Racfs.Lib.PathJoin
import Racfs.MemFs.Tree

namespace Racfs.MemFs

open MemFS

/-! ### The entry of one path -/

/-- The text with which the stored paths are compared. -/
def dirText (d : PathBuf) : Bytes := if d.toStringLossy = [slash] then [] else d.toStringLossy

/-- The text of `p` continues that of the directory. -/
def TextBelow (d p : PathBuf) : Prop :=
  dirText d <+: p.toStringLossy ∧ p.toStringLossy ≠ dirText d

instance (d p : PathBuf) : Decidable (TextBelow d p) := by unfold TextBelow; infer_instance

/-- The path consists of one name, perhaps after the root. -/
def OneName (p : PathBuf) : Prop :=
  p.bytes ≠ [slash] ∧ (p.components.length = 1 ∨
    p.components.length = 2 ∧ p.components.head? = some .rootDir)

instance (p : PathBuf) : Decidable (OneName p) := by unfold OneName; infer_instance

/-- What is left of a stored path. -/
def relative (pre : Bytes) (p : PathBuf) : PathBuf :=
  if pre = [] then p else (p.stripPrefix ⟨pre⟩).getD p

/-- What a listing has for a stored path, if anything. -/
def listEntry (d p : PathBuf) (e : FileEntry) : Option FileMetadata :=
  if TextBelow d p then childEntry (dirText d) p e else none

lemma readDir_eq (fs : MemFS) (d : PathBuf) :
    fs.readDir d = fs.files.entries.filterMap fun x => listEntry d x.1 x.2 := by
  have htext : ∀ x : PathBuf × FileEntry,
      ((dirText d).isPrefixOf x.1.toStringLossy && x.1.toStringLossy != dirText d) =
        decide (TextBelow d x.1) := by
    intro x
    rw [Bool.eq_iff_iff, Bool.and_eq_true, List.isPrefixOf_iff_prefix, bne_iff_ne,
      decide_eq_true_eq, TextBelow]
  change ((fs.files.entries.filter fun x : PathBuf × FileEntry =>
    (dirText d).isPrefixOf x.1.toStringLossy && x.1.toStringLossy != dirText d).filterMap
      fun x => childEntry (dirText d) x.1 x.2) = _
  rw [List.filterMap_filter]
  congr 1
  funext x
  simp only [htext, decide_eq_true_eq]
  rfl

/-- The path that a listing shows. -/
def shownPath (q : PathBuf) : PathBuf :=
  if q.toStringLossy.head? = some slash then q else rootPath.push q

lemma childEntry_eq (pre : Bytes) (p : PathBuf) (e : FileEntry) :
    childEntry pre p e = if OneName (relative pre p) then
      some { e.metadata with path := shownPath (relative pre p) } else none := by
  change (if (relative pre p).bytes = [slash] then none
    else if (relative pre p).components.length = 1 ∨ (relative pre p).components.length = 2 ∧
      (relative pre p).components.head? = some .rootDir then
        some { e.metadata with path := shownPath (relative pre p) } else none) = _
  by_cases hroot : (relative pre p).bytes = [slash]
  · rw [if_pos hroot, if_neg fun h : OneName _ => h.1 hroot]
  · rw [if_neg hroot]
    simp only [OneName, hroot, ne_eq, not_false_eq_true, true_and]

/-! ### Children -/

/-- The parent of `p` is `d`. -/
def ChildOf (d p : PathBuf) : Prop := ∃ q, p.parent = some q ∧ (q == d) = true

instance (d p : PathBuf) : Decidable (ChildOf d p) :=
  decidable_of_iff (p.parent.any (· == d) = true) (by simp [ChildOf, Option.any_eq_true])

lemma childOf_iff {d p : PathBuf} :
    ChildOf d p ↔ ∃ c, c ≠ .rootDir ∧ p.components = d.components ++ [c] :=
  PathBuf.exists_parent_iff

/-- Below a path with components only the children have one name left. -/
lemma oneName_relative_iff {pre : Bytes} (hpre : pre ≠ []) {p : PathBuf}
    (h : p.startsWith ⟨pre⟩ = true) : OneName (relative pre p) ↔ ChildOf ⟨pre⟩ p := by
  obtain ⟨rest, hrest⟩ := PathBuf.startsWith_iff.1 h
  obtain ⟨c₀, cs₀, hcs₀⟩ := List.exists_cons_of_ne_nil
    (mt PathBuf.components_eq_nil_iff.1 (a := (PathBuf.mk pre).components = []) hpre)
  have hsteps : ∀ c ∈ rest, c = .parentDir ∨ ∃ n, c = .normal n ∧ IsName n := by
    intro c hc
    refine PathBuf.isName_of_mem_tail (p := p) ?_
    rw [← hrest, hcs₀]
    exact List.mem_append_right _ hc
  have hrel : relative pre p = PathBuf.ofComponents rest := by
    rw [relative, if_neg hpre, PathBuf.stripPrefix, if_pos h, Option.getD_some, ← hrest,
      List.drop_left]
  obtain ⟨hcomps, hroot⟩ := PathBuf.components_ofComponents hsteps
  have hhead : (PathBuf.ofComponents rest).components.head? ≠ some .rootDir := by
    rw [ne_eq, PathBuf.head?_components, hroot]
    exact Bool.false_ne_true
  have hbytes : (PathBuf.ofComponents rest).bytes ≠ [slash] := by
    intro heq
    rw [PathBuf.hasRoot, heq] at hroot
    cases hroot
  rw [hrel, OneName, hcomps, childOf_iff, ← hrest]
  rw [hcomps] at hhead
  constructor
  · rintro ⟨-, hone | ⟨-, htwo⟩⟩
    · obtain ⟨c, rfl⟩ := List.length_eq_one_iff.1 hone
      exact ⟨c, fun hc => hhead (by rw [hc]; rfl), rfl⟩
    · exact absurd htwo hhead
  · rintro ⟨c, -, hc⟩
    obtain rfl := List.append_cancel_left hc
    exact ⟨hbytes, Or.inl rfl⟩

/-- Elsewhere, and below a directory without components, the path is left as it is. -/
lemma relative_of_not_startsWith {pre : Bytes} {p : PathBuf}
    (h : pre = [] ∨ p.startsWith ⟨pre⟩ = false) : relative pre p = p := by
  rw [relative]
  split_ifs with hpre
  · rfl
  · rw [PathBuf.stripPrefix, h.resolve_left hpre, if_neg Bool.false_ne_true, Option.getD_none]

lemma dirText_of_isText {d : PathBuf} (hd : d.IsText) (hne : dirText d ≠ []) :
    PathBuf.mk (dirText d) = d := by
  rw [dirText] at hne ⊢
  split_ifs at hne ⊢ with hroot
  · exact absurd rfl hne
  · exact hd.mk_toStringLossy

/-- The listing of a directory that is a text shows a child whose text continues that of the
directory. -/
lemma oneName_of_isText {d p : PathBuf} (hd : d.IsText) (hchild : ChildOf d p) :
    OneName (relative (dirText d) p) := by
  by_cases hne : dirText d = []
  · obtain ⟨c, hc, hcomps⟩ := childOf_iff.1 hchild
    rw [relative_of_not_startsWith (Or.inl hne), OneName]
    have hbytes : p.bytes = [slash] → p.components = [.rootDir] := by
      intro hp
      rw [show p = ⟨[slash]⟩ from congrArg PathBuf.mk hp]
      decide
    -- the directory is the root or the empty path
    have hdcomps : d.components = [] ∨ d.components = [.rootDir] := by
      have hbytes : d.bytes = [] ∨ d.bytes = [slash] := by
        rw [← show d.toStringLossy = d.bytes from hd]
        rw [dirText] at hne
        split_ifs at hne with hroot
        · exact Or.inr hroot
        · exact Or.inl hne
      rcases hbytes with hnil | hroot
      · exact Or.inl (PathBuf.components_eq_nil_iff.2 hnil)
      · rw [show d = ⟨[slash]⟩ from congrArg PathBuf.mk hroot]
        exact Or.inr (by decide)
    rcases hdcomps with hnil | hroot
    · rw [hnil, List.nil_append] at hcomps
      refine ⟨fun hp => hc ?_, Or.inl (by rw [hcomps]; rfl)⟩
      rw [hbytes hp] at hcomps
      exact (List.singleton_inj.1 hcomps).symm
    · rw [hroot] at hcomps
      refine ⟨fun hp => ?_, Or.inr (by rw [hcomps]; exact ⟨rfl, rfl⟩)⟩
      rw [hbytes hp] at hcomps
      cases hcomps
  · have heq := dirText_of_isText hd hne
    obtain ⟨c, -, hcomps⟩ := childOf_iff.1 hchild
    have hstarts : p.startsWith ⟨dirText d⟩ = true := by
      rw [heq]
      exact PathBuf.startsWith_iff.2 ⟨[c], hcomps.symm⟩
    rw [oneName_relative_iff hne hstarts, heq]
    exact hchild

/-- The children of a directory that is not a text are not below what its text spells, and they
have more than one name. -/
lemma not_oneName_of_not_isText {d p : PathBuf} (hd : ¬ d.IsText) (hchild : ChildOf d p) :
    ¬ OneName (relative (dirText d) p) := by
  obtain ⟨c, -, hcomps⟩ := childOf_iff.1 hchild
  have hroot : d.toStringLossy ≠ [slash] := by
    intro heq
    exact hd (heq.trans (eq_of_fromUtf8Lossy_eq (by simp [IsAscii, slash_lt]) heq).symm)
  have hnot : p.startsWith ⟨dirText d⟩ = false := by
    rw [← Bool.not_eq_true, PathBuf.startsWith_iff, dirText, if_neg hroot,
      PathBuf.components_toStringLossy, hcomps]
    intro hpre
    have hpre' := List.prefix_of_prefix_length_le hpre (List.prefix_append _ [c])
      (by rw [List.length_map])
    exact hd (PathBuf.isText_of_components (hpre'.eq_of_length (List.length_map _)))
  rw [relative_of_not_startsWith (Or.inr hnot), OneName, hcomps]
  rintro ⟨-, hone | ⟨htwo, hhead⟩⟩
  · refine hd (PathBuf.isText_of_components ?_)
    have hnil : d.components = [] := by
      rw [List.length_append, List.length_singleton] at hone
      exact List.length_eq_zero_iff.1 (by omega)
    rw [hnil]
    rfl
  · have hlen : d.components.length = 1 := by
      rw [List.length_append, List.length_singleton] at htwo
      omega
    obtain ⟨c', hc'⟩ := List.length_eq_one_iff.1 hlen
    obtain rfl : c' = .rootDir := by simpa [hc'] using hhead
    exact hd (PathBuf.isText_of_components (by rw [hc']; rfl))

/-! ### The whole listing -/

/-- The child `p` of the directory is not found. -/
def Missed (d p : PathBuf) : Prop := ChildOf d p ∧ ¬ (d.IsText ∧ TextBelow d p)

/-- What is stored at `p`, which is not a child of the directory, has a text that continues the
directory's.  It is taken for a child if it is a child of the path that this text spells, or if
it is not below that path and consists of one name. -/
def Stray (d p : PathBuf) : Prop :=
  ¬ ChildOf d p ∧ TextBelow d p ∧
    (dirText d ≠ [] ∧ ChildOf ⟨dirText d⟩ p ∨
      OneName p ∧ (dirText d = [] ∨ p.startsWith ⟨dirText d⟩ = false))

/-- The listing has one entry for each child, with its metadata, and none for any other path. -/
structure ListsChildren (fs : MemFS) (d : PathBuf) : Prop where
  listing : fs.readDir d = fs.files.entries.filterMap fun x => listEntry d x.1 x.2
  child : ∀ x ∈ fs.files.entries, ChildOf d x.1 →
    ∃ q, listEntry d x.1 x.2 = some { x.2.metadata with path := q }
  other : ∀ x ∈ fs.files.entries, ¬ ChildOf d x.1 → listEntry d x.1 x.2 = none

lemma listEntry_child_iff {d p : PathBuf} (hchild : ChildOf d p) (e : FileEntry) :
    (∃ q, listEntry d p e = some { e.metadata with path := q }) ↔ ¬ Missed d p := by
  rw [Missed, not_and, Classical.not_not, imp_iff_right hchild, listEntry]
  constructor
  · rintro ⟨q, hq⟩
    split_ifs at hq with hbelow
    rw [childEntry_eq] at hq
    split_ifs at hq with hone
    exact ⟨by_contra fun hd => not_oneName_of_not_isText hd hchild hone, hbelow⟩
  · rintro ⟨hd, hbelow⟩
    rw [if_pos hbelow, childEntry_eq, if_pos (oneName_of_isText hd hchild)]
    exact ⟨_, rfl⟩

lemma listEntry_other_iff {d p : PathBuf} (hother : ¬ ChildOf d p) (e : FileEntry) :
    listEntry d p e = none ↔ ¬ Stray d p := by
  rw [Stray, listEntry]
  by_cases hbelow : TextBelow d p
  · rw [if_pos hbelow, childEntry_eq, ite_eq_right_iff]
    simp only [hother, hbelow, not_false_eq_true, true_and, reduceCtorEq, imp_false]
    refine not_congr ?_
    by_cases hpre : dirText d = []
    · rw [relative_of_not_startsWith (Or.inl hpre)]
      simp [hpre]
    · cases hstarts : p.startsWith ⟨dirText d⟩ with
      | true =>
        rw [oneName_relative_iff hpre hstarts]
        simp [hpre]
      | false =>
        have hnot : ¬ ChildOf ⟨dirText d⟩ p := by
          intro hchild
          obtain ⟨c, -, hc⟩ := childOf_iff.1 hchild
          rw [PathBuf.startsWith_iff.2 ⟨[c], hc.symm⟩] at hstarts
          cases hstarts
        rw [relative_of_not_startsWith (Or.inr hstarts)]
        simp [hnot]
  · simp [hbelow]

/-- The listing by its entries: none is missed, and none is a stray one. -/
lemma listsChildren_iff (fs : MemFS) (d : PathBuf) :
    ListsChildren fs d ↔ ∀ p ∈ fs.files.keys, ¬ Missed d p ∧ ¬ Stray d p := by
  constructor
  · intro h p hp
    obtain ⟨x, hx, rfl⟩ := List.mem_map.1 hp
    by_cases hchild : ChildOf d x.1
    · exact ⟨(listEntry_child_iff hchild x.2).1 (h.child x hx hchild), fun hs => hs.1 hchild⟩
    · exact ⟨fun hm => hchild hm.1, (listEntry_other_iff hchild x.2).1 (h.other x hx hchild)⟩
  · intro h
    have hkey : ∀ x ∈ fs.files.entries, ¬ Missed d x.1 ∧ ¬ Stray d x.1 :=
      fun x hx => h x.1 (List.mem_map_of_mem hx)
    refine ⟨readDir_eq fs d, fun x hx hchild => ?_, fun x hx hother => ?_⟩
    · exact (listEntry_child_iff hchild x.2).2 (hkey x hx).1
    · exact (listEntry_other_iff hother x.2).2 (hkey x hx).2

/-- A directory with the name `/foo`, and beside it the file `/foobar`. -/
def siblingFs : MemFS :=
  (((MemFS.new 0).mkdir ⟨ascii "/foo"⟩ 0o755 0).2.create ⟨ascii "/foobar"⟩ 0).2

/-- The paths of the table are spelled as they are normalized. -/
def WellKeyed (fs : MemFS) : Prop := ∀ k ∈ fs.files.keys, ∃ p : AbsPath, k = p.toPath

variable {d : EntryPath} {p : AbsPath}

lemma dirText_entryPath (d : EntryPath) : dirText d.toPath = d.text := by
  have hroot : d.text ≠ [slash] := fun h => d.ne_root ((AbsPath.text_eq_iff d.toAbsPath).1 h)
  rw [dirText, d.toStringLossy, if_neg hroot]

lemma childOf_toPath_iff {d p : AbsPath} :
    ChildOf d.toPath p.toPath ↔ ∃ n, p.names = d.names ++ [n] := by
  rw [childOf_iff, AbsPath.components_toPath, AbsPath.components_toPath]
  constructor
  · rintro ⟨c, -, hc⟩
    rw [List.cons_append, List.cons.injEq] at hc
    obtain ⟨a, b, hnames, ha, hb⟩ := List.map_eq_append_iff.1 hc.2
    obtain ⟨n, rfl, -⟩ := List.map_eq_singleton_iff.1 hb
    exact ⟨n, by rw [hnames, AbsPath.map_normal_injective ha]⟩
  · rintro ⟨n, hn⟩
    exact ⟨.normal n, by simp, by rw [hn]; simp⟩

lemma not_missed_toPath : ¬ Missed d.toPath p.toPath := by
  rintro ⟨hchild, hnot⟩
  obtain ⟨n, hn⟩ := childOf_toPath_iff.1 hchild
  refine hnot ⟨d.toStringLossy, ?_, ?_⟩
  · rw [dirText_entryPath, ← d.toStringLossy]
    exact prefix_toStringLossy ⟨[n], hn.symm⟩
  · intro heq
    rw [dirText_entryPath, ← d.toStringLossy] at heq
    have hd : d.toPath.toStringLossy = lossyText d.names := toStringLossy_text d.ne_root
    have hp : p.toPath.toStringLossy = lossyText p.names := toStringLossy_text (by simp [hn])
    have hlen := congrArg List.length heq
    rw [hd, hp, hn] at hlen
    simp [lossyText] at hlen

lemma oneName_toPath_iff : OneName p.toPath ↔ ∃ m, p.names = [m] := by
  rw [OneName, AbsPath.components_toPath, AbsPath.toPath_bytes, ne_eq, AbsPath.text_eq_iff,
    List.length_cons, List.length_map, ← List.length_eq_one_iff]
  constructor
  · rintro ⟨hne, hlen | ⟨hlen, -⟩⟩
    · exact absurd (List.length_eq_zero_iff.1 (by omega)) hne
    · omega
  · intro hlen
    refine ⟨fun hnil => ?_, Or.inr ⟨by omega, rfl⟩⟩
    rw [hnil] at hlen
    cases hlen

lemma textBelow_toPath_iff {m : Bytes} (hm : p.names = [m]) : TextBelow d.toPath p.toPath ↔
    ∃ n, d.names = [n] ∧ n <+: fromUtf8Lossy m ∧ fromUtf8Lossy m ≠ n := by
  have hp : p.toPath.toStringLossy = slash :: fromUtf8Lossy m := by
    have htext : p.toPath.toStringLossy = lossyText p.names := toStringLossy_text (by simp [hm])
    rw [htext, hm]
    simp [lossyText]
  have hsingle {n : Bytes} (hn : d.names = [n]) : d.text = slash :: n := by
    rw [EntryPath.text, hn]
    simp [AbsPath.text]
  rw [TextBelow, dirText_entryPath, hp]
  constructor
  · rintro ⟨hpre, hne⟩
    obtain ⟨n, ns, hnames⟩ := List.exists_cons_of_ne_nil d.ne_root
    cases ns with
    | nil =>
      rw [hsingle hnames] at hpre hne
      exact ⟨n, hnames, (List.cons_prefix_cons.1 hpre).2, fun h => hne (by rw [h])⟩
    | cons n' ns =>
      -- there is a separator after the first name, but none in `m`
      have htext : d.text = slash :: (n ++ slash :: [slash].intercalate (n' :: ns)) := by
        rw [EntryPath.text, hnames, AbsPath.text, List.intercalate_cons_cons, List.append_assoc]
        rfl
      rw [htext, List.cons_prefix_cons] at hpre
      have hmem : slash ∈ fromUtf8Lossy m := hpre.2.subset (by simp)
      have hvalid := p.valid m (by simp [hm])
      exact absurd (mem_of_mem_fromUtf8Lossy slash_lt hmem) hvalid.2.1
  · rintro ⟨n, hn, hpre, hne⟩
    rw [hsingle hn]
    exact ⟨List.cons_prefix_cons.2 ⟨rfl, hpre⟩, fun h => hne (List.cons.inj h).2⟩

lemma fromUtf8Lossy_of_mem_names {p : AbsPath} (hp : p.toPath.IsText) {n : Bytes}
    (hn : n ∈ p.names) : fromUtf8Lossy n = n := by
  refine hp.fromUtf8Lossy_name ?_
  rw [AbsPath.components_toPath]
  exact List.mem_cons_of_mem _ (List.mem_map_of_mem hn)

/-- Only a name in the root that continues the name of the directory is a stray. -/
lemma stray_toPath_iff : Stray d.toPath p.toPath ↔
    ∃ n m, d.names = [n] ∧ p.names = [m] ∧ n <+: fromUtf8Lossy m ∧ fromUtf8Lossy m ≠ n := by
  have hspelled : PathBuf.mk (dirText d.toPath) = d.toPath :=
    congrArg PathBuf.mk (dirText_entryPath d)
  have hne : dirText d.toPath ≠ [] := by
    rw [dirText_entryPath]
    exact List.cons_ne_nil _ _
  rw [Stray, hspelled]
  constructor
  · rintro ⟨hother, hbelow, ⟨-, hchild⟩ | ⟨hone, -⟩⟩
    · exact absurd hchild hother
    · obtain ⟨m, hm⟩ := oneName_toPath_iff.1 hone
      obtain ⟨n, hn, hpre, hneq⟩ := (textBelow_toPath_iff hm).1 hbelow
      exact ⟨n, m, hn, hm, hpre, hneq⟩
  · rintro ⟨n, m, hn, hm, hpre, hneq⟩
    refine ⟨fun hchild => ?_, (textBelow_toPath_iff hm).2 ⟨n, hn, hpre, hneq⟩,
      Or.inr ⟨oneName_toPath_iff.2 ⟨m, hm⟩, Or.inr ?_⟩⟩
    · obtain ⟨c, hc⟩ := childOf_toPath_iff.1 hchild
      rw [hn, hm] at hc
      simp at hc
    · rw [← Bool.not_eq_true, AbsPath.startsWith_iff, hn, hm]
      intro hprefix
      obtain rfl : n = m := by simpa using hprefix
      exact hneq (fromUtf8Lossy_of_mem_names d.toStringLossy (by simp [hn]))

/-- With normal paths the listing of a directory is right unless it is in the root, together with
another name that begins with the directory's. -/
theorem lists_iff_of_wellKeyed {fs : MemFS} (hkeys : WellKeyed fs) (d : EntryPath) :
    ListsChildren fs d.toPath ↔ ∀ p : AbsPath, p.toPath ∈ fs.files.keys →
      ∀ n m, d.names = [n] → p.names = [m] → n <+: fromUtf8Lossy m → fromUtf8Lossy m = n := by
  rw [listsChildren_iff]
  constructor
  · intro h p hp n m hn hm hpre
    by_contra hne
    exact (h p.toPath hp).2 (stray_toPath_iff.2 ⟨n, m, hn, hm, hpre, hne⟩)
  · intro h k hk
    obtain ⟨p, rfl⟩ := hkeys k hk
    refine ⟨not_missed_toPath, fun hstray => ?_⟩
    obtain ⟨n, m, hn, hm, hpre, hne⟩ := stray_toPath_iff.1 hstray
    exact hne (h p hk n m hn hm hpre)

/-- The paths of the table are in their normal spelling after every run over such paths. -/
lemma wellKeyed_of_reachable {now : DateTime} {fs : MemFS}
    (h : Reachable step (MemFS.new now) fs) : WellKeyed fs := by
  refine h.invariant (keysMeet_new ⟨.root, rfl⟩ now) ?_
  rintro fs ⟨t, op⟩ fs' hkeys ⟨⟩
  exact KeysMeet.apply hkeys (fun p => ⟨p, rfl⟩) t op

/-- After a run over normal paths a listing is wrong only for a directory in the root, and only
when the name of another stored path of the root begins with the directory's. -/
theorem lists_iff_of_reachable {now : DateTime} {fs : MemFS}
    (h : Reachable step (MemFS.new now) fs) (d : EntryPath) :
    ListsChildren fs d.toPath ↔ ∀ p : AbsPath, p.toPath ∈ fs.files.keys →
      ∀ n m, d.names = [n] → p.names = [m] → n <+: fromUtf8Lossy m → fromUtf8Lossy m = n :=
  lists_iff_of_wellKeyed (wellKeyed_of_reachable h) d

end Racfs.MemFs
