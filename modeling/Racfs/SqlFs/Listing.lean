/-
# What a listing of the database shows

The rows in a directory are found by a pattern, and of the rows that match, those are shown in
which nothing with a separator is left behind the directory.  Where the path of a row does not
begin with the components of the directory, all of it is left, so a row that only matches is not
shown (`listed_iff`).

A listing has exactly the rows whose parent is the directory (`ListsChildren`) under three
conditions: the directory is not the root, which is listed as an entry of itself; no row that
matches is another spelling of the directory or of a path in it; and the modes of the rows have
their types, which a change of the mode can take away (`readDir_lists_rows_iff`).  With normal
paths the second is always true (`readDir_lists_rows_iff_of_normal`).
-/
import Racfs.Lib.PathJoin
import Racfs.SqlFs.Tree

namespace Racfs.SqlFs

open SqlFS

/-- The key is an absolute path, and the directory is its parent. -/
def IsChild (text key : Bytes) : Prop := key.head? = some slash ∧ parentText key = some text

instance (text key : Bytes) : Decidable (IsChild text key) := by
  unfold IsChild
  infer_instance

/-- The entry has the size and the type of the row. -/
structure Shows (m : FileMetadata) (row : FileRow) : Prop where
  size : m.size = row.content.length.toUInt64
  isDirectory : m.isDirectory = row.isDir
  isFile : m.isFile = !row.isDir

/-- The listing has one entry for each row whose parent is the directory, and no other. -/
structure ListsChildren (fs : SqlFS) (text : Bytes) (ms : List FileMetadata) : Prop where
  paths : (ms.map fun m => m.path.bytes).Perm (fs.files.keys.filter fun key => IsChild text key)
  rows : ∀ m ∈ ms, ∃ row, fs.files.get? m.path.bytes = some row ∧ Shows m row

/-- The mode of the row has its type. -/
def TypeInMode (row : FileRow) : Prop :=
  (row.mode &&& S_IFMT == S_IFDIR) = row.isDir ∧ (row.mode &&& S_IFMT == S_IFREG) = !row.isDir

instance (row : FileRow) : Decidable (TypeInMode row) := by
  unfold TypeInMode
  infer_instance

/-- The components of the key are those of the directory, and at most one more. -/
def UpToOneBelow (text key : Bytes) : Prop :=
  (PathBuf.mk text).components <+: (PathBuf.mk key).components ∧
    (PathBuf.mk key).components.length ≤ (PathBuf.mk text).components.length + 1

instance (text key : Bytes) : Decidable (UpToOneBelow text key) := by
  unfold UpToOneBelow
  infer_instance

/-! ### The rows that are shown -/

/-- What is left of the path of a row. -/
def leftOf (text key : Bytes) : PathBuf :=
  if text = [slash] then ⟨key⟩ else ((PathBuf.mk key).stripPrefix ⟨text⟩).getD ⟨key⟩

/-- The row is shown. -/
def Listed (text key : Bytes) : Prop :=
  Sql.like key (if text = [slash] then slash :: Sql.percent else text ++ slash :: Sql.percent) =
      true ∧
    if text = [slash] then (leftOf text key).toStringLossy.count slash = 1
    else slash ∉ (leftOf text key).toStringLossy

instance (text key : Bytes) : Decidable (Listed text key) := by
  unfold Listed
  infer_instance

lemma readDir_eq (fs : SqlFS) {path : PathBuf} {text : Bytes} {row : FileRow}
    (hpath : pathToStr path = .ok text) (hrow : fs.files.get? text = some row)
    (hdir : row.isDir = true) : fs.readDir path =
      .ok ((fs.files.entries.filter fun e => Listed text e.1).map fun e => e.2.metadata e.1) := by
  have hisDir : fs.isDir text = .ok true := by
    rw [isDir, hrow]
    exact congrArg Outcome.ok hdir
  rw [readDir, hpath, Outcome.ok_bind, hisDir, Outcome.ok_bind, Bool.not_true,
    if_neg Bool.false_ne_true]
  dsimp only
  congr 1
  rw [List.filterMap_filter, ← List.filterMap_eq_map, List.filterMap_filter]
  refine List.filterMap_congr fun e _ => ?_
  simp only [Listed, leftOf, Function.comp_apply]
  split_ifs <;> simp_all

/-- The row of a directory that is below the root is shown when it matches and when at most one
component is left of its path. -/
lemma listed_iff {text key : Bytes} (hne : text ≠ [slash]) (habs : text.head? = some slash) :
    Listed text key ↔ below text key = true ∧ UpToOneBelow text key := by
  have hslash (bs : Bytes) : slash ∉ fromUtf8Lossy bs ↔ slash ∉ bs :=
    not_congr ⟨mem_of_mem_fromUtf8Lossy slash_lt, mem_fromUtf8Lossy_of_mem slash_lt⟩
  rw [Listed, if_neg hne, if_neg hne, leftOf, if_neg hne]
  refine and_congr_right fun hbelow => ?_
  rw [PathBuf.toStringLossy, hslash, UpToOneBelow, ← PathBuf.startsWith_iff]
  cases hstarts : (PathBuf.mk key).startsWith ⟨text⟩ with
  | true =>
    obtain ⟨rest, hrest⟩ := PathBuf.startsWith_iff.1 hstarts
    have hsteps : ∀ c ∈ rest, c = .parentDir ∨ ∃ n, c = .normal n ∧ IsName n := by
      intro c hc
      refine PathBuf.isName_of_mem_tail (p := ⟨key⟩) ?_
      have hroot : (PathBuf.mk text).hasRoot = true := by simp [PathBuf.hasRoot, habs]
      rw [← hrest, PathBuf.components_eq_cons_steps hroot]
      exact List.mem_append_right _ hc
    rw [PathBuf.stripPrefix, if_pos hstarts, Option.getD_some, ← hrest, List.drop_left,
      PathBuf.slash_notMem_ofComponents_iff hsteps, List.length_append]
    simp
  | false =>
    -- all of the path is left, and it has a separator
    rw [PathBuf.stripPrefix, hstarts, if_neg Bool.false_ne_true, Option.getD_none]
    refine iff_of_false (fun hnot => hnot ?_) (by simp)
    have hlt := Sql.count_slash_lt_of_like hbelow
    have hmem : [slash] ∈ Utf8.chars key := List.count_pos_iff.1 (by omega)
    rw [← Utf8.flatten_chars key]
    exact List.mem_flatten.2 ⟨[slash], hmem, List.mem_singleton_self slash⟩

/-- The root is shown in itself. -/
lemma listed_root : Listed [slash] [slash] := by decide

/-! ### The rows in a directory -/

lemma not_isChild_root (text : Bytes) : ¬ IsChild text [slash] := by
  rintro ⟨-, h⟩
  have hnone : parentText [slash] = none := by decide
  rw [hnone] at h
  cases h

/-- The parent of a path ends where one piece begins that is a component. -/
lemma exists_of_parentText {t text : Bytes} (h : parentText (slash :: t) = some text) :
    ∃ front blanks piece blanks', t.splitOn slash = front ++ (blanks ++ piece :: blanks') ∧
      text = slash :: [slash].intercalate front ∧
      (∀ b ∈ blanks ++ blanks', Component.parse b = none) := by
  have htrim (ps : List Bytes) : ∃ blanks, ps =
      (ps.rdropWhile fun piece => Component.parse piece = none) ++ blanks ∧
        ∀ b ∈ blanks, Component.parse b = none :=
    ⟨_, (List.rdropWhile_append_rtakeWhile ..).symm, fun b hb => by
      simpa using List.mem_rtakeWhile_imp hb⟩
  rw [parentText, List.tail_cons] at h
  obtain ⟨blanks', hall, hblanks'⟩ := htrim (t.splitOn slash)
  cases hpieces : (t.splitOn slash).rdropWhile fun piece => Component.parse piece = none with
  | nil => simp [hpieces] at h
  | cons first pieces =>
    rw [hpieces] at hall
    simp only [hpieces, Option.some.injEq] at h
    obtain ⟨blanks, hfront, hblanks⟩ := htrim (first :: pieces).dropLast
    refine ⟨_, blanks, (first :: pieces).getLast (by simp), blanks', ?_, h.symm, ?_⟩
    · rw [hall, ← List.append_assoc, ← hfront]
      conv_lhs => rw [← List.dropLast_append_getLast (List.cons_ne_nil first pieces)]
      rw [List.append_assoc]
      rfl
    · exact List.forall_mem_append.2 ⟨hblanks, hblanks'⟩

/-- What is in a directory matches, and has one component more. -/
lemma listed_of_isChild {text key : Bytes} (hne : text ≠ [slash]) (habs : text.head? = some slash)
    (h : IsChild text key) : Listed text key := by
  obtain ⟨hhead, hparent⟩ := h
  obtain ⟨t, rfl⟩ := List.head?_eq_some_iff.1 hhead
  obtain ⟨front, blanks, piece, blanks', hsplit, rfl, hblanks⟩ := exists_of_parentText hparent
  have hfront : front ≠ [] := by
    rintro rfl
    exact hne rfl
  have hnoslash : ∀ l ∈ front, slash ∉ l := by
    intro l hl
    have hmem : l ∈ t.splitOn slash := by
      rw [hsplit]
      exact List.mem_append_left _ hl
    exact not_mem_of_mem_splitOn hmem
  have hblank {l : List Bytes} (hl : ∀ b ∈ l, Component.parse b = none) :
      l.filterMap Component.parse = [] :=
    List.filterMap_eq_nil_iff.2 hl
  obtain ⟨hfst, hsnd⟩ := List.forall_mem_append.1 hblanks
  rw [listed_iff hne habs]
  constructor
  · have htext : slash :: t = (slash :: [slash].intercalate front) ++
        slash :: [slash].intercalate (blanks ++ piece :: blanks') := by
      have hjoin : [slash].intercalate (t.splitOn slash) = t := List.intercalate_splitOn slash
      rw [← hjoin, hsplit]
      exact AbsPath.text_append hfront (by simp)
    rw [htext]
    exact Sql.like_of_prefix (by decide) _ _
  · rw [UpToOneBelow, PathBuf.components_cons_slash, PathBuf.components_cons_slash, hsplit,
      List.splitOn_intercalate slash hnoslash hfront, List.filterMap_append]
    constructor
    · exact ⟨_, rfl⟩
    · rw [List.filterMap_append, hblank hfst, List.nil_append, List.filterMap_cons, hblank hsnd]
      cases Component.parse piece <;> simp

/-! ### What the listing has -/

lemma filter_perm_iff {p q : Bytes → Prop} [DecidablePred p] [DecidablePred q] {l : List Bytes} :
    (l.filter fun a => p a).Perm (l.filter fun a => q a) ↔ ∀ a ∈ l, p a ↔ q a := by
  constructor
  · intro h a ha
    have hmem := h.mem_iff (a := a)
    simpa [ha] using hmem
  · intro h
    rw [List.filter_congr fun a ha => decide_eq_decide.2 (h a ha)]

/-- The listing has what it should have when exactly the rows of the directory are shown, and their
modes have their types. -/
lemma exists_listsChildren_iff (fs : SqlFS) {path : PathBuf} {text : Bytes} {row : FileRow}
    (hpath : pathToStr path = .ok text) (hrow : fs.files.get? text = some row)
    (hdir : row.isDir = true) :
    (∃ ms, fs.readDir path = .ok ms ∧ ListsChildren fs text ms) ↔
      (∀ key ∈ fs.files.keys, Listed text key ↔ IsChild text key) ∧
      ∀ key row, fs.files.get? key = some row → Listed text key → TypeInMode row := by
  have hpaths : (((fs.files.entries.filter fun e => Listed text e.1).map
      fun e => e.2.metadata e.1).map fun m => m.path.bytes) =
        fs.files.keys.filter fun key => Listed text key := by
    rw [List.map_map, AssocMap.keys, List.filter_map]
    rfl
  have hmem {key : Bytes} {r : FileRow} : (key, r) ∈ fs.files.entries ↔
      fs.files.get? key = some r := by
    refine ⟨AssocMap.get?_of_mem, fun h => ?_⟩
    obtain ⟨k, hk, hbeq⟩ := AssocMap.mem_of_get? h
    rwa [← eq_of_beq hbeq]
  rw [readDir_eq fs hpath hrow hdir]
  constructor
  · rintro ⟨ms, hms, hpaths', hrows⟩
    obtain rfl := Outcome.ok.inj hms
    rw [hpaths, filter_perm_iff] at hpaths'
    refine ⟨hpaths', fun key r hr hlisted => ?_⟩
    obtain ⟨r', hr', hshows⟩ := hrows (r.metadata key) <| List.mem_map.2
      ⟨(key, r), List.mem_filter.2 ⟨hmem.2 hr, decide_eq_true hlisted⟩, rfl⟩
    obtain rfl : r = r' := Option.some.inj (hr.symm.trans hr')
    exact ⟨hshows.isDirectory, hshows.isFile⟩
  · rintro ⟨hlisted, htypes⟩
    refine ⟨_, rfl, ?_, ?_⟩
    · rw [hpaths, filter_perm_iff]
      exact hlisted
    · intro m hm
      obtain ⟨⟨key, r⟩, he, rfl⟩ := List.mem_map.1 hm
      obtain ⟨he, hshown⟩ := List.mem_filter.1 he
      have htype := htypes key r (hmem.1 he) (of_decide_eq_true hshown)
      exact ⟨r, hmem.1 he, rfl, htype.1, htype.2⟩

lemma head?_of_pathToStr {path : PathBuf} {text : Bytes} (h : pathToStr path = .ok text) :
    text.head? = some slash := by
  rw [pathToStr] at h
  split_ifs at h with _ hroot
  · rw [← Outcome.ok.inj h]
    exact hroot
  · rw [← Outcome.ok.inj h]
    rfl

/-- The listing by the rows that match and those in the directory. -/
lemma exists_listsChildren_iff_of_row (fs : SqlFS) {path : PathBuf} {text : Bytes} {row : FileRow}
    (hpath : pathToStr path = .ok text) (hrow : fs.files.get? text = some row)
    (hdir : row.isDir = true) :
    (∃ ms, fs.readDir path = .ok ms ∧ ListsChildren fs text ms) ↔ text ≠ [slash] ∧
      (∀ key ∈ fs.files.keys, below text key = true → UpToOneBelow text key → IsChild text key) ∧
      ∀ key row, fs.files.get? key = some row → IsChild text key → TypeInMode row := by
  have habs := head?_of_pathToStr hpath
  rw [exists_listsChildren_iff fs hpath hrow hdir]
  constructor
  · rintro ⟨hlisted, htypes⟩
    have hne : text ≠ [slash] := by
      rintro rfl
      -- the root is shown, and it is in no directory
      have hmem : [slash] ∈ fs.files.keys := AssocMap.mem_keys.2 ⟨row, hrow⟩
      exact not_isChild_root [slash] ((hlisted [slash] hmem).1 listed_root)
    refine ⟨hne, fun key hkey hbelow hone => ?_, fun key r hr hchild => ?_⟩
    · exact (hlisted key hkey).1 ((listed_iff hne habs).2 ⟨hbelow, hone⟩)
    · exact htypes key r hr (listed_of_isChild hne habs hchild)
  · rintro ⟨hne, hchildren, htypes⟩
    have hlisted : ∀ key ∈ fs.files.keys, Listed text key ↔ IsChild text key := by
      intro key hkey
      refine ⟨fun h => ?_, listed_of_isChild hne habs⟩
      obtain ⟨hbelow, hone⟩ := (listed_iff hne habs).1 h
      exact hchildren key hkey hbelow hone
    refine ⟨hlisted, fun key r hr h => htypes key r hr ?_⟩
    exact (hlisted key (AssocMap.mem_keys.2 ⟨r, hr⟩)).1 h

/-- The directory `/a` with the file `/a/x`. -/
def dirWithFile : SqlFS :=
  let fs := ((SqlFS.new .default (fun _ _ => true) 0).mkdir ⟨ascii "/a"⟩ 1).2
  (fs.create ⟨ascii "/a/x"⟩ 2).2

/-- With normal paths, only the root and the modes matter. -/
theorem readDir_lists_rows_iff_of_normal (fs : SqlFS) {d : AbsPath} {path : PathBuf} {row : FileRow}
    (hkeys : ∀ key ∈ fs.files.keys, ∃ p : AbsPath, key = AbsPath.text p.names)
    (hpath : pathToStr path = .ok (AbsPath.text d.names))
    (hrow : fs.files.get? (AbsPath.text d.names) = some row) (hdir : row.isDir = true) :
    (∃ ms, fs.readDir path = .ok ms ∧ ListsChildren fs (AbsPath.text d.names) ms) ↔
      d.names ≠ [] ∧ ∀ (p : AbsPath) (r : FileRow), fs.files.get? (AbsPath.text p.names) = some r →
        p.names ≠ [] → p.dropLast = d → TypeInMode r := by
  have hchild {p : AbsPath} : IsChild (AbsPath.text d.names) (AbsPath.text p.names) ↔
      p.names ≠ [] ∧ p.dropLast = d := by
    by_cases hp : p.names = []
    · rw [hp]
      exact iff_of_false (not_isChild_root _) fun h => h.1 rfl
    · have hhead : (AbsPath.text p.names).head? = some slash := rfl
      rw [IsChild, and_iff_right hhead, parentText_text hp, Option.some.injEq, AbsPath.text_inj]
      exact (and_iff_right hp).symm
  rw [exists_listsChildren_iff_of_row fs hpath hrow hdir, ne_eq, AbsPath.text_eq_iff]
  refine and_congr_right fun hne => ?_
  constructor
  · rintro ⟨-, htypes⟩ p r hr hp hdrop
    exact htypes _ r hr (hchild.2 ⟨hp, hdrop⟩)
  · intro htypes
    refine ⟨fun key hkey hbelow hone => ?_, fun key r hr h => ?_⟩
    · obtain ⟨p, rfl⟩ := hkeys key hkey
      obtain ⟨hpre, hlen⟩ := hone
      have hpre' : d.names <+: p.names := AbsPath.startsWith_iff.1 (PathBuf.startsWith_iff.2 hpre)
      obtain ⟨rest, hrest⟩ := hpre'
      have hcount (q : AbsPath) :
          (PathBuf.mk (AbsPath.text q.names)).components.length = q.names.length + 1 := by
        change q.toPath.components.length = _
        rw [AbsPath.components_toPath, List.length_cons, List.length_map]
      rw [hcount, hcount, ← hrest, List.length_append] at hlen
      -- the path is not that of the directory, which does not match
      have hrestne : rest ≠ [] := by
        rintro rfl
        rw [← hrest, List.append_nil, not_below_self] at hbelow
        cases hbelow
      obtain ⟨n, rfl⟩ := List.length_eq_one_iff.1
        (show rest.length = 1 by have := List.length_pos_iff.2 hrestne; omega)
      refine hchild.2 ⟨by simp [← hrest], AbsPath.ext ?_⟩
      change p.names.dropLast = d.names
      rw [← hrest, List.dropLast_concat]
    · obtain ⟨p, rfl⟩ := hkeys key (AssocMap.mem_keys.2 ⟨r, hr⟩)
      obtain ⟨hp, hdrop⟩ := hchild.1 h
      exact htypes p r hr hp hdrop

end Racfs.SqlFs
