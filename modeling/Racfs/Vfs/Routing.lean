/-
# Routing to the longest ancestor

What `MountableFS` is for: a path goes to the filesystem whose mount point is the longest one
among its ancestors, component by component, with the rest of the path (`RoutesToAncestor`).

`resolveFs` compares texts, byte by byte.  For mount points and paths that are ASCII the two
tables agree (`Inv`), and `resolveFs` finds the mount point with the longest text that is a
prefix of the text of the path (`resolveFs_of_longest`).  Every ancestor has such a text, but
so has `/memfs` for the path `/memfs2`.  A path that is not ASCII makes the loop over the
prefixes panic.  So the routing is right exactly when the path is ASCII and no mount point
that is not an ancestor has a longer text than all ancestors (`routesToAncestor_iff`).
-/
import Racfs.Vfs.Mountable
import Racfs.Lib.Run
import Mathlib.Data.Nat.Find

namespace Racfs.Vfs

open Utf8 MountableFS

variable {F : Type*}

/-! ### Normalization -/

lemma pop_text {names : List Bytes} (hvalid : ∀ n ∈ names, IsName n) :
    (PathBuf.mk (AbsPath.text names)).pop = ⟨AbsPath.text names.dropLast⟩ := by
  have hparent := AbsPath.parent_toPath ⟨names, hvalid⟩
  rw [PathBuf.pop]
  change (AbsPath.mk names hvalid).toPath.parent.getD _ = _
  rw [hparent]
  by_cases hnil : names = []
  · simp [hnil]
  · simp only [hnil, if_false, Option.getD_some]
    rfl

lemma foldl_normalizeComponent {cs : List Component}
    (hcs : ∀ c ∈ cs, c = .parentDir ∨ ∃ n, c = .normal n ∧ IsName n) {names : List Bytes}
    (hvalid : ∀ n ∈ names, IsName n) :
    cs.foldl normalizeComponent ⟨AbsPath.text names⟩ =
      ⟨AbsPath.text (PathBuf.follow names cs)⟩ := by
  induction cs generalizing names with
  | nil => rfl
  | cons c cs ih =>
    have hcs' : ∀ c ∈ cs, c = .parentDir ∨ ∃ n, c = .normal n ∧ IsName n :=
      fun c hc => hcs c (by simp [hc])
    rcases hcs c (by simp) with rfl | ⟨n, rfl, hn⟩
    · rw [List.foldl_cons, normalizeComponent, pop_text hvalid, PathBuf.follow]
      exact ih hcs' fun m hm => hvalid m (List.mem_of_mem_dropLast hm)
    · rw [List.foldl_cons, normalizeComponent, AbsPath.push_name hvalid hn, PathBuf.follow]
      refine ih hcs' fun m hm => ?_
      rcases List.mem_append.1 hm with hm | hm
      · exact hvalid m hm
      · exact List.mem_singleton.1 hm ▸ hn

/-- The stack after all components of an absolute path. -/
lemma foldl_components {p : PathBuf} (hp : p.hasRoot = true) :
    p.components.foldl normalizeComponent ⟨[]⟩ = p.lexical.toPath := by
  have hcomp : p.components =
      .rootDir :: (p.bytes.tail.splitOn slash).filterMap Component.parse := by
    rw [PathBuf.components, if_pos hp]
  have hroot : normalizeComponent ⟨[]⟩ .rootDir = ⟨AbsPath.text []⟩ := by
    simp [normalizeComponent, PathBuf.push, PathBuf.hasRoot, AbsPath.text]
  rw [hcomp, List.foldl_cons, hroot,
    foldl_normalizeComponent (fun c hc => PathBuf.mem_filterMap_parse hc) (by simp)]
  simp only [AbsPath.toPath, PathBuf.lexical, hcomp, PathBuf.follow]

/-- The normalization of an absolute path. -/
lemma normalizePath_eq {p : PathBuf} (hp : p.hasRoot = true) :
    normalizePath p = p.lexical.toPath := by
  rw [normalizePath, foldl_components hp]
  simp [AbsPath.toPath, AbsPath.text]

/-! ### Keys -/

/-- The text does not end with a separator. -/
lemma getLast?_lossyText {names : List Bytes} (hvalid : ∀ n ∈ names, IsName n) :
    (lossyText names).getLast? ≠ some slash := by
  rcases List.eq_nil_or_concat' names with rfl | ⟨ns, n, rfl⟩
  · simp [lossyText]
  · have hn := hvalid n (by simp)
    intro hlast
    rw [lossyText, List.flatMap_append, List.flatMap_singleton, List.getLast?_append_cons,
      List.getLast?_cons_of_ne_nil (fromUtf8Lossy_ne_nil hn.1)] at hlast
    exact hn.2.1 (mem_of_mem_fromUtf8Lossy slash_lt (List.mem_of_getLast? hlast))

lemma pathToKey_toPath (p : AbsPath) : pathToKey p.toPath = lossyText p.names := by
  by_cases hnil : p.names = []
  · simp only [pathToKey, AbsPath.toPath, hnil, PathBuf.toStringLossy, AbsPath.text_nil, lossyText]
    decide
  · rw [pathToKey, AbsPath.toPath, toStringLossy_text hnil]
    simp only [getLast?_lossyText p.valid, if_false]

/-- The spelling in which a mount point is stored. -/
def mountPath (m : AbsPath) : PathBuf := ⟨AbsPath.text m.names ++ [slash]⟩

lemma mountPath_beq (m : AbsPath) : (mountPath m == m.toPath) = true := by
  rw [PathBuf.beq_iff]
  exact AbsPath.components_append_slash (AbsPath.hasRoot_toPath m)

lemma normalizeMountPoint_eq {m : AbsPath} (hm : m.names ≠ []) :
    normalizeMountPoint m.toPath = mountPath m := by
  have hlossy : m.toPath.toStringLossy = lossyText m.names := toStringLossy_text hm
  have htext : m.toPath.bytes ≠ [slash] := fun h => hm ((AbsPath.text_eq_iff m).1 h)
  rw [normalizeMountPoint, hlossy, if_pos ⟨getLast?_lossyText m.valid, htext⟩, PathBuf.push]
  simp only [AbsPath.toPath_bytes, AbsPath.getLast?_text m.valid]
  simp [PathBuf.hasRoot, hm, mountPath]

lemma pathToKey_mountPath {m : AbsPath} (hm : m.names ≠ []) :
    pathToKey (mountPath m) = lossyText m.names := by
  have hlossy : (mountPath m).toStringLossy = lossyText m.names ++ [slash] := by
    rw [PathBuf.toStringLossy, mountPath, fromUtf8Lossy_append _ _ slash_lt,
      fromUtf8Lossy_cons _ slash_lt, fromUtf8Lossy_nil]
    exact congrArg (· ++ [slash]) (toStringLossy_text hm)
  rw [pathToKey, hlossy]
  simp

/-- Paths with equal ASCII keys are equal: nothing is lost in the conversion. -/
lemma lossyText_injective {p q : AbsPath} (hascii : IsAscii (lossyText p.names))
    (h : lossyText p.names = lossyText q.names) : p = q := by
  have hflat : ∀ r : AbsPath, IsAscii (lossyText r.names) →
      lossyText r.names = r.names.flatMap fun n => slash :: n := by
    intro r hr
    rw [← fromUtf8Lossy_flatMap]
    refine fromUtf8Lossy_of_isAscii (isAscii_of_fromUtf8Lossy ?_)
    rwa [fromUtf8Lossy_flatMap]
  have hpq : (p.names.flatMap fun n => slash :: n) = q.names.flatMap fun n => slash :: n := by
    rw [← hflat p hascii, h, hflat q (h ▸ hascii)]
  rcases hp : p.names with _ | ⟨n, ns⟩
  · rcases hq : q.names with _ | ⟨m, ms⟩
    · exact AbsPath.ext (hp.trans hq.symm)
    · simp [hp, hq] at hpq
  · rcases hq : q.names with _ | ⟨m, ms⟩
    · simp [hp, hq] at hpq
    · rw [← AbsPath.text_eq_flatMap (by simp [hp]), ← AbsPath.text_eq_flatMap (by simp [hq])] at hpq
      rw [← AbsPath.toPath_beq_iff, AbsPath.toPath, AbsPath.toPath, hpq]
      exact BEq.rfl

/-- A longer ancestor has a longer key. -/
lemma length_lossyText_lt {ms ns : List Bytes} (h : ms <+: ns) (hlt : ms.length < ns.length) :
    (lossyText ms).length < (lossyText ns).length := by
  obtain ⟨r, rfl⟩ := h
  rcases r with _ | ⟨n, r⟩
  · simp at hlt
  · simp [lossyText]

lemma isAscii_lossyText_iff {names : List Bytes} :
    IsAscii (lossyText names) ↔ ∀ n ∈ names, IsAscii n := by
  constructor
  · intro h n hn
    refine isAscii_of_fromUtf8Lossy fun b hb => h b ?_
    exact List.mem_flatMap.2 ⟨n, hn, List.mem_cons_of_mem _ hb⟩
  · intro h b hb
    obtain ⟨n, hn, hb⟩ := List.mem_flatMap.1 hb
    rcases List.mem_cons.1 hb with rfl | hb
    · exact slash_lt
    · rw [fromUtf8Lossy_of_isAscii (h n hn)] at hb
      exact h n hn b hb

/-! ### The two loops -/

/-- The loop panics as soon as it meets an index inside of a character. -/
lemma searchTrie_of_not_boundary {trie : AssocMap Bytes F} {key : Bytes} {i j : ℕ}
    (hj : j ≤ i) (hb : isCharBoundary key j = false) (best : Option F) (bestLen : ℕ) :
    searchTrie trie key i best bestLen = .panic := by
  induction i generalizing best bestLen with
  | zero =>
    obtain rfl : j = 0 := by omega
    simp [searchTrie, hb]
  | succ i ih =>
    rw [searchTrie]
    by_cases hi : isCharBoundary key (i + 1) = true
    · have hji : j ≤ i := by
        rcases Nat.lt_or_ge i j with hlt | hge
        · obtain rfl : j = i + 1 := by omega
          rw [hi] at hb
          cases hb
        · exact hge
      simp only [hi, Bool.not_true, Bool.false_eq_true, if_false]
      exact ih hji _ _
    · simp [hi]

/-- Once a filesystem has been found, shorter prefixes do not replace it. -/
lemma searchTrie_of_found {trie : AssocMap Bytes F} {key : Bytes}
    (hb : ∀ j ≤ key.length, isCharBoundary key j = true) {i : ℕ} (hi : i ≤ key.length)
    (f : F) {bestLen : ℕ} (hlt : i < bestLen) :
    searchTrie trie key i (some f) bestLen = .ok (some f) := by
  have hkeep : ∀ j, j < bestLen → better trie key j (some f) bestLen = (some f, bestLen) := by
    intro j hj
    unfold better
    split
    · rw [if_neg (by omega)]
    · rfl
  -- the loop goes down, so all that follows is shorter
  induction i with
  | zero =>
    rw [searchTrie]
    simp only [hb 0 (by omega), hkeep 0 hlt, Bool.not_true, Bool.false_eq_true, if_false]
  | succ i ih =>
    rw [searchTrie]
    simp only [hb (i + 1) hi, Bool.not_true, Bool.false_eq_true, if_false, hkeep (i + 1) hlt]
    exact ih (by omega) (by omega)

lemma better_of_some {trie : AssocMap Bytes F} {key : Bytes} {i : ℕ} {f : F}
    (hf : trie.get? (key.take i) = some f) : better trie key i none 0 = (some f, i) := by
  simp [better, hf]

lemma better_of_none {trie : AssocMap Bytes F} {key : Bytes} {i : ℕ}
    (hf : trie.get? (key.take i) = none) (best : Option F) (bestLen : ℕ) :
    better trie key i best bestLen = (best, bestLen) := by
  simp [better, hf]

/-- The loop finds the filesystem of the longest prefix that is in the trie. -/
lemma searchTrie_of_longest {trie : AssocMap Bytes F} {key : Bytes}
    (hb : ∀ j ≤ key.length, isCharBoundary key j = true) {i j : ℕ} (hi : i ≤ key.length)
    (hj : j ≤ i) {f : F} (hf : trie.get? (key.take j) = some f)
    (hlong : ∀ j', j < j' → j' ≤ i → trie.get? (key.take j') = none) :
    searchTrie trie key i none 0 = .ok (some f) := by
  induction i with
  | zero =>
    obtain rfl : j = 0 := by omega
    rw [searchTrie]
    simp only [hb 0 (by omega), better_of_some hf, Bool.not_true, Bool.false_eq_true, if_false]
  | succ i ih =>
    rw [searchTrie]
    simp only [hb (i + 1) hi, Bool.not_true, Bool.false_eq_true, if_false]
    rcases Nat.lt_or_ge i j with hlt | hge
    · obtain rfl : j = i + 1 := by omega
      simp only [better_of_some hf]
      exact searchTrie_of_found hb (by omega) f (by omega)
    · simp only [better_of_none (hlong (i + 1) (by omega) le_rfl)]
      exact ih (by omega) hge fun j' h1 h2 => hlong j' h1 (by omega)

lemma searchTrie_of_none {trie : AssocMap Bytes F} {key : Bytes}
    (hb : ∀ j ≤ key.length, isCharBoundary key j = true) {i : ℕ} (hi : i ≤ key.length)
    (hnone : ∀ j ≤ i, trie.get? (key.take j) = none) :
    searchTrie trie key i none 0 = .ok none := by
  induction i with
  | zero =>
    rw [searchTrie]
    simp only [hb 0 (by omega), better_of_none (hnone 0 le_rfl), Bool.not_true,
      Bool.false_eq_true, if_false]
  | succ i ih =>
    rw [searchTrie]
    simp only [hb (i + 1) hi, better_of_none (hnone (i + 1) le_rfl), Bool.not_true,
      Bool.false_eq_true, if_false]
    exact ih (by omega) fun j hj => hnone j (by omega)

/-- The loop over the mount points returns one with a key of maximal length among those whose
key is a prefix. -/
lemma searchMounts_spec {key : Bytes} {l : List (PathBuf × F)} {best : Option PathBuf}
    {bestLen : ℕ} :
    (searchMounts key l best bestLen = best ∧
      ∀ e ∈ l, pathToKey e.1 <+: key → (pathToKey e.1).length ≤ bestLen) ∨
    ∃ e ∈ l, searchMounts key l best bestLen = some e.1 ∧ pathToKey e.1 <+: key ∧
      bestLen < (pathToKey e.1).length ∧
      ∀ e' ∈ l, pathToKey e'.1 <+: key → (pathToKey e'.1).length ≤ (pathToKey e.1).length := by
  induction l generalizing best bestLen with
  | nil => exact Or.inl ⟨rfl, by simp⟩
  | cons e l ih =>
    obtain ⟨k, f⟩ := e
    rw [searchMounts]
    by_cases hc : ((pathToKey k).isPrefixOf key || (pathToKey k).isEmpty) &&
        decide ((pathToKey k).length > bestLen)
    · have hk : pathToKey k <+: key ∧ bestLen < (pathToKey k).length := by
        simp only [Bool.and_eq_true, Bool.or_eq_true, List.isPrefixOf_iff_prefix,
          List.isEmpty_iff, decide_eq_true_eq] at hc
        refine ⟨hc.1.resolve_right fun hnil => ?_, hc.2⟩
        rw [hnil] at hc
        exact Nat.not_lt_zero _ hc.2
      simp only [hc, if_true]
      rcases @ih (some k) (pathToKey k).length with ⟨heq, hall⟩ | h
      · refine Or.inr ⟨(k, f), by simp, heq, hk.1, hk.2, fun e' he' hpre => ?_⟩
        rcases List.mem_cons.1 he' with rfl | he'
        · exact le_rfl
        · exact hall e' he' hpre
      · obtain ⟨e, he, heq, hpre, hlt, hall⟩ := h
        refine Or.inr ⟨e, by simp [he], heq, hpre, by omega, fun e' he' hpre' => ?_⟩
        rcases List.mem_cons.1 he' with rfl | he'
        · exact Nat.le_of_lt hlt
        · exact hall e' he' hpre'
    · have hk : pathToKey k <+: key → (pathToKey k).length ≤ bestLen := by
        intro hpre
        by_contra hlt
        refine hc ?_
        simp [List.isPrefixOf_iff_prefix, hpre]
        omega
      simp only [hc, if_false, Bool.false_eq_true]
      rcases @ih best bestLen with ⟨heq, hall⟩ | h
      · refine Or.inl ⟨heq, fun e' he' hpre => ?_⟩
        rcases List.mem_cons.1 he' with rfl | he'
        · exact hk hpre
        · exact hall e' he' hpre
      · obtain ⟨e, he, heq, hpre, hlt, hall⟩ := h
        refine Or.inr ⟨e, by simp [he], heq, hpre, hlt, fun e' he' hpre' => ?_⟩
        rcases List.mem_cons.1 he' with rfl | he'
        · exact (hk hpre').trans (Nat.le_of_lt hlt)
        · exact hall e' he' hpre'

/-! ### The relative path -/

lemma components_mountPath (m : AbsPath) :
    (mountPath m).components = Component.rootDir :: m.names.map Component.normal := by
  rw [← AbsPath.components_toPath]
  exact PathBuf.beq_iff.1 (mountPath_beq m)

lemma startsWith_mountPath {m p : AbsPath} :
    p.toPath.startsWith (mountPath m) = true ↔ m.names <+: p.names := by
  rw [← AbsPath.startsWith_iff, PathBuf.startsWith, PathBuf.startsWith, components_mountPath,
    AbsPath.components_toPath m]

lemma mountPath_bytes_ne (m : AbsPath) : (mountPath m).bytes ≠ [slash] := by
  simp [mountPath, AbsPath.text]

/-- Below the mount point, the relative path has the remaining names. -/
lemma relativePath_of_isPrefix {m p : AbsPath} (h : m.names <+: p.names) :
    relativePath p.toPath (mountPath m) = (p.drop m.names.length).toPath := by
  have hdrop : p.toPath.components.drop (mountPath m).components.length =
      (p.drop m.names.length).names.map Component.normal := by
    rw [AbsPath.components_toPath, components_mountPath, List.length_cons, List.length_map,
      List.drop_succ_cons, AbsPath.drop, List.map_drop]
  have hstrip : p.toPath.stripPrefix (mountPath m) =
      some ⟨[slash].intercalate (p.drop m.names.length).names⟩ := by
    rw [PathBuf.stripPrefix, if_pos (startsWith_mountPath.2 h), hdrop,
      AbsPath.ofComponents_normal (p.drop m.names.length).valid]
  rw [relativePath, if_neg (mountPath_bytes_ne m), hstrip, Option.getD_some]
  generalize p.drop m.names.length = r
  by_cases hr : r.names = []
  · simp [hr, AbsPath.toPath, AbsPath.text]
  · obtain ⟨n, ns, hn⟩ := List.exists_cons_of_ne_nil hr
    have hname : IsName n := r.valid n (by simp [hn])
    -- a relative path begins with the first byte of a name
    have hrel : (PathBuf.mk ([slash].intercalate r.names)).hasRoot = false := by
      have hfirst := AbsPath.hasRoot_of_isName hname
      rw [hn]
      obtain ⟨b, bs, hb⟩ := List.exists_cons_of_ne_nil hname.1
      rcases ns with _ | ⟨m, ns⟩
      · simpa using hfirst
      · subst hb
        simpa [List.intercalate_cons_cons, PathBuf.hasRoot] using hfirst
    have hne : [slash].intercalate r.names ≠ [] := by
      intro hnil
      exact hr ((AbsPath.text_eq_iff r).1 (by rw [AbsPath.text, hnil]))
    simp only [hne, if_false, PathBuf.startsWith_slash, hrel, Bool.not_false, if_true]
    simp [PathBuf.push, hrel, AbsPath.toPath, AbsPath.text]

lemma relativePath_of_not_isPrefix {m p : AbsPath} (h : ¬ m.names <+: p.names) :
    relativePath p.toPath (mountPath m) = p.toPath := by
  have hstrip : p.toPath.stripPrefix (mountPath m) = none := by
    rw [PathBuf.stripPrefix, if_neg (fun hs => h (startsWith_mountPath.1 hs))]
  rw [relativePath, if_neg (mountPath_bytes_ne m), hstrip, Option.getD_none]
  simp only [PathBuf.startsWith_slash, AbsPath.hasRoot_toPath]
  simp [AbsPath.text]

/-! ### The mount table -/

/-- The filesystem mounted at a path. -/
def mounted (s : MountableFS F) (m : AbsPath) : Option F := s.mounts.get? m.toPath

/-- A mount point has at least one name and is stored in its own spelling; and for ASCII texts
the trie has what the table has. -/
structure RoutingInv (s : MountableFS F) : Prop where
  mounts : ∀ e ∈ s.mounts.entries, ∃ m : AbsPath, m.names ≠ [] ∧ e.1 = mountPath m
  trie : ∀ t f, IsAscii t →
    (s.trie.get? t = some f ↔ ∃ m, mounted s m = some f ∧ lossyText m.names = t)

lemma mountPath_beq_iff {m m' : AbsPath} : (mountPath m == m'.toPath) = true ↔ m = m' := by
  rw [BEq.congr_left (mountPath_beq m), AbsPath.toPath_beq_iff]

/-- Mounted filesystems and entries of the table. -/
lemma mounted_iff_mem {s : MountableFS F}
    (hmounts : ∀ e ∈ s.mounts.entries, ∃ m : AbsPath, m.names ≠ [] ∧ e.1 = mountPath m)
    {m : AbsPath} {f : F} : mounted s m = some f ↔ (mountPath m, f) ∈ s.mounts.entries := by
  constructor
  · intro hm
    obtain ⟨k, hk, hkm⟩ := AssocMap.mem_of_get? hm
    obtain ⟨m', -, rfl⟩ := hmounts _ hk
    rwa [mountPath_beq_iff.1 hkm] at hk
  · intro hmem
    rw [mounted, ← AssocMap.get?_congr _ (mountPath_beq m)]
    exact AssocMap.get?_of_mem hmem

lemma names_ne_nil_of_mounted {s : MountableFS F}
    (hmounts : ∀ e ∈ s.mounts.entries, ∃ m : AbsPath, m.names ≠ [] ∧ e.1 = mountPath m)
    {m : AbsPath} {f : F} (hm : mounted s m = some f) : m.names ≠ [] := by
  obtain ⟨m', hm', heq⟩ := hmounts _ ((mounted_iff_mem hmounts).1 hm)
  have hstored : mountPath m = mountPath m' := heq
  have hmm' : m = m' := by
    rw [← @mountPath_beq_iff m m', hstored]
    exact mountPath_beq m'
  exact hmm' ▸ hm'

lemma RoutingInv.mounted_iff {s : MountableFS F} (h : RoutingInv s) {m : AbsPath} {f : F} :
    mounted s m = some f ↔ (mountPath m, f) ∈ s.mounts.entries :=
  mounted_iff_mem h.mounts

lemma RoutingInv.names_ne_nil {s : MountableFS F} (h : RoutingInv s) {m : AbsPath} {f : F}
    (hm : mounted s m = some f) : m.names ≠ [] :=
  names_ne_nil_of_mounted h.mounts hm

/-- A call that changes the table. -/
inductive MountCall (F : Type*)
  | mount (m : AbsPath) (fs : F)
  | unmount (m : AbsPath)

/-- The table after a call on a normalized absolute mount point. -/
def mountStep (s : MountableFS F) : MountCall F → Option (MountableFS F)
  | .mount m fs => some (s.mount m.toPath fs).2
  | .unmount m => some (s.unmount m.toPath).2

lemma mount_cases (s : MountableFS F) (m : AbsPath) (f : F) :
    (s.mount m.toPath f).2 = s ∨
    (m.names ≠ [] ∧ (s.mount m.toPath f).2 =
      ⟨s.mounts.insert (mountPath m) f, s.trie.insert (lossyText m.names) f⟩) := by
  unfold mount
  split
  · exact Or.inl rfl
  · next hroot =>
    have hm : m.names ≠ [] := fun h => hroot ((AbsPath.text_eq_iff m).2 h)
    split
    · exact Or.inl rfl
    · split
      · exact Or.inl rfl
      · exact Or.inr ⟨hm, by simp only [normalizeMountPoint_eq hm, pathToKey_mountPath hm]⟩

lemma RoutingInv.unmount_cases {s : MountableFS F} (h : RoutingInv s) (m : AbsPath) :
    (s.unmount m.toPath).2 = s ∨
    (m.names ≠ [] ∧ (s.unmount m.toPath).2 =
      ⟨s.mounts.erase (mountPath m), s.trie.erase (lossyText m.names)⟩) := by
  unfold unmount
  by_cases hm : m.names = []
  · -- the root is never mounted
    have hself : normalizeMountPoint m.toPath = m.toPath := by
      rw [normalizeMountPoint, if_neg]
      simp [hm, AbsPath.text]
    have hc : s.mounts.contains m.toPath = false := by
      rw [AssocMap.contains_eq_false_iff]
      by_contra hne
      obtain ⟨f, hf⟩ := Option.ne_none_iff_exists'.1 hne
      exact h.names_ne_nil hf hm
    simp only [hself, hc]
    exact Or.inl rfl
  · simp only [normalizeMountPoint_eq hm, pathToKey_mountPath hm]
    split
    · exact Or.inr ⟨hm, rfl⟩
    · exact Or.inl rfl

/-- The trie and the table change at the same mount point. -/
lemma RoutingInv.trie_update {s s' : MountableFS F} (h : RoutingInv s) (m : AbsPath)
    (v : Option F) (hmounted : ∀ m', mounted s' m' = if m = m' then v else mounted s m')
    (htrie : ∀ t, s'.trie.get? t = if lossyText m.names = t then v else s.trie.get? t)
    {t : Bytes} (ht : IsAscii t) (g : F) :
    s'.trie.get? t = some g ↔ ∃ m', mounted s' m' = some g ∧ lossyText m'.names = t := by
  simp only [hmounted, htrie]
  by_cases hkey : lossyText m.names = t
  · -- no other mount point has this text
    rw [if_pos hkey]
    constructor
    · intro hv
      exact ⟨m, by rw [if_pos rfl, hv], hkey⟩
    · rintro ⟨m', hm', hk⟩
      obtain rfl : m = m' := lossyText_injective (hkey ▸ ht) (hkey.trans hk.symm)
      rwa [if_pos rfl] at hm'
  · rw [if_neg hkey, h.trie t g ht]
    refine exists_congr fun m' => and_congr_left fun hk => ?_
    have hne : m ≠ m' := by
      rintro rfl
      exact hkey hk
    rw [if_neg hne]

lemma RoutingInv.mount {s : MountableFS F} (h : RoutingInv s) {m : AbsPath} (hm : m.names ≠ [])
    (f : F) :
    RoutingInv ⟨s.mounts.insert (mountPath m) f, s.trie.insert (lossyText m.names) f⟩ := by
  refine ⟨fun e he => ?_, fun t g ht =>
    h.trie_update m (some f) (fun m' => ?_) (fun t' => ?_) ht g⟩
  · rcases AssocMap.key_of_mem_upsert he with rfl | ⟨w, hw⟩
    · exact ⟨m, hm, rfl⟩
    · exact h.mounts (e.1, w) hw
  · simp only [mounted, AssocMap.get?_insert, mountPath_beq_iff]
  · simp only [AssocMap.get?_insert, beq_iff_eq]

lemma RoutingInv.unmount {s : MountableFS F} (h : RoutingInv s) (m : AbsPath) :
    RoutingInv ⟨s.mounts.erase (mountPath m), s.trie.erase (lossyText m.names)⟩ := by
  refine ⟨fun e he => h.mounts e (List.mem_of_mem_filter he), fun t g ht =>
    h.trie_update m none (fun m' => ?_) (fun t' => ?_) ht g⟩
  · simp only [mounted, AssocMap.get?_erase, mountPath_beq_iff]
  · simp only [AssocMap.get?_erase, beq_iff_eq]

lemma RoutingInv.step {s s' : MountableFS F} {c : MountCall F} (h : RoutingInv s)
    (hs : mountStep s c = some s') : RoutingInv s' := by
  cases c with
  | mount m f =>
    cases hs
    rcases mount_cases s m f with hsame | ⟨hm, heq⟩
    · rwa [hsame]
    · rw [heq]
      exact h.mount hm f
  | unmount m =>
    cases hs
    rcases h.unmount_cases m with hsame | ⟨-, heq⟩
    · rwa [hsame]
    · rw [heq]
      exact h.unmount m

lemma routingInv_new : RoutingInv (new : MountableFS F) :=
  ⟨by simp [new], by simp [new, mounted]⟩

/-! ### What is resolved -/

/-- The mount point has a text that is a prefix of the text of the path. -/
def TextPrefix (s : MountableFS F) (p m : AbsPath) : Prop :=
  (∃ f, mounted s m = some f) ∧ lossyText m.names <+: lossyText p.names

lemma resolveFs_eq (s : MountableFS F) {path : PathBuf} (hp : path.hasRoot = true) :
    s.resolveFs path =
      (searchTrie s.trie (lossyText path.lexical.names) (lossyText path.lexical.names).length
        none 0).bind fun
        | none => .err (.NotFound path.lexical.toPath)
        | some fs => .ok (fs, relativePath path.lexical.toPath
            ((searchMounts (lossyText path.lexical.names) s.mounts.entries none 0).getD
              ⟨[slash]⟩)) := by
  rw [← pathToKey_toPath, ← normalizePath_eq hp]
  rfl

lemma boundary_of_isAscii {key : Bytes} (h : IsAscii key) :
    ∀ j ≤ key.length, isCharBoundary key j = true := by
  rw [forall_isCharBoundary_iff]
  intro i _
  rcases Nat.lt_or_ge i key.length with hlt | hge
  · rw [safeGet, List.getD_eq_getElem _ _ hlt]
    exact isCont_of_lt (h _ (List.getElem_mem hlt))
  · rw [safeGet, List.getD_eq_default _ _ hge, isCont_zero]

/-- A path that is not ASCII makes the loop panic. -/
lemma resolveFs_of_not_isAscii (s : MountableFS F) {path : PathBuf} (hp : path.hasRoot = true)
    (hascii : ¬ IsAscii (lossyText path.lexical.names)) : s.resolveFs path = .panic := by
  generalize hkey : lossyText path.lexical.names = key at hascii
  have hcont : ¬ ∀ j ≤ key.length, isCharBoundary key j = true := by
    rw [forall_isCharBoundary_iff]
    intro hall
    have hflat : ¬ IsAscii (path.lexical.names.flatMap fun n => slash :: n) := by
      intro h
      rw [← fromUtf8Lossy_of_isAscii h, fromUtf8Lossy_flatMap, hkey] at h
      exact hascii h
    obtain ⟨c, hc, hcont⟩ := exists_isCont_of_not_isAscii hflat
    rw [fromUtf8Lossy_flatMap, hkey] at hc
    obtain ⟨i, hi, rfl⟩ := List.getElem_of_mem hc
    rcases Nat.eq_zero_or_pos i with rfl | hpos
    · -- the key starts with a separator
      have hhead : key[0] = slash := by
        rcases hnames : path.lexical.names with _ | ⟨n, ns⟩
        · have hnil : key = [] := by rw [← hkey, hnames]; rfl
          simp [hnil] at hi
        · have hcons : key = slash :: (fromUtf8Lossy n ++ lossyText ns) := by
            rw [← hkey, hnames]
            rfl
          simp [hcons]
      rw [hhead] at hcont
      exact absurd hcont (by decide)
    · have := hall i hpos
      rw [safeGet, List.getD_eq_getElem _ _ hi, hcont] at this
      cases this
  push Not at hcont
  obtain ⟨j, hj, hb⟩ := hcont
  rw [resolveFs_eq s hp, hkey, searchTrie_of_not_boundary hj (by simpa using hb)]
  rfl

variable {s : MountableFS F}

/-- Without a text that is a prefix, nothing is found. -/
lemma RoutingInv.resolveFs_of_none (h : RoutingInv s) {path : PathBuf} (hp : path.hasRoot = true)
    (hascii : IsAscii (lossyText path.lexical.names))
    (hnone : ∀ m, ¬ TextPrefix s path.lexical m) :
    s.resolveFs path = .err (.NotFound path.lexical.toPath) := by
  rw [resolveFs_eq s hp,
    searchTrie_of_none (boundary_of_isAscii hascii) le_rfl fun j _ => ?_, Outcome.ok_bind]
  by_contra hsome
  obtain ⟨f, hf⟩ := Option.ne_none_iff_exists'.1 hsome
  have htake : IsAscii ((lossyText path.lexical.names).take j) :=
    fun b hb => hascii b (List.mem_of_mem_take hb)
  obtain ⟨m, hm, hk⟩ := (h.trie _ f htake).1 hf
  exact hnone m ⟨⟨f, hm⟩, hk ▸ List.take_prefix _ _⟩

/-- The mount point with the longest text that is a prefix decides. -/
lemma RoutingInv.resolveFs_of_longest (h : RoutingInv s) {path : PathBuf}
    (hp : path.hasRoot = true) (hascii : IsAscii (lossyText path.lexical.names))
    {m : AbsPath} {f : F}
    (hm : mounted s m = some f) (hpre : lossyText m.names <+: lossyText path.lexical.names)
    (hlong : ∀ m', TextPrefix s path.lexical m' →
      (lossyText m'.names).length ≤ (lossyText m.names).length) :
    s.resolveFs path = .ok (f, relativePath path.lexical.toPath (mountPath m)) := by
  have hmAscii : IsAscii (lossyText m.names) := fun b hb => hascii b (hpre.subset hb)
  have htrie : searchTrie s.trie (lossyText path.lexical.names)
      (lossyText path.lexical.names).length none 0 = .ok (some f) := by
    refine searchTrie_of_longest (boundary_of_isAscii hascii) le_rfl hpre.length_le
      (j := (lossyText m.names).length) ?_ fun j' hj' hle => ?_
    · rw [← List.prefix_iff_eq_take.1 hpre]
      exact (h.trie _ f hmAscii).2 ⟨m, hm, rfl⟩
    · by_contra hsome
      obtain ⟨g, hg⟩ := Option.ne_none_iff_exists'.1 hsome
      obtain ⟨m', hm', hk⟩ := (h.trie _ g fun b hb => hascii b (List.mem_of_mem_take hb)).1 hg
      have hlen := hlong m' ⟨⟨g, hm'⟩, hk ▸ List.take_prefix _ _⟩
      rw [hk, List.length_take] at hlen
      omega
  have hmem : (mountPath m, f) ∈ s.mounts.entries := h.mounted_iff.1 hm
  have hkey : pathToKey (mountPath m) = lossyText m.names := pathToKey_mountPath (h.names_ne_nil hm)
  have hmounts : searchMounts (lossyText path.lexical.names) s.mounts.entries none 0 =
      some (mountPath m) := by
    rcases @searchMounts_spec F (lossyText path.lexical.names) s.mounts.entries none 0 with
      ⟨-, hall⟩ | ⟨e, he, heq, hepre, -, hall⟩
    · -- the key of a mount point is not empty
      have := hall _ hmem (hkey ▸ hpre)
      rw [hkey, Nat.le_zero, List.length_eq_zero_iff] at this
      have hne := h.names_ne_nil hm
      obtain ⟨n, ns, hn⟩ := List.exists_cons_of_ne_nil hne
      simp [hn, lossyText] at this
    · obtain ⟨m', hm'ne, hm'⟩ := h.mounts e he
      have hm'mem : (mountPath m', e.2) ∈ s.mounts.entries := by
        rw [← hm']
        exact he
      rw [hm', pathToKey_mountPath hm'ne] at hepre hall
      have hle := hlong m' ⟨⟨e.2, h.mounted_iff.2 hm'mem⟩, hepre⟩
      have hge := hall _ hmem (hkey ▸ hpre)
      rw [hkey] at hge
      have heqkey : lossyText m.names = lossyText m'.names := by
        rw [List.prefix_iff_eq_take.1 hpre, List.prefix_iff_eq_take.1 hepre,
          Nat.le_antisymm hge hle]
      rw [heq, hm', lossyText_injective hmAscii heqkey]
  rw [resolveFs_eq s hp, htrie, Outcome.ok_bind, hmounts]
  rfl

/-! ### Right and wrong routes -/

/-- The routing is right for a path: it goes to the longest ancestor with the rest of the path,
and is not found exactly when there is no ancestor. -/
structure RoutesToAncestor (s : MountableFS F) (path : PathBuf) : Prop where
  found : ∀ m f, mounted s m = some f → m.names <+: path.lexical.names →
    (∀ m', (∃ f', mounted s m' = some f') → m'.names <+: path.lexical.names →
      m'.names.length ≤ m.names.length) →
    s.resolveFs path = .ok (f, (path.lexical.drop m.names.length).toPath)
  notFound : (∃ q, s.resolveFs path = .err (.NotFound q)) ↔
    ∀ m, (∃ f, mounted s m = some f) → ¬ m.names <+: path.lexical.names

/-- The path is ASCII, and a mount point whose text is a prefix of the text of the path is not
longer than some ancestor of the path. -/
def TextsDecide (s : MountableFS F) (path : PathBuf) : Prop :=
  (∀ n ∈ path.lexical.names, IsAscii n) ∧
    ∀ m, (∃ f, mounted s m = some f) → lossyText m.names <+: lossyText path.lexical.names →
      ∃ m', (∃ f, mounted s m' = some f) ∧ m'.names <+: path.lexical.names ∧
        (lossyText m.names).length ≤ (lossyText m'.names).length

/-- Among finitely long things there is a longest one. -/
lemma exists_longest {A : Type*} {Q : A → Prop} (size : A → ℕ) (bound : ℕ)
    (hb : ∀ a, Q a → size a ≤ bound) (hne : ∃ a, Q a) : ∃ a, Q a ∧ ∀ b, Q b → size b ≤ size a := by
  classical
  obtain ⟨a₀, ha₀⟩ := hne
  have hex : ∃ k, ∃ a, Q a ∧ bound - size a = k := ⟨_, a₀, ha₀, rfl⟩
  obtain ⟨a, ha, hk⟩ := Nat.find_spec hex
  refine ⟨a, ha, fun b hQb => ?_⟩
  have hmin := Nat.find_min' hex ⟨b, hQb, rfl⟩
  have h1 := hb a ha
  have h2 := hb b hQb
  omega

lemma exists_longest_ancestor {path : PathBuf}
    (hne : ∃ m f, mounted s m = some f ∧ m.names <+: path.lexical.names) :
    ∃ m f, mounted s m = some f ∧ m.names <+: path.lexical.names ∧
      ∀ m', (∃ f', mounted s m' = some f') → m'.names <+: path.lexical.names →
        m'.names.length ≤ m.names.length := by
  obtain ⟨m₀, f₀, hm₀, hpre₀⟩ := hne
  obtain ⟨m, ⟨⟨f, hf⟩, hpre⟩, hmax⟩ := exists_longest
    (Q := fun m => (∃ f, mounted s m = some f) ∧ m.names <+: path.lexical.names)
    (fun m => m.names.length) path.lexical.names.length (fun a ha => ha.2.length_le)
    ⟨m₀, ⟨f₀, hm₀⟩, hpre₀⟩
  exact ⟨m, f, hf, hpre, fun m' hm' hpre' => hmax m' ⟨hm', hpre'⟩⟩

/-- A call that ends in neither of the two ways is not right. -/
lemma not_routesToAncestor_of_panic {path : PathBuf} (h : s.resolveFs path = .panic) :
    ¬ RoutesToAncestor s path := by
  intro hr
  by_cases hne : ∃ m f, mounted s m = some f ∧ m.names <+: path.lexical.names
  · obtain ⟨m, f, hm, hpre, hmax⟩ := exists_longest_ancestor hne
    have := hr.found m f hm hpre hmax
    rw [h] at this
    cases this
  · obtain ⟨q, hq⟩ := hr.notFound.2 fun m ⟨f, hf⟩ hpre => hne ⟨m, f, hf, hpre⟩
    rw [h] at hq
    cases hq

/-- A route to a mount point that is not an ancestor is wrong, whichever filesystems are
mounted: the relative path is too long. -/
lemma not_routesToAncestor_of_foreign (h : RoutingInv s) {path : PathBuf} {f : F}
    (hr : s.resolveFs path = .ok (f, path.lexical.toPath)) : ¬ RoutesToAncestor s path := by
  intro hroutes
  by_cases hne : ∃ m f, mounted s m = some f ∧ m.names <+: path.lexical.names
  · obtain ⟨m, g, hm, hpre, hmax⟩ := exists_longest_ancestor hne
    have heq := hroutes.found m g hm hpre hmax
    rw [hr] at heq
    simp only [Outcome.ok.injEq, Prod.mk.injEq] at heq
    have hpaths : path.lexical = path.lexical.drop m.names.length := by
      rw [← AbsPath.toPath_beq_iff, ← heq.2]
      exact BEq.rfl
    have hlen := congrArg (fun p : AbsPath => p.names.length) hpaths
    simp only [AbsPath.drop, List.length_drop] at hlen
    have hpos := List.length_pos_of_ne_nil (h.names_ne_nil hm)
    have hle := hpre.length_le
    omega
  · have hall : ∀ m, (∃ f, mounted s m = some f) → ¬ m.names <+: path.lexical.names := by
      rintro m ⟨f, hf⟩ hpre
      exact hne ⟨m, f, hf, hpre⟩
    obtain ⟨q, hq⟩ := hroutes.notFound.2 hall
    rw [hr] at hq
    cases hq

/-- When some text is a prefix, the mount point with the longest one has to be an ancestor. -/
lemma RoutingInv.routesToAncestor_iff_of_textPrefix (h : RoutingInv s) {path : PathBuf}
    (hp : path.hasRoot = true) (hascii : IsAscii (lossyText path.lexical.names))
    (hany : ∃ m, TextPrefix s path.lexical m) :
    RoutesToAncestor s path ↔ TextsDecide s path := by
  obtain ⟨m, ⟨⟨f, hm⟩, hpre⟩, hlong⟩ := exists_longest (fun m => (lossyText m.names).length)
    (lossyText path.lexical.names).length (fun a ha => ha.2.length_le) hany
  have hres := h.resolveFs_of_longest hp hascii hm hpre hlong
  by_cases hanc : m.names <+: path.lexical.names
  · rw [relativePath_of_isPrefix hanc] at hres
    refine iff_of_true ⟨fun m' f' hm' hpre' hmax => ?_, ?_⟩
      ⟨isAscii_lossyText_iff.1 hascii, fun m' hm' hpre' =>
        ⟨m, ⟨f, hm⟩, hanc, hlong m' ⟨hm', hpre'⟩⟩⟩
    · -- the longest ancestor is the one with the longest text
      have hle := hmax m ⟨f, hm⟩ hanc
      have hmm' : m.names <+: m'.names := List.prefix_of_prefix_length_le hanc hpre' hle
      have hge : m'.names.length ≤ m.names.length := by
        by_contra hlt
        have := length_lossyText_lt hmm' (by omega)
        have := hlong m' ⟨⟨f', hm'⟩, prefix_lossyText hpre'⟩
        omega
      obtain rfl : m = m' := AbsPath.ext (hmm'.eq_of_length (Nat.le_antisymm hle hge))
      rw [hm, Option.some.injEq] at hm'
      rw [hres, hm']
    · refine iff_of_false ?_ fun hno => hno m ⟨f, hm⟩ hanc
      rintro ⟨q, hq⟩
      rw [hres] at hq
      cases hq
  · rw [relativePath_of_not_isPrefix hanc] at hres
    refine iff_of_false (not_routesToAncestor_of_foreign h hres) fun htexts => ?_
    obtain ⟨m', ⟨f', hm'⟩, hpre', hle⟩ := htexts.2 m ⟨f, hm⟩ hpre
    have hge := hlong m' ⟨⟨f', hm'⟩, prefix_lossyText hpre'⟩
    -- an ancestor with a text as long as this one is this one
    have hkeys : lossyText m.names = lossyText m'.names := by
      rw [List.prefix_iff_eq_take.1 hpre, List.prefix_iff_eq_take.1 (prefix_lossyText hpre'),
        Nat.le_antisymm hle hge]
    have hmAscii : IsAscii (lossyText m.names) := fun b hb => hascii b (hpre.subset hb)
    rw [lossyText_injective hmAscii hkeys] at hanc
    exact hanc hpre'

/-- For every mount table that calls on normalized absolute mount points lead to and every
absolute path, the routing is right exactly when the texts decide. -/
theorem routesToAncestor_iff {s : MountableFS F} (hs : Reachable mountStep new s)
    {path : PathBuf} (hp : path.hasRoot = true) :
    RoutesToAncestor s path ↔ TextsDecide s path := by
  have h : RoutingInv s := hs.invariant routingInv_new fun _ _ _ hinv hstep => hinv.step hstep
  by_cases hascii : IsAscii (lossyText path.lexical.names)
  · by_cases hany : ∃ m, TextPrefix s path.lexical m
    · exact h.routesToAncestor_iff_of_textPrefix hp hascii hany
    · have hnone : ∀ m, ¬ TextPrefix s path.lexical m := fun m hm => hany ⟨m, hm⟩
      refine iff_of_true ⟨fun m f hm hpre _ => ?_, ?_⟩ ⟨isAscii_lossyText_iff.1 hascii, ?_⟩
      · exact absurd ⟨⟨f, hm⟩, prefix_lossyText hpre⟩ (hnone m)
      · exact iff_of_true ⟨_, h.resolveFs_of_none hp hascii hnone⟩ fun m hm hpre =>
          hnone m ⟨hm, prefix_lossyText hpre⟩
      · exact fun m hm hpre => absurd ⟨hm, hpre⟩ (hnone m)
  · refine iff_of_false ?_ fun htexts => hascii (isAscii_lossyText_iff.2 htexts.1)
    exact not_routesToAncestor_of_panic (resolveFs_of_not_isAscii s hp hascii)

/-- A mount and a path below it. -/
theorem routesToAncestor_memfs :
    ∃ s : MountableFS ℕ, run mountStep new [.mount ⟨[ascii "memfs"], by decide⟩ 1] = some s ∧
      (RoutesToAncestor s ⟨ascii "/memfs/file.txt"⟩ ↔
        TextsDecide s ⟨ascii "/memfs/file.txt"⟩) := by
  refine ⟨_, rfl, ?_⟩
  exact routesToAncestor_iff ⟨[.mount ⟨[ascii "memfs"], by decide⟩ 1], rfl⟩ (by decide)

/-- The path `/memfs2/x` is not below `/memfs` and is routed to it. -/
theorem not_routesToAncestor_memfs2 :
    ∃ s : MountableFS ℕ, run mountStep new [.mount ⟨[ascii "memfs"], by decide⟩ 1] = some s ∧
      (PathBuf.mk (ascii "/memfs2/x")).hasRoot = true ∧
      s.resolveFs ⟨ascii "/memfs2/x"⟩ = .ok (1, ⟨ascii "/memfs2/x"⟩) ∧
      ¬ RoutesToAncestor s ⟨ascii "/memfs2/x"⟩ := by
  refine ⟨_, rfl, rfl, rfl, ?_⟩
  have hinv : RoutingInv (new.mount (AbsPath.toPath ⟨[ascii "memfs"], by decide⟩) 1).2 :=
    routingInv_new.step (c := .mount ⟨[ascii "memfs"], by decide⟩ 1) rfl
  exact not_routesToAncestor_of_foreign hinv rfl

end Racfs.Vfs
