/-
# Normalized paths

Two functions normalize a path, that of `MountableFS` and one of `racfs-core`.  Both go through the
components with a path as their stack.  What is on it is always the canonical spelling of the names
that are left when the components read so far are followed (`foldl_normalizeComponent`,
`foldl_normalizeComponent_relative`), and so the result is the spelling of what the path resolves
to.  The two differ for relative paths that resolve to nothing: there `MountableFS` returns the
root.
-/
import Racfs.Vfs.Routing

namespace Racfs

/-- `racfs_core::filesystem::utils::normalize_path`. -/
def Utils.normalizePath (path : PathBuf) : PathBuf :=
  path.components.foldl Vfs.MountableFS.normalizeComponent ⟨[]⟩

namespace Vfs

open MountableFS

/-- The text of names, from the root or without one. -/
def spelling (rooted : Bool) (names : List Bytes) : PathBuf :=
  if rooted then ⟨AbsPath.text names⟩ else ⟨[slash].intercalate names⟩

/-- A function that returns canonical paths. -/
structure Canonical (normalize : PathBuf → PathBuf) : Prop where
  idempotent : ∀ p, normalize (normalize p) = normalize p
  components : ∀ p, ∀ c ∈ (normalize p).components,
    c ≠ .curDir ∧ c ≠ .parentDir ∧ c.asOsStr ≠ []
  absolute : ∀ p, p.hasRoot = true → (normalize p).hasRoot = true
  /-- The text of the names that the path resolves to, each of which is a proper name.  It begins
  at the root if the path does, or where no name is left. -/
  resolves : ∀ p, ∃ rooted, (p.hasRoot = true → rooted = true) ∧
    (rooted = true → p.hasRoot = true ∨ p.lexical.names = []) ∧
    normalize p = spelling rooted p.lexical.names
  same : ∀ p q, p.hasRoot = true → q.hasRoot = true → p.lexical = q.lexical →
    (normalize p).bytes = (normalize q).bytes

/-! ### Canonical spellings -/

section Spelling

variable {names : List Bytes}

lemma hasRoot_spelling (hvalid : ∀ n ∈ names, IsName n) (rooted : Bool) :
    (spelling rooted names).hasRoot = rooted := by
  cases rooted with
  | true => rfl
  | false =>
    rw [spelling, if_neg Bool.false_ne_true]
    cases names with
    | nil => rfl
    | cons n ns =>
      -- the text begins with the first name
      obtain ⟨b, t, rfl⟩ := List.exists_cons_of_ne_nil (hvalid n List.mem_cons_self).1
      have hname := AbsPath.hasRoot_of_isName (hvalid _ List.mem_cons_self)
      cases ns with
      | nil => rwa [List.intercalate_singleton]
      | cons m ms => rwa [List.intercalate_cons_cons]

lemma components_spelling (hvalid : ∀ n ∈ names, IsName n) (rooted : Bool) :
    (spelling rooted names).components =
      (if rooted then [.rootDir] else []) ++ names.map Component.normal := by
  cases rooted with
  | true => exact AbsPath.components_toPath ⟨names, hvalid⟩
  | false => exact AbsPath.components_relative hvalid

lemma lexical_spelling (hvalid : ∀ n ∈ names, IsName n) (rooted : Bool) :
    (spelling rooted names).lexical.names = names := by
  change PathBuf.follow [] (spelling rooted names).components = names
  rw [components_spelling hvalid]
  cases rooted with
  | true => exact PathBuf.follow_map_normal [] names
  | false => exact PathBuf.follow_map_normal [] names

lemma bytes_spelling_eq_nil_iff (hvalid : ∀ n ∈ names, IsName n) (rooted : Bool) :
    (spelling rooted names).bytes = [] ↔ rooted = false ∧ names = [] := by
  constructor
  · intro hnil
    have hempty : (spelling rooted names).components = [] :=
      congrArg (fun bytes => (PathBuf.mk bytes).components) hnil
    rw [components_spelling hvalid, List.append_eq_nil_iff, List.map_eq_nil_iff] at hempty
    cases rooted with
    | true => exact absurd hempty.1 (List.cons_ne_nil _ _)
    | false => exact ⟨rfl, hempty.2⟩
  · rintro ⟨rfl, rfl⟩
    rfl

end Spelling

/-! ### The stack of a relative path -/

lemma pop_relative {names : List Bytes} (hvalid : ∀ n ∈ names, IsName n) :
    (PathBuf.mk ([slash].intercalate names)).pop = ⟨[slash].intercalate names.dropLast⟩ := by
  rw [PathBuf.pop, PathBuf.parent, AbsPath.components_relative hvalid]
  rcases List.eq_nil_or_concat' names with rfl | ⟨ns, n, rfl⟩
  · rfl
  · have hns : ∀ m ∈ ns, IsName m := fun m hm => hvalid m (List.mem_append_left _ hm)
    rw [List.map_append, List.map_singleton, List.getLast?_concat, List.dropLast_concat,
      List.dropLast_concat]
    simp only [AbsPath.ofComponents_normal hns, Option.getD_some]

lemma foldl_normalizeComponent_relative {cs : List Component}
    (hcs : ∀ c ∈ cs, c ≠ .rootDir ∧ ∀ n, c = .normal n → IsName n) {names : List Bytes}
    (hvalid : ∀ n ∈ names, IsName n) :
    cs.foldl normalizeComponent ⟨[slash].intercalate names⟩ =
      ⟨[slash].intercalate (PathBuf.follow names cs)⟩ := by
  induction cs generalizing names with
  | nil => rfl
  | cons c cs ih =>
    have hcs' : ∀ c ∈ cs, c ≠ .rootDir ∧ ∀ n, c = .normal n → IsName n :=
      fun c hc => hcs c (List.mem_cons_of_mem _ hc)
    obtain ⟨hroot, hname⟩ := hcs c List.mem_cons_self
    cases c with
    | rootDir => exact absurd rfl hroot
    | curDir => exact ih hcs' hvalid
    | parentDir =>
      rw [List.foldl_cons, normalizeComponent, pop_relative hvalid, PathBuf.follow]
      exact ih hcs' fun m hm => hvalid m (List.mem_of_mem_dropLast hm)
    | normal n =>
      have hn := hname n rfl
      rw [List.foldl_cons, normalizeComponent, AbsPath.push_relative hvalid hn, PathBuf.follow]
      refine ih hcs' fun m hm => ?_
      rcases List.mem_append.mp hm with hm | hm
      · exact hvalid m hm
      · exact List.mem_singleton.mp hm ▸ hn

lemma rootDir_not_mem_components {p : PathBuf} (hp : p.hasRoot = false) :
    Component.rootDir ∉ p.components := by
  intro h
  rw [PathBuf.components, if_neg (by rw [hp]; exact Bool.false_ne_true)] at h
  split at h
  · exact absurd h List.not_mem_nil
  · next first rest _ =>
    rcases List.mem_append.mp h with h | h
    · split at h
      · cases List.mem_singleton.mp h
      · exact Component.parse_ne_rootDir first (Option.mem_toList.mp h)
    · obtain ⟨piece, -, hpiece⟩ := List.mem_filterMap.mp h
      exact Component.parse_ne_rootDir piece hpiece

/-! ### The results -/

lemma utils_normalizePath_eq (p : PathBuf) :
    Utils.normalizePath p = spelling p.hasRoot p.lexical.names := by
  rw [Utils.normalizePath]
  cases hp : p.hasRoot with
  | true => exact foldl_components hp
  | false =>
    have hnil : PathBuf.mk [] = ⟨[slash].intercalate []⟩ := rfl
    rw [hnil, foldl_normalizeComponent_relative _ (by simp)]
    · rfl
    · intro c hc
      refine ⟨?_, ?_⟩
      · rintro rfl
        exact rootDir_not_mem_components hp hc
      · rintro n rfl
        exact PathBuf.isName_of_mem_components hc

/-- Only where nothing is left of a relative path the root takes its place. -/
lemma normalizePath_eq_spelling (p : PathBuf) :
    normalizePath p = spelling (p.hasRoot || p.lexical.names.isEmpty) p.lexical.names := by
  have hfold := utils_normalizePath_eq p
  rw [Utils.normalizePath] at hfold
  rw [normalizePath, hfold]
  by_cases hnil : (spelling p.hasRoot p.lexical.names).bytes = []
  · obtain ⟨hroot, hnames⟩ := (bytes_spelling_eq_nil_iff p.lexical.valid _).mp hnil
    rw [if_pos hnil, hroot, hnames]
    rfl
  · rw [if_neg hnil]
    rw [bytes_spelling_eq_nil_iff p.lexical.valid, not_and] at hnil
    cases hroot : p.hasRoot with
    | true => rfl
    | false =>
      rw [Bool.false_or, List.isEmpty_eq_false_iff.mpr (hnil hroot)]

/-- A function that spells the names a path resolves to, and the same for its own results. -/
lemma canonical_of_eq {normalize : PathBuf → PathBuf} (rooted : Bool → List Bytes → Bool)
    (hroot : ∀ names, rooted true names = true)
    (hname : ∀ b names, rooted b names = true → b = true ∨ names = [])
    (hrooted : ∀ b names, rooted (rooted b names) names = rooted b names)
    (h : ∀ p, normalize p = spelling (rooted p.hasRoot p.lexical.names) p.lexical.names) :
    Canonical normalize where
  idempotent p := by
    have hvalid := p.lexical.valid
    rw [h (normalize p), h p, hasRoot_spelling hvalid, lexical_spelling hvalid, hrooted]
  components p c hc := by
    rw [h, components_spelling p.lexical.valid, List.mem_append] at hc
    rcases hc with hc | hc
    · split at hc
      · rw [List.mem_singleton.mp hc]
        exact ⟨nofun, nofun, nofun⟩
      · exact absurd hc List.not_mem_nil
    · obtain ⟨n, hn, rfl⟩ := List.mem_map.mp hc
      exact ⟨nofun, nofun, (p.lexical.valid n hn).1⟩
  absolute p hp := by
    rw [h, hasRoot_spelling p.lexical.valid, hp, hroot]
  resolves p := by
    refine ⟨_, fun hp => ?_, hname _ _, h p⟩
    rw [hp, hroot]
  same p q hp hq hpq := by
    rw [h, h, hp, hq, hpq]

/-- **Normalization.**  Both functions return canonical paths, and for absolute paths the same
ones. -/
theorem canonical_normalizePath :
    Canonical normalizePath ∧ Canonical Utils.normalizePath ∧
      ∀ p, p.hasRoot = true → normalizePath p = Utils.normalizePath p := by
  refine ⟨?_, ?_, fun p hp => ?_⟩
  · refine canonical_of_eq (fun b names => b || names.isEmpty) ?_ ?_ ?_ normalizePath_eq_spelling
    · intro names
      rw [Bool.true_or]
    · intro b names hb
      exact (Bool.or_eq_true _ _ ▸ hb).imp_right List.isEmpty_iff.mp
    · intro b names
      rw [Bool.or_assoc, Bool.or_self]
  · exact canonical_of_eq (fun b _ => b) (fun _ => rfl) (fun _ _ hb => Or.inl hb)
      (fun _ _ => rfl) utils_normalizePath_eq
  · rw [normalizePath_eq hp, Utils.normalizePath, foldl_components hp]

end Vfs

end Racfs
