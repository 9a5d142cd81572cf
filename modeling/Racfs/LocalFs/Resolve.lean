/-
# The directory of a local file system

`LocalFS` (`racfs-plugin-localfs/src/fs/mod.rs`) serves a directory of the machine.  A requested
path is joined to that directory, and then `..` is resolved component by component: the loop
refuses a `..` outside of the directory, and the result has to be inside of it
(`LocalFS.resolve`).  Symbolic links are not followed.

The loop keeps a normalized absolute path (`normalizeStep_normal`, `normalizeStep_parentDir`).  So
a path that is not refused is inside of the directory and has no `..`, and no path is refused
that stays inside of the directory on its way (`resolve_confined`).
-/
import Racfs.Core
import Racfs.Lib.PathJoin

namespace Racfs.LocalFs

open PathBuf

/-- The directory that is served. -/
structure LocalFS where
  root : PathBuf

namespace LocalFS

variable (fs : LocalFS)

/-- One component in the loop of `resolve`. -/
def normalizeStep (path normalized : PathBuf) (component : Component) : Except FSError PathBuf :=
  match component with
  | .parentDir =>
    if !normalized.startsWith fs.root then .error (.PermissionDenied path)
    else
      -- `pop` does nothing where there is no parent
      match normalized.parent with
      | some parent => .ok parent
      | none => .ok (normalized.push ⟨component.asOsStr⟩)
  | _ => .ok (normalized.push ⟨component.asOsStr⟩)

/-- The loop of `resolve`. -/
def normalize (path : PathBuf) : PathBuf → List Component → Except FSError PathBuf
  | normalized, [] => .ok normalized
  | normalized, c :: cs =>
    match fs.normalizeStep path normalized c with
    | .ok normalized => normalize path normalized cs
    | .error e => .error e

/-- The path of the machine for a requested path. -/
def resolve (path : PathBuf) : Except FSError PathBuf :=
  let relative := (path.stripPrefix ⟨[slash]⟩).getD path
  let resolved := fs.root.push relative
  match fs.normalize path ⟨[]⟩ resolved.components with
  | .error e => .error e
  | .ok normalized =>
    if !normalized.startsWith fs.root then .error (.PermissionDenied path) else .ok normalized

variable {fs} {path : PathBuf}

/-! ### One component -/

/-- A name is added. -/
lemma normalizeStep_normal (a : AbsPath) {n : Bytes} (hn : IsName n) :
    fs.normalizeStep path a.toPath (.normal n) = .ok (a.concat hn).toPath :=
  congrArg Except.ok (AbsPath.push_name a.valid hn)

/-- A `..` removes the last name of a path inside of the directory. -/
lemma normalizeStep_parentDir (hroot : ¬ fs.root.components <+: [.rootDir]) (a : AbsPath) :
    fs.normalizeStep path a.toPath .parentDir =
      if a.toPath.startsWith fs.root then .ok a.dropLast.toPath
      else .error (.PermissionDenied path) := by
  rw [normalizeStep]
  cases hin : a.toPath.startsWith fs.root with
  | false => rfl
  | true =>
    -- a path inside of the directory has a last name
    have hne : a.names ≠ [] := by
      intro hnil
      rw [PathBuf.startsWith_iff, AbsPath.components_toPath, hnil] at hin
      exact hroot hin
    rw [AbsPath.parent_toPath, if_neg hne]
    rfl

/-! ### The loop -/

/-- The loop keeps a normalized absolute path. -/
lemma exists_absPath_of_normalize (hroot : ¬ fs.root.components <+: [.rootDir])
    {cs : List Component} (hcs : ∀ c ∈ cs, c = .parentDir ∨ ∃ n, c = .normal n ∧ IsName n)
    {a : AbsPath} {p : PathBuf} (h : fs.normalize path a.toPath cs = .ok p) :
    ∃ b : AbsPath, p = b.toPath := by
  induction cs generalizing a with
  | nil => exact ⟨a, (Except.ok.inj h).symm⟩
  | cons c cs ih =>
    have hcs' : ∀ c ∈ cs, c = .parentDir ∨ ∃ n, c = .normal n ∧ IsName n := fun c hc =>
      hcs c (List.mem_cons_of_mem _ hc)
    rw [normalize] at h
    rcases hcs c List.mem_cons_self with rfl | ⟨n, rfl, hn⟩
    · rw [normalizeStep_parentDir hroot] at h
      cases hin : a.toPath.startsWith fs.root with
      | false => simp [hin] at h
      | true =>
        rw [hin, if_pos rfl] at h
        exact ih hcs' h
    · rw [normalizeStep_normal a hn] at h
      exact ih hcs' h

/-- Names are added one after the other. -/
lemma normalize_names (ns : List Bytes) (hns : ∀ n ∈ ns, IsName n) (cs : List Component)
    (a : AbsPath) : ∃ b : AbsPath, b.names = a.names ++ ns ∧
      fs.normalize path a.toPath (ns.map .normal ++ cs) = fs.normalize path b.toPath cs := by
  induction ns generalizing a with
  | nil => exact ⟨a, by simp, rfl⟩
  | cons n ns ih =>
    have hn := hns n List.mem_cons_self
    obtain ⟨b, hb, heq⟩ := ih (fun m hm => hns m (List.mem_cons_of_mem _ hm)) (a.concat hn)
    refine ⟨b, by simp [hb, AbsPath.concat], ?_⟩
    rw [List.map_cons, List.cons_append, normalize, normalizeStep_normal a hn]
    exact heq

variable (path) in
/-- The loop from a path inside of the directory, over steps that do not lead out of it. -/
lemma normalize_follow (hroot : ¬ fs.root.components <+: [.rootDir]) {base : List Bytes}
    (hbase : fs.root.components = .rootDir :: base.map .normal) {cs : List Component}
    (hcs : ∀ c ∈ cs, c = .parentDir ∨ ∃ n, c = .normal n ∧ IsName n) {names : List Bytes}
    (hbelow : StaysBelow names.length cs) {a : AbsPath} (ha : a.names = base ++ names) :
    ∃ b : AbsPath, b.names = base ++ follow names cs ∧
      fs.normalize path a.toPath cs = .ok b.toPath := by
  induction cs generalizing names a with
  | nil => exact ⟨a, ha, rfl⟩
  | cons c cs ih =>
    have hcs' : ∀ c ∈ cs, c = .parentDir ∨ ∃ n, c = .normal n ∧ IsName n := fun c hc =>
      hcs c (List.mem_cons_of_mem _ hc)
    rw [normalize]
    rcases hcs c List.mem_cons_self with rfl | ⟨n, rfl, hn⟩
    · have hin : a.toPath.startsWith fs.root = true := by
        rw [PathBuf.startsWith_iff, hbase, AbsPath.components_toPath, ha, List.map_append]
        exact List.cons_prefix_cons.2 ⟨rfl, List.prefix_append _ _⟩
      have hne : names ≠ [] := by
        rintro rfl
        have := hbelow [.parentDir] (List.cons_prefix_cons.2 ⟨rfl, List.nil_prefix⟩)
        simp [Component.isNormal] at this
      have hlen := List.length_pos_of_ne_nil hne
      rw [normalizeStep_parentDir hroot, hin, if_pos rfl]
      refine ih hcs' (hbelow.of_cons ?_) (AbsPath.names_dropLast_append ha hne)
      simp only [List.length_dropLast, List.countP_singleton, List.count_singleton,
        Component.isNormal]
      simp only [Bool.false_eq_true, if_false, beq_self_eq_true, if_true]
      omega
    · rw [normalizeStep_normal a hn]
      refine ih hcs' (hbelow.of_cons ?_) (a := a.concat hn) ?_
      · simp [Component.isNormal]
      · simp [AbsPath.concat, ha]

/-! ### The whole path -/

/-- The first component of the joined path, from the empty path. -/
lemma normalize_rootDir (cs : List Component) :
    fs.normalize path ⟨[]⟩ (.rootDir :: cs) = fs.normalize path AbsPath.root.toPath cs := rfl

/-- Only the directory `/` is the beginning of the root. -/
lemma not_prefix_rootDir (habs : fs.root.hasRoot = true)
    (hroot : fs.root.components ≠ [.rootDir]) (hno : Component.parentDir ∉ fs.root.components) :
    ¬ fs.root.components <+: [.rootDir] := by
  have hbase : fs.root.components = .rootDir :: fs.root.lexical.names.map .normal := by
    rw [← components_lexical habs hno, AbsPath.components_toPath]
  intro hpre
  rw [hbase, List.cons_prefix_cons] at hpre
  exact hroot (by rw [hbase, List.prefix_nil.1 hpre.2])

/-- The loop goes to the directory first, and the rest is up to the steps of the path. -/
lemma exists_normalize_steps (habs : fs.root.hasRoot = true)
    (hno : Component.parentDir ∉ fs.root.components) (path : PathBuf) :
    ∃ a : AbsPath, a.names = fs.root.lexical.names ∧
      fs.normalize path ⟨[]⟩
        (fs.root.push ((path.stripPrefix ⟨[slash]⟩).getD path)).components =
          fs.normalize path a.toPath path.steps := by
  obtain ⟨a, ha, hloop⟩ := @normalize_names fs path fs.root.lexical.names fs.root.lexical.valid
    path.steps AbsPath.root
  refine ⟨a, ha.trans (by simp [AbsPath.root]), ?_⟩
  rw [components_push_stripPrefix habs, ← components_lexical habs hno, AbsPath.components_toPath,
    List.cons_append, normalize_rootDir, hloop]

/-- A path that is not refused is inside of the directory and has no `..`; and a path that does
not climb above its beginning is not refused, and is the directory followed by the names that
are left of it. -/
theorem resolve_confined (fs : LocalFS) (habs : fs.root.hasRoot = true)
    (hroot : fs.root.components ≠ [.rootDir]) (hno : Component.parentDir ∉ fs.root.components)
    (path : PathBuf) :
    (∀ p, fs.resolve path = .ok p →
      p.startsWith fs.root = true ∧ Component.parentDir ∉ p.components) ∧
    (StaysBelow 0 path.components → ∃ p, fs.resolve path = .ok p ∧
      p.components = fs.root.components ++ path.lexical.names.map .normal) := by
  have hbase : fs.root.components = .rootDir :: fs.root.lexical.names.map .normal := by
    rw [← components_lexical habs hno, AbsPath.components_toPath]
  have hprefix := not_prefix_rootDir habs hroot hno
  have hsteps := fun c hc => isName_of_mem_steps (p := path) (c := c) hc
  obtain ⟨a, ha, hnormalize⟩ := exists_normalize_steps habs hno path
  rw [resolve, hnormalize]
  constructor
  · intro p hp
    cases hrun : fs.normalize path a.toPath path.steps with
    | error e => simp [hrun] at hp
    | ok normalized =>
      obtain ⟨b, rfl⟩ := exists_absPath_of_normalize hprefix hsteps hrun
      rw [hrun] at hp
      cases hin : b.toPath.startsWith fs.root with
      | false => simp [hin] at hp
      | true =>
        simp only [hin] at hp
        obtain rfl := Except.ok.inj hp
        refine ⟨hin, ?_⟩
        rw [AbsPath.components_toPath]
        simp
  · intro hbelow
    have hnames : a.names = fs.root.lexical.names ++ [] := ha.trans (List.append_nil _).symm
    have hsteps' : StaysBelow ([] : List Bytes).length path.steps := hbelow.filter_isStep
    obtain ⟨b, hb, hrun⟩ := normalize_follow path hprefix hbase hsteps hsteps' hnames
    have hcomps : b.toPath.components = fs.root.components ++ path.lexical.names.map .normal := by
      rw [AbsPath.components_toPath, hb, steps, follow_filter_isStep, hbase, List.map_append]
      rfl
    have hin : b.toPath.startsWith fs.root = true := by
      rw [PathBuf.startsWith_iff, hcomps]
      exact List.prefix_append _ _
    exact ⟨b.toPath, by simp [hrun, hin], hcomps⟩

/-- A path with a detour below the directory `/srv/data`. -/
theorem resolve_confined_detour :
    ∃ p, (LocalFS.mk ⟨ascii "/srv/data"⟩).resolve ⟨ascii "/a/../b"⟩ = .ok p ∧
      p.components = (PathBuf.mk (ascii "/srv/data")).components ++
        (PathBuf.mk (ascii "/a/../b")).lexical.names.map .normal :=
  (resolve_confined ⟨⟨ascii "/srv/data"⟩⟩ (by decide) (by decide) (by decide)
    ⟨ascii "/a/../b"⟩).2 (by decide)

/-- The directory itself may be left if the path comes back by its name at once. -/
example : ((LocalFS.mk ⟨ascii "/srv/data"⟩).resolve ⟨ascii "/../data/x"⟩).toOption.map bytes =
    some (ascii "/srv/data/x") := by decide

end LocalFS

end Racfs.LocalFs
