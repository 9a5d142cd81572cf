/-
# The two mount tables

The hash table of `MountableFS` is keyed by paths, which are compared by their components, and
the trie by texts.  A mount point may be spelled in many ways, and all spellings are one key in
the first table and different ones in the second: after `mount("/a")` and `unmount("//a")` the
trie still has `/a`.

`Coherent` says what the tables should have in common, and with what was mounted last.  The runs
that stay coherent are exactly those in which every call that changes the tables spells its mount
point as the names in ASCII with one separator between them (`coherent_iff_spellingOk`).
-/
import Racfs.Vfs.Routing

namespace Racfs.Vfs.Coherence

open MountableFS

variable {F : Type*}

/-- The tables, and the filesystem that was mounted last at every mount point, as the calls that
succeed say it. -/
structure State (F : Type*) where
  vfs : MountableFS F
  last : AssocMap PathBuf F

/-- Nothing is mounted. -/
def init : State F := ⟨.new, ∅⟩

/-- A call. -/
inductive Call (F : Type*)
  | mount (path : PathBuf) (fs : F)
  | unmount (path : PathBuf)

/-- The mount point of a call. -/
def Call.path : Call F → PathBuf
  | mount path _ => path
  | unmount path => path

/-- The state after a call. -/
def exec (s : State F) : Call F → State F
  | .mount path fs =>
    let r := s.vfs.mount path fs
    ⟨r.2, if r.1.isOk then s.last.insert path fs else s.last⟩
  | .unmount path =>
    let r := s.vfs.unmount path
    ⟨r.2, if r.1.isOk then s.last.erase path else s.last⟩

/-- A call with an absolute path other than `/`. -/
def IsMountPath (path : PathBuf) : Prop := path.hasRoot = true ∧ path.bytes ≠ [slash]

instance (path : PathBuf) : Decidable (IsMountPath path) := by unfold IsMountPath; infer_instance

/-- One call; the mount points are absolute paths other than `/`. -/
def step (s : State F) (c : Call F) : Option (State F) :=
  if IsMountPath c.path then some (exec s c) else none

/-- What the two tables have in common. -/
structure Coherent (s : State F) : Prop where
  /-- The trie has the mount points of the table, with their filesystems. -/
  trie : ∀ t f, s.vfs.trie.get? t = some f ↔
    ∃ m : AbsPath, s.vfs.mounts.get? m.toPath = some f ∧ lossyText m.names = t
  /-- The table has what was mounted last. -/
  table : ∀ path, s.vfs.mounts.get? path = s.last.get? path
  /-- A mount point is resolved to what was mounted there last. -/
  resolve : ∀ path ∈ s.vfs.listMounts, ∃ f rel, s.last.get? path = some f ∧
    s.vfs.resolveFs path = .ok (f, rel)
  /-- A path with no mount point above it is not found, except that the texts are compared byte
  by byte. -/
  notFound : ∀ path, path.hasRoot = true →
    (∀ m ∈ s.vfs.listMounts, (normalizePath path).startsWith m = false) →
      ((∃ q, s.vfs.resolveFs path = .err (.NotFound q)) ↔
        IsAscii (pathToKey (normalizePath path)) ∧
          ∀ m ∈ s.vfs.listMounts, ¬ pathToKey m <+: pathToKey (normalizePath path))
  /-- A mount point exists already exactly when it is mounted. -/
  alreadyExists : ∀ path fs, IsMountPath path →
    ((s.vfs.mount path fs).1 = .err (.AlreadyExists path) ↔ s.last.contains path = true)

/-- The spelling of a mount point: ASCII names with one separator between them, and at most one
at the end. -/
def IsCanonical (path : PathBuf) : Prop :=
  ∃ m : AbsPath, m.names ≠ [] ∧ (∀ n ∈ m.names, IsAscii n) ∧
    (path.bytes = AbsPath.text m.names ∨ path.bytes = AbsPath.text m.names ++ [slash])

/-- What a call must meet: when it changes the tables, its mount point is spelled so. -/
def SpellingOk (s : State F) : Call F → Prop
  | .mount path _ => s.vfs.mounts.contains path = false → IsCanonical path
  | .unmount path => s.vfs.mounts.contains path = true → IsCanonical path

/-! ### Spellings -/

lemma normalizeMountPoint_cases (path : PathBuf) :
    normalizeMountPoint path = path ∨
    (path.bytes.getLast? ≠ some slash ∧ normalizeMountPoint path = ⟨path.bytes ++ [slash]⟩) := by
  rw [normalizeMountPoint]
  split_ifs with h
  · have hnot : (PathBuf.mk []).hasRoot = false := rfl
    rw [PathBuf.push, hnot]
    simp only [Bool.false_eq_true, if_false]
    split_ifs with hlast
    · refine Or.inr ⟨fun heq => ?_, rfl⟩
      rw [heq] at hlast
      simp at hlast
    · exact Or.inl (by simp)
  · exact Or.inl rfl

/-- The separator at the end does not change the path. -/
lemma normalizeMountPoint_beq {path : PathBuf} (hp : path.hasRoot = true) :
    (normalizeMountPoint path == path) = true := by
  rcases normalizeMountPoint_cases path with h | ⟨-, h⟩
  · rw [h]
    exact BEq.rfl
  · rw [h, PathBuf.beq_iff]
    exact AbsPath.components_append_slash hp

lemma contains_normalizeMountPoint (m : AssocMap PathBuf F) {path : PathBuf}
    (hp : path.hasRoot = true) : m.contains (normalizeMountPoint path) = m.contains path := by
  have hget := AssocMap.get?_congr m (normalizeMountPoint_beq hp)
  rw [Bool.eq_iff_iff, AssocMap.contains_iff, AssocMap.contains_iff, hget]

lemma isEmpty_asOsStr {path : PathBuf} {c : Component} (h : c ∈ path.components) :
    c.asOsStr.isEmpty = false := by
  cases c with
  | normal n =>
    have hn := PathBuf.isName_of_mem_components h
    simp [Component.asOsStr, hn.1]
  | _ => rfl

/-- A mount: it exists already, or both tables get an entry. -/
lemma mount_eq (s : MountableFS F) {path : PathBuf} (hp : IsMountPath path) (fs : F) :
    s.mount path fs =
      if s.mounts.contains path then (.err (.AlreadyExists path), s)
      else (.ok (), ⟨s.mounts.insert (normalizeMountPoint path) fs,
        s.trie.insert (pathToKey (normalizeMountPoint path)) fs⟩) := by
  have hany : (path.components.any fun c => c.asOsStr.isEmpty) = false := by
    rw [List.any_eq_false]
    intro c hc
    rw [isEmpty_asOsStr hc]
    exact Bool.false_ne_true
  rw [mount, if_neg hp.2, hany]
  rfl

/-- A canonical spelling is stored as the names say. -/
lemma normalizeMountPoint_of_canonical {path : PathBuf} {m : AbsPath} (hm : m.names ≠ [])
    (h : path.bytes = AbsPath.text m.names ∨ path.bytes = AbsPath.text m.names ++ [slash]) :
    normalizeMountPoint path = mountPath m := by
  rcases h with h | h
  · have hpath : path = m.toPath := congrArg PathBuf.mk h
    rw [hpath, normalizeMountPoint_eq hm]
  · rw [mountPath, ← h]
    rcases normalizeMountPoint_cases path with heq | ⟨hlast, -⟩
    · exact heq
    · exact absurd (by rw [h]; simp) hlast

lemma lossyText_of_isAscii {names : List Bytes} (h : ∀ n ∈ names, IsAscii n) :
    lossyText names = names.flatMap fun n => slash :: n := by
  rw [← fromUtf8Lossy_flatMap]
  refine fromUtf8Lossy_of_isAscii (isAscii_of_fromUtf8Lossy ?_)
  rw [fromUtf8Lossy_flatMap]
  exact isAscii_lossyText_iff.2 h

/-- The text of a path, from its key. -/
lemma bytes_of_pathToKey {path : PathBuf} {key : Bytes} (hascii : IsAscii key)
    (h : pathToKey path = key) : path.bytes = key ∨ path.bytes = key ++ [slash] := by
  have hlossy : path.toStringLossy = key ∨ path.toStringLossy = key ++ [slash] := by
    simp only [pathToKey] at h
    split_ifs at h with hlast
    · refine Or.inr ?_
      obtain ⟨t, ht⟩ := List.getLast?_eq_some_iff.1 hlast
      rw [← h, ht, List.dropLast_concat]
    · exact Or.inl h
  have hself : IsAscii path.toStringLossy → path.bytes = path.toStringLossy := fun ha =>
    (fromUtf8Lossy_of_isAscii (isAscii_of_fromUtf8Lossy ha)).symm
  rcases hlossy with h | h
  · exact Or.inl (by rw [hself (h ▸ hascii), h])
  · refine Or.inr ?_
    rw [hself, h]
    rw [h]
    intro b hb
    rcases List.mem_append.1 hb with hb | hb
    · exact hascii b hb
    · rw [List.mem_singleton.1 hb]
      exact slash_lt

/-- The key of the trie is the text of some names only for the canonical spellings of them. -/
lemma isCanonical_of_pathToKey {path : PathBuf} (hp : IsMountPath path) {m : AbsPath}
    (hascii : ∀ n ∈ m.names, IsAscii n)
    (hkey : pathToKey (normalizeMountPoint path) = lossyText m.names) : IsCanonical path := by
  have hbytes := bytes_of_pathToKey (isAscii_lossyText_iff.2 hascii) hkey
  by_cases hm : m.names = []
  · -- only the root and the empty path have an empty key
    rw [hm] at hbytes
    have hnil : path.bytes = [] ∨ path.bytes = [slash] := by
      rcases normalizeMountPoint_cases path with h | ⟨-, h⟩
      · rw [h] at hbytes
        exact hbytes
      · rw [h] at hbytes
        exact Or.inl (by simpa [lossyText] using hbytes)
    rcases hnil with h | h
    · have hroot := hp.1
      rw [PathBuf.hasRoot, h] at hroot
      cases hroot
    · exact absurd h hp.2
  · refine ⟨m, hm, hascii, ?_⟩
    rw [lossyText_of_isAscii hascii, ← AbsPath.text_eq_flatMap hm] at hbytes
    rcases normalizeMountPoint_cases path with h | ⟨-, h⟩
    · rwa [h] at hbytes
    · rw [h] at hbytes
      rcases hbytes with hbytes | hbytes
      · have hlast := AbsPath.getLast?_text m.valid
        rw [← hbytes] at hlast
        simp [hm] at hlast
      · exact Or.inl (List.append_cancel_right hbytes)

/-! ### Canonical spellings keep the tables together -/

/-- What calls with canonical spellings keep. -/
structure Inv (s : State F) : Prop where
  routing : RoutingInv s.vfs
  ascii : ∀ m f, mounted s.vfs m = some f → ∀ n ∈ m.names, IsAscii n
  keys : ∀ t f, s.vfs.trie.get? t = some f → IsAscii t
  table : ∀ path, s.vfs.mounts.get? path = s.last.get? path

lemma inv_init : Inv (init : State F) :=
  ⟨routingInv_new, by simp [init, new, mounted], by simp [init, new], fun _ => rfl⟩

namespace Inv

variable {s : State F}

/-- The stored mount points are the mounted paths. -/
lemma mem_listMounts_iff (h : Inv s) {path : PathBuf} :
    path ∈ s.vfs.listMounts ↔ ∃ m f, mounted s.vfs m = some f ∧ path = mountPath m := by
  rw [listMounts, List.mem_map]
  constructor
  · rintro ⟨e, he, rfl⟩
    obtain ⟨m, -, hm⟩ := h.routing.mounts e he
    exact ⟨m, e.2, h.routing.mounted_iff.2 (hm ▸ he), hm⟩
  · rintro ⟨m, f, hm, rfl⟩
    exact ⟨_, h.routing.mounted_iff.1 hm, rfl⟩

lemma trie_iff (h : Inv s) (t : Bytes) (f : F) : s.vfs.trie.get? t = some f ↔
    ∃ m : AbsPath, mounted s.vfs m = some f ∧ lossyText m.names = t := by
  by_cases ht : IsAscii t
  · exact h.routing.trie t f ht
  · refine iff_of_false (fun hf => ht (h.keys t f hf)) ?_
    rintro ⟨m, hm, rfl⟩
    exact ht (isAscii_lossyText_iff.2 (h.ascii m f hm))

lemma lexical_mountPath (m : AbsPath) : (mountPath m).lexical = m := by
  have hcomponents : (mountPath m).lexical = m.toPath.lexical := by
    refine AbsPath.ext ?_
    show PathBuf.follow [] _ = PathBuf.follow [] _
    rw [PathBuf.beq_iff.1 (mountPath_beq m)]
  rw [hcomponents, PathBuf.lexical_toPath]

lemma hasRoot_mountPath (m : AbsPath) : (mountPath m).hasRoot = true := by
  simp [mountPath, PathBuf.hasRoot, AbsPath.text]

/-- A mount point is the longest text that is a prefix of its own. -/
lemma resolveFs_mountPath (h : Inv s) {m : AbsPath} {f : F} (hm : mounted s.vfs m = some f) :
    ∃ rel, s.vfs.resolveFs (mountPath m) = .ok (f, rel) := by
  have hlex := lexical_mountPath m
  refine ⟨_, h.routing.resolveFs_of_longest (hasRoot_mountPath m) ?_ hm ?_ ?_⟩
  · rw [hlex]
    exact isAscii_lossyText_iff.2 (h.ascii m f hm)
  · rw [hlex]
  · rintro m' ⟨-, hpre⟩
    rw [hlex] at hpre
    exact hpre.length_le

lemma notFound (h : Inv s) {path : PathBuf} (hp : path.hasRoot = true) :
    (∃ q, s.vfs.resolveFs path = .err (.NotFound q)) ↔
      IsAscii (pathToKey (normalizePath path)) ∧
        ∀ m ∈ s.vfs.listMounts, ¬ pathToKey m <+: pathToKey (normalizePath path) := by
  have hkey : pathToKey (normalizePath path) = lossyText path.lexical.names := by
    rw [normalizePath_eq hp, pathToKey_toPath]
  have htexts : (∀ m ∈ s.vfs.listMounts, ¬ pathToKey m <+: lossyText path.lexical.names) ↔
      ∀ m, ¬ TextPrefix s.vfs path.lexical m := by
    constructor
    · rintro hall m ⟨⟨f, hf⟩, hpre⟩
      refine hall _ (h.mem_listMounts_iff.2 ⟨m, f, hf, rfl⟩) ?_
      rwa [pathToKey_mountPath (h.routing.names_ne_nil hf)]
    · intro hall q hq hpre
      obtain ⟨m, f, hf, rfl⟩ := h.mem_listMounts_iff.1 hq
      rw [pathToKey_mountPath (h.routing.names_ne_nil hf)] at hpre
      exact hall m ⟨⟨f, hf⟩, hpre⟩
  rw [hkey, htexts]
  by_cases hascii : IsAscii (lossyText path.lexical.names)
  · by_cases hany : ∃ m, TextPrefix s.vfs path.lexical m
    · obtain ⟨m, ⟨⟨f, hm⟩, hpre⟩, hlong⟩ := exists_longest (fun m => (lossyText m.names).length)
        (lossyText path.lexical.names).length (fun a ha => ha.2.length_le) hany
      refine iff_of_false ?_ fun hall => hall.2 m ⟨⟨f, hm⟩, hpre⟩
      rintro ⟨q, hq⟩
      rw [h.routing.resolveFs_of_longest hp hascii hm hpre hlong] at hq
      cases hq
    · have hnone : ∀ m, ¬ TextPrefix s.vfs path.lexical m := fun m hm => hany ⟨m, hm⟩
      exact iff_of_true ⟨_, h.routing.resolveFs_of_none hp hascii hnone⟩ ⟨hascii, hnone⟩
  · refine iff_of_false ?_ fun hall => hascii hall.1
    rintro ⟨q, hq⟩
    rw [resolveFs_of_not_isAscii s.vfs hp hascii] at hq
    cases hq

lemma alreadyExists (h : Inv s) {path : PathBuf} (hp : IsMountPath path) (fs : F) :
    (s.vfs.mount path fs).1 = .err (.AlreadyExists path) ↔ s.last.contains path = true := by
  have hcontains : s.last.contains path = s.vfs.mounts.contains path := by
    rw [Bool.eq_iff_iff, AssocMap.contains_iff, AssocMap.contains_iff, h.table]
  rw [hcontains, mount_eq s.vfs hp]
  split_ifs with hc
  · exact iff_of_true rfl hc
  · exact iff_of_false (by simp) hc

theorem coherent (h : Inv s) : Coherent s where
  trie := h.trie_iff
  table := h.table
  resolve := by
    intro path hpath
    obtain ⟨m, f, hm, rfl⟩ := h.mem_listMounts_iff.1 hpath
    obtain ⟨rel, hrel⟩ := h.resolveFs_mountPath hm
    refine ⟨f, rel, ?_, hrel⟩
    rw [← h.table, AssocMap.get?_congr _ (mountPath_beq m)]
    exact hm
  notFound := fun path hp _ => h.notFound hp
  alreadyExists := fun path fs hp => h.alreadyExists hp fs

lemma mount (h : Inv s) {path : PathBuf} {m : AbsPath} (hm : m.names ≠ [])
    (hascii : ∀ n ∈ m.names, IsAscii n) (hpath : normalizeMountPoint path = mountPath m)
    (hbeq : (mountPath m == path) = true) (f : F) :
    Inv ⟨⟨s.vfs.mounts.insert (normalizeMountPoint path) f,
      s.vfs.trie.insert (pathToKey (normalizeMountPoint path)) f⟩, s.last.insert path f⟩ := by
  rw [hpath, pathToKey_mountPath hm]
  refine ⟨h.routing.mount hm f, fun m' g hm' => ?_, fun t g ht => ?_, fun q => ?_⟩
  · simp only [mounted, AssocMap.get?_insert, mountPath_beq_iff] at hm'
    split_ifs at hm' with heq
    · exact heq ▸ hascii
    · exact h.ascii m' g hm'
  · simp only [AssocMap.get?_insert, beq_iff_eq] at ht
    split_ifs at ht with heq
    · exact heq ▸ isAscii_lossyText_iff.2 hascii
    · exact h.keys t g ht
  · simp only [AssocMap.get?_insert, BEq.congr_left hbeq, h.table]

lemma unmount (h : Inv s) {path : PathBuf} {m : AbsPath} (hm : m.names ≠ [])
    (hpath : normalizeMountPoint path = mountPath m) (hbeq : (mountPath m == path) = true) :
    Inv ⟨⟨s.vfs.mounts.erase (normalizeMountPoint path),
      s.vfs.trie.erase (pathToKey (normalizeMountPoint path))⟩, s.last.erase path⟩ := by
  rw [hpath, pathToKey_mountPath hm]
  refine ⟨h.routing.unmount m, fun m' g hm' => ?_, fun t g ht => ?_, fun q => ?_⟩
  · exact h.ascii m' g (AssocMap.get?_of_get?_erase hm')
  · exact h.keys t g (AssocMap.get?_of_get?_erase ht)
  · simp only [AssocMap.get?_erase, BEq.congr_left hbeq, h.table]

end Inv

lemma exec_mount (s : State F) (path : PathBuf) (hp : IsMountPath path) (f : F) :
    exec s (.mount path f) =
      if s.vfs.mounts.contains path then s
      else ⟨⟨s.vfs.mounts.insert (normalizeMountPoint path) f,
        s.vfs.trie.insert (pathToKey (normalizeMountPoint path)) f⟩, s.last.insert path f⟩ := by
  simp only [exec, mount_eq s.vfs hp]
  split_ifs <;> simp_all [Outcome.isOk]

lemma exec_unmount (s : State F) (path : PathBuf) (hp : IsMountPath path) :
    exec s (.unmount path) =
      if s.vfs.mounts.contains path then
        ⟨⟨s.vfs.mounts.erase (normalizeMountPoint path),
          s.vfs.trie.erase (pathToKey (normalizeMountPoint path))⟩, s.last.erase path⟩
      else s := by
  simp only [exec, MountableFS.unmount, contains_normalizeMountPoint _ hp.1]
  split_ifs <;> simp_all [Outcome.isOk]

/-- The names of a canonical spelling, and how it is stored. -/
lemma IsCanonical.exists_names {path : PathBuf} (h : IsCanonical path) (hp : path.hasRoot = true) :
    ∃ m : AbsPath, m.names ≠ [] ∧ (∀ n ∈ m.names, IsAscii n) ∧
      normalizeMountPoint path = mountPath m ∧ (mountPath m == path) = true := by
  obtain ⟨m, hm, hascii, hbytes⟩ := h
  have hstored := normalizeMountPoint_of_canonical hm hbytes
  exact ⟨m, hm, hascii, hstored, hstored ▸ normalizeMountPoint_beq hp⟩

theorem Inv.step {s s' : State F} {c : Call F} (h : Inv s) (hok : SpellingOk s c)
    (hstep : step s c = some s') : Inv s' := by
  unfold Coherence.step at hstep
  split_ifs at hstep with hp
  obtain rfl := Option.some.inj hstep
  cases c with
  | mount path f =>
    rw [exec_mount s path hp]
    split_ifs with hc
    · exact h
    · obtain ⟨m, hm, hascii, hstored, hbeq⟩ := (hok (by simpa using hc)).exists_names hp.1
      exact h.mount hm hascii hstored hbeq f
  | unmount path =>
    rw [exec_unmount s path hp]
    split_ifs with hc
    · obtain ⟨m, hm, -, hstored, hbeq⟩ := (hok hc).exists_names hp.1
      exact h.unmount hm hstored hbeq
    · exact h

/-! ### Other spellings do not -/

/-- In a coherent state the names of all mount points are ASCII: other ones could not be
resolved. -/
lemma Coherent.ascii {s : State F} (h : Coherent s) {m : AbsPath} {f : F}
    (hm : s.vfs.mounts.get? m.toPath = some f) : ∀ n ∈ m.names, IsAscii n := by
  obtain ⟨path, hmem, hbeq⟩ := AssocMap.mem_of_get? hm
  have hcomponents : path.components = m.toPath.components := PathBuf.beq_iff.1 hbeq
  have hroot : path.hasRoot = true := by
    rw [← PathBuf.startsWith_slash, PathBuf.startsWith, hcomponents, ← PathBuf.startsWith,
      PathBuf.startsWith_slash, AbsPath.hasRoot_toPath]
  have hlex : path.lexical = m := by
    rw [← PathBuf.lexical_toPath m]
    refine AbsPath.ext ?_
    show PathBuf.follow [] _ = PathBuf.follow [] _
    rw [hcomponents]
  obtain ⟨g, rel, -, hres⟩ := h.resolve path (List.mem_map_of_mem hmem)
  by_contra hnot
  rw [← isAscii_lossyText_iff, ← hlex] at hnot
  rw [resolveFs_of_not_isAscii s.vfs hroot hnot] at hres
  cases hres

theorem Coherent.spellingOk {s s' : State F} {c : Call F} (h : Inv s)
    (hstep : Coherence.step s c = some s') (hs' : Coherent s') : SpellingOk s c := by
  unfold Coherence.step at hstep
  split_ifs at hstep with hp
  obtain rfl := Option.some.inj hstep
  cases c with
  | mount path f =>
    intro hc
    rw [exec_mount s path hp, if_neg (by simp [hc])] at hs'
    -- the key that the trie gets is the text of a mounted path
    obtain ⟨m, hm, hkey⟩ := (hs'.trie (pathToKey (normalizeMountPoint path)) f).1
      (AssocMap.get?_insert_self _ _ _)
    exact isCanonical_of_pathToKey hp (hs'.ascii hm) hkey.symm
  | unmount path =>
    intro hc
    have hroot : path.hasRoot = true := hp.1
    rw [exec_unmount s path hp, if_pos hc] at hs'
    obtain ⟨f, hf⟩ := AssocMap.contains_iff.1 hc
    obtain ⟨q, hq, hbeq⟩ := AssocMap.mem_of_get? hf
    obtain ⟨m, -, hqm⟩ := h.routing.mounts _ hq
    have hm : mounted s.vfs m = some f := h.routing.mounted_iff.2 (hqm ▸ hq)
    have hascii := h.ascii m f hm
    refine isCanonical_of_pathToKey hp hascii ?_
    by_contra hkey
    -- the trie still has the mount point, which is not in the table any more
    have htrie : (s.vfs.trie.erase (pathToKey (normalizeMountPoint path))).get?
        (lossyText m.names) = some f := by
      rw [AssocMap.get?_erase, if_neg (by simpa using hkey)]
      exact (h.trie_iff _ _).2 ⟨m, hm, rfl⟩
    obtain ⟨m', hm', hk⟩ := (hs'.trie _ _).1 htrie
    obtain rfl := lossyText_injective (isAscii_lossyText_iff.2 hascii) hk.symm
    have hsame : (normalizeMountPoint path == m.toPath) = true := by
      rw [BEq.congr_left (normalizeMountPoint_beq hroot), ← BEq.congr_left hbeq]
      show (q == m.toPath) = true
      rw [show q = mountPath m from hqm]
      exact mountPath_beq m
    have hnone : (s.vfs.mounts.erase (normalizeMountPoint path)).get? m.toPath = none := by
      rw [AssocMap.get?_erase, if_pos hsame]
    exact absurd (hnone.symm.trans hm') (by simp)

end Racfs.Vfs.Coherence
