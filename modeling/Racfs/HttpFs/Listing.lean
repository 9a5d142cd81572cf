/-
# Directories as in a tree

A listing of a directory should have each stored child once, with its own type and size, and
nothing else, in whatever order the table is iterated (`ListsChildren`).  `readDir` takes the
first stored path with a name for the entry of that name, and this may be a path further below,
or one beside the directory whose text continues the directory's.  So a listing is right in
every order exactly if all of these agree with the child of that name (`Consistent`).

`removeAll` should remove a path with what is below it (`RemovesTree`), but it keeps the path
itself.
-/
import Racfs.HttpFs.Cache
import Racfs.MemFs.Listing

namespace Racfs.HttpFs

open HttpFS
open MemFs (dirText TextBelow relative ChildOf childOf_toPath_iff fromUtf8Lossy_of_mem_names)

variable {fs : HttpFS} {d : PathBuf}

/-! ### The rows of a listing -/

/-- What a listing says about a path: its components, and the type and the size of what is
there. -/
def row (p : PathBuf) (m : FileMetadata) : List Component × UInt32 × UInt64 :=
  (p.components, m.mode &&& S_IFMT, m.size)

/-- The rows of the stored children of a directory. -/
def HttpFS.children (fs : HttpFS) (d : PathBuf) : List (List Component × UInt32 × UInt64) :=
  (fs.files.entries.filter fun x => ChildOf d x.1).map fun x => row x.1 x.2.metadata

/-- The listing has each child once, with its own type and size, and nothing else. -/
def ListsChildren (fs : HttpFS) (d : PathBuf) (listing : List FileMetadata) : Prop :=
  (listing.map fun m => row m.path m).Perm (fs.children d)

instance (listing : List FileMetadata) : Decidable (ListsChildren fs d listing) := by
  unfold ListsChildren
  infer_instance

/-- The name under which a listing has a stored path, if it has it at all. -/
def listedName (d p : PathBuf) : Option Bytes :=
  if TextBelow d p then firstName (relative (dirText d) p) else none

/-- What is listed under a name has the type and the size of the child of that name, and every
child is listed. -/
structure Consistent (fs : HttpFS) (d : PathBuf) : Prop where
  shown : ∀ x ∈ fs.files.entries, ∀ n, listedName d x.1 = some n →
    row (childPath (dirText d) n) x.2.metadata ∈ fs.children d
  found : ∀ y ∈ fs.files.entries, ChildOf d y.1 → ∃ x ∈ fs.files.entries, ∃ n,
    listedName d x.1 = some n ∧ (y.1 == childPath (dirText d) n) = true

lemma readDir_eq (entries : List (PathBuf × FileEntry)) (d : PathBuf) :
    readDir entries d = (unseen (fun x => listedName d x.1) [] entries).map fun x =>
      { x.1.2.metadata with path := childPath (dirText d) x.2 } := by
  have hname : (fun x : PathBuf × FileEntry =>
      if ((dirText d).isPrefixOf x.1.toStringLossy && x.1.toStringLossy != dirText d) = true then
        firstName (relative (dirText d) x.1) else none) = fun x => listedName d x.1 := by
    funext x
    refine if_congr ?_ rfl rfl
    rw [Bool.and_eq_true, List.isPrefixOf_iff_prefix, bne_iff_ne, TextBelow]
  rw [← hname, ← unseen_filter]
  rfl

/-- The rows of a listing. -/
lemma map_row_readDir (entries : List (PathBuf × FileEntry)) (d : PathBuf) :
    (readDir entries d).map (fun m => row m.path m) =
      (unseen (fun x => listedName d x.1) [] entries).map fun x =>
        row (childPath (dirText d) x.2) x.1.2.metadata := by
  rw [readDir_eq, List.map_map]
  rfl

/-! ### The names -/

lemma isName_firstName {p : PathBuf} {n : Bytes} (h : firstName p = some n) : IsName n := by
  rw [firstName] at h
  split_ifs at h
  obtain ⟨c, hc, rfl⟩ := Option.map_eq_some_iff.1 h
  have hnormal := List.find?_some hc
  cases c with
  | normal m =>
    exact isName_fromUtf8Lossy (PathBuf.isName_of_mem_components (List.mem_of_find?_eq_some hc))
  | rootDir => cases hnormal
  | curDir => cases hnormal
  | parentDir => cases hnormal

lemma isName_listedName {p : PathBuf} {n : Bytes} (h : listedName d p = some n) : IsName n := by
  rw [listedName] at h
  split_ifs at h
  exact isName_firstName h

/-- Different names are shown at different paths. -/
lemma childPath_injOn {pre n n' : Bytes} (hn : IsName n) (hn' : IsName n')
    (h : (childPath pre n).components = (childPath pre n').components) : n = n' := by
  rw [childPath, childPath, PathBuf.components_push_name _ hn,
    PathBuf.components_push_name _ hn'] at h
  simpa using List.append_cancel_left h

lemma nodup_rows (entries : List (PathBuf × FileEntry)) (d : PathBuf) :
    ((readDir entries d).map fun m => row m.path m).Nodup := by
  rw [map_row_readDir]
  refine List.Nodup.of_map Prod.fst ?_
  have hmap : (((unseen (fun x : PathBuf × FileEntry => listedName d x.1) [] entries).map fun x =>
      row (childPath (dirText d) x.2) x.1.2.metadata).map Prod.fst) =
        ((unseen (fun x => listedName d x.1) [] entries).map Prod.snd).map fun n =>
          (childPath (dirText d) n).components := by
    rw [List.map_map, List.map_map]
    rfl
  rw [hmap]
  have hnames : ∀ n ∈ (unseen (fun x : PathBuf × FileEntry => listedName d x.1) [] entries).map
      Prod.snd, IsName n := by
    intro n hn
    obtain ⟨x, hx, rfl⟩ := List.mem_map.1 hn
    exact isName_listedName (of_mem_unseen hx).2.1
  exact List.Nodup.map_on (fun n hn n' hn' h => childPath_injOn (hnames n hn) (hnames n' hn') h)
    (nodup_unseen [] entries)

/-- The children have different paths. -/
lemma nodup_children (fs : HttpFS) (d : PathBuf) : ((fs.children d).map Prod.fst).Nodup := by
  rw [children, List.map_map, List.Nodup, List.pairwise_map]
  refine (fs.files.distinct.filter _).imp fun hne heq => ?_
  rw [PathBuf.beq_iff.2 heq] at hne
  cases hne

/-! ### Listings in every order -/

/-- A listing is right in every order exactly if the entries agree with the children. -/
lemma lists_iff (fs : HttpFS) (d : PathBuf) :
    (∀ entries, entries.Perm fs.files.entries → ListsChildren fs d (readDir entries d)) ↔
      Consistent fs d := by
  constructor
  · intro h
    refine ⟨?_, fun y hy hchild => ?_⟩
    · refine forall_unseen_iff.1 fun entries hperm x hx => ?_
      refine (h entries hperm).mem_iff.1 ?_
      rw [map_row_readDir]
      exact List.mem_map_of_mem hx
    · have hrow : row y.1 y.2.metadata ∈ fs.children d :=
        List.mem_map_of_mem (List.mem_filter.2 ⟨hy, by simpa using hchild⟩)
      rw [← (h _ (List.Perm.refl _)).mem_iff, map_row_readDir] at hrow
      obtain ⟨x, hx, heq⟩ := List.mem_map.1 hrow
      obtain ⟨hmem, hname, -⟩ := of_mem_unseen hx
      exact ⟨x.1, hmem, x.2, hname, PathBuf.beq_iff.2 (congrArg Prod.fst heq).symm⟩
  · intro h entries hperm
    refine (List.perm_ext_iff_of_nodup (nodup_rows entries d)
      (.of_map Prod.fst (nodup_children fs d))).2 fun r => ?_
    rw [map_row_readDir]
    constructor
    · intro hr
      obtain ⟨x, hx, rfl⟩ := List.mem_map.1 hr
      obtain ⟨hmem, hname, -⟩ := of_mem_unseen hx
      exact h.shown x.1 (hperm.mem_iff.1 hmem) x.2 hname
    · intro hr
      obtain ⟨y, hy, rfl⟩ := List.mem_map.1 hr
      obtain ⟨hy, hchild⟩ := List.mem_filter.1 hy
      obtain ⟨x, hx, n, hname, heq⟩ := h.found y hy (by simpa using hchild)
      have hkept : ∃ b, (b, n) ∈ unseen (fun x => listedName d x.1) [] entries :=
        exists_mem_unseen (hperm.mem_iff.2 hx) hname (by simp)
      obtain ⟨b, hb⟩ := hkept
      -- what stands for the name agrees with the child of this path, which is `y`
      obtain ⟨hmem, hbname, -⟩ := of_mem_unseen hb
      have hrow := h.shown b (hperm.mem_iff.1 hmem) n hbname
      exact List.mem_map.2 ⟨(b, n), hb, List.inj_on_of_nodup_map (nodup_children fs d) hrow hr
        (PathBuf.beq_iff.1 heq).symm⟩

/-! ### Paths in their normal spelling -/

/-- The paths of the table are spelled as they are normalized, and they are texts. -/
def HttpFS.WellKeyed (fs : HttpFS) : Prop :=
  ∀ k ∈ fs.files.keys, ∃ p : AbsPath, k = p.toPath ∧ p.toPath.IsText

/-- The name that follows the directory in a path below it.  For a path beside the directory whose
text continues the directory's, it is the first name of the path. -/
def nextName (d p : AbsPath) : Option Bytes :=
  if d.names <+: p.names then (p.names.drop d.names.length).head?
  else if d.toPath.bytes <+: p.toPath.bytes then p.names.head?
  else none

/-- The two have the same type and the same size. -/
def Alike (e e' : FileEntry) : Prop :=
  e.metadata.mode &&& S_IFMT = e'.metadata.mode &&& S_IFMT ∧ e.metadata.size = e'.metadata.size

section NormalPaths

variable {p : AbsPath}

lemma head?_find?_normal {names : List Bytes} (htext : ∀ n ∈ names, fromUtf8Lossy n = n) :
    ((names.map Component.normal).find? Component.isNormal).map
      (fun c => fromUtf8Lossy c.asOsStr) = names.head? := by
  cases names with
  | nil => rfl
  | cons n names =>
    rw [List.map_cons, List.find?_cons_of_pos rfl, Option.map_some, List.head?_cons]
    exact congrArg some (htext n List.mem_cons_self)

lemma firstName_toPath (hp : p.toPath.IsText) : firstName p.toPath = p.names.head? := by
  have hroot : p.toPath.bytes = ascii "/" ↔ p.names = [] := AbsPath.text_eq_iff p
  rw [firstName]
  split_ifs with hbytes
  · rw [hroot.1 hbytes]
    rfl
  · rw [AbsPath.components_toPath, List.find?_cons_of_neg (by simp [Component.isNormal])]
    exact head?_find?_normal fun n hn => fromUtf8Lossy_of_mem_names hp hn

/-- What is left of a path below the directory. -/
lemma firstName_relative (hp : p.toPath.IsText) (hne : d.bytes ≠ []) {ms rest : List Bytes}
    (hd : d.components = .rootDir :: ms.map .normal) (h : p.names = ms ++ rest) :
    firstName (relative d.bytes p.toPath) = rest.head? := by
  have hstarts : p.toPath.startsWith d = true := by
    rw [PathBuf.startsWith_iff, AbsPath.components_toPath, hd, h, List.map_append]
    exact ⟨rest.map .normal, rfl⟩
  have hdrop : p.toPath.components.drop d.components.length = rest.map .normal := by
    rw [AbsPath.components_toPath, hd, h, List.map_append, ← List.cons_append, List.drop_left]
  have hsteps : ∀ c ∈ rest.map Component.normal,
      c = .parentDir ∨ ∃ n, c = .normal n ∧ IsName n := by
    intro c hc
    obtain ⟨n, hn, rfl⟩ := List.mem_map.1 hc
    exact Or.inr ⟨n, rfl, p.valid n (by simp [h, hn])⟩
  obtain ⟨hcomps, hroot⟩ := PathBuf.components_ofComponents hsteps
  have hrel : relative d.bytes p.toPath = PathBuf.ofComponents (rest.map .normal) := by
    rw [relative, if_neg hne, PathBuf.stripPrefix, if_pos hstarts, Option.getD_some, hdrop]
  have hbytes : (PathBuf.ofComponents (rest.map .normal)).bytes ≠ ascii "/" := by
    intro heq
    rw [PathBuf.hasRoot, heq] at hroot
    cases hroot
  rw [hrel, firstName, if_neg hbytes, hcomps]
  exact head?_find?_normal fun n hn => fromUtf8Lossy_of_mem_names hp (by simp [h, hn])

/-- The name under which a normal path is listed. -/
lemma listedName_toPath {d : AbsPath} (hd : d.toPath.IsText) (hp : p.toPath.IsText) :
    listedName d.toPath p.toPath = nextName d p := by
  have hptext : p.toPath.toStringLossy = AbsPath.text p.names := hp
  have hdtext : d.toPath.toStringLossy = AbsPath.text d.names := hd
  rw [listedName, nextName]
  by_cases hroot : d.names = []
  · have hpre : dirText d.toPath = [] := by
      rw [dirText, if_pos (by rw [hdtext, hroot]; rfl)]
    have hbelow : TextBelow d.toPath p.toPath := by
      rw [TextBelow, hpre, hptext]
      exact ⟨List.nil_prefix, List.cons_ne_nil _ _⟩
    rw [if_pos hbelow, hpre, relative, if_pos rfl, firstName_toPath hp, hroot,
      if_pos List.nil_prefix]
    rfl
  · have hpre : dirText d.toPath = d.toPath.bytes := by
      rw [dirText, hdtext, if_neg (mt (AbsPath.text_eq_iff d).1 hroot)]
      rfl
    have hne : d.toPath.bytes ≠ [] := List.cons_ne_nil _ _
    have hcomps := AbsPath.components_toPath d
    have hbelow : TextBelow d.toPath p.toPath ↔ d.toPath.bytes <+: p.toPath.bytes ∧ p ≠ d := by
      rw [TextBelow, hpre, hptext]
      exact and_congr_right fun _ => not_congr AbsPath.text_inj
    rw [hpre]
    by_cases hunder : d.names <+: p.names
    · rw [if_pos hunder]
      obtain ⟨rest, hrest⟩ := hunder
      rw [firstName_relative hp hne hcomps hrest.symm, ← hrest, List.drop_left, ite_eq_left_iff,
        hbelow]
      intro hnot
      cases rest with
      | nil => rfl
      | cons n rest =>
        -- a path strictly below has a longer text
        refine absurd ⟨?_, ?_⟩ hnot
        · have htexts : d.toPath.toStringLossy <+: p.toPath.toStringLossy :=
            prefix_toStringLossy ⟨n :: rest, hrest⟩
          rwa [hdtext, hptext] at htexts
        · rintro rfl
          simp at hrest
    · have hpd : p ≠ d := by
        rintro rfl
        exact hunder List.prefix_rfl
      have hstarts : p.toPath.startsWith d.toPath = false := by
        rw [← Bool.not_eq_true, AbsPath.startsWith_iff]
        exact hunder
      have hrel : relative d.toPath.bytes p.toPath = p.toPath :=
        MemFs.relative_of_not_startsWith (Or.inr hstarts)
      rw [if_neg hunder, hrel, firstName_toPath hp]
      exact if_congr (hbelow.trans (and_iff_left hpd)) rfl rfl

lemma childPath_eq_iff {d c : AbsPath} (hd : d.toPath.IsText) {n : Bytes} (hn : IsName n) :
    c.toPath.components = (childPath (dirText d.toPath) n).components ↔
      c.names = d.names ++ [n] := by
  have hbase : (PathBuf.mk (if dirText d.toPath = [] then ascii "/" else dirText d.toPath)) =
      d.toPath := by
    have hdtext : d.toPath.toStringLossy = d.toPath.bytes := hd
    rw [dirText, hdtext]
    by_cases hroot : d.toPath.bytes = [slash]
    · rw [if_pos hroot, if_pos rfl]
      exact congrArg PathBuf.mk hroot.symm
    · have hne : d.toPath.bytes ≠ [] := List.cons_ne_nil _ _
      rw [if_neg hroot, if_neg hne]
  rw [childPath, hbase, PathBuf.components_push_name _ hn, AbsPath.components_toPath,
    AbsPath.components_toPath, List.cons_append, List.cons.injEq, and_iff_right rfl]
  constructor
  · intro h
    refine AbsPath.map_normal_injective (h.trans ?_)
    rw [List.map_append]
    rfl
  · intro h
    rw [h, List.map_append]
    rfl

/-- With normal paths a listing is right in every order exactly if each path that is listed under a
name has the type and the size of the child of that name.  For the paths below a child it means
that they are like the child, and of the paths beside the directory none may have a text that
continues the directory's unless it happens to be like a child. -/
theorem lists_iff_of_wellKeyed (hkeys : fs.WellKeyed) {d : AbsPath} (hd : d.toPath.IsText) :
    (∀ entries, entries.Perm fs.files.entries →
      ListsChildren fs d.toPath (readDir entries d.toPath)) ↔
    ∀ (p : AbsPath) (e : FileEntry), fs.files.get? p.toPath = some e → ∀ n, nextName d p = some n →
      ∃ (c : AbsPath) (e' : FileEntry), c.names = d.names ++ [n] ∧
        fs.files.get? c.toPath = some e' ∧ Alike e e' := by
  have hkey : ∀ x ∈ fs.files.entries, ∃ p : AbsPath, x.1 = p.toPath ∧ p.toPath.IsText :=
    fun x hx => hkeys x.1 (List.mem_map_of_mem hx)
  have hstored : ∀ x ∈ fs.files.entries, fs.files.get? x.1 = some x.2 :=
    fun x hx => AssocMap.get?_of_mem hx
  rw [lists_iff]
  constructor
  · intro h p e he n hn
    obtain ⟨a, ha, hap⟩ := AssocMap.mem_of_get? he
    obtain ⟨q, rfl, hq⟩ := hkey _ ha
    obtain rfl := AbsPath.toPath_beq_iff.1 hap
    have hname := (listedName_toPath hd hq).trans hn
    have hrow := h.shown _ ha n hname
    obtain ⟨y, hy, hyrow⟩ := List.mem_map.1 hrow
    have hy := List.mem_of_mem_filter hy
    obtain ⟨c, hyc, -⟩ := hkey y hy
    obtain ⟨hcomps, halike⟩ := Prod.mk.inj hyrow
    rw [hyc, childPath_eq_iff hd (isName_listedName hname)] at hcomps
    exact ⟨c, y.2, hcomps, hyc ▸ hstored y hy, (Prod.mk.inj halike).1.symm,
      (Prod.mk.inj halike).2.symm⟩
  · intro h
    refine ⟨fun x hx n hn => ?_, fun y hy hchild => ?_⟩
    · obtain ⟨p, hxp, hp⟩ := hkey x hx
      have hname := isName_listedName hn
      rw [hxp, listedName_toPath hd hp] at hn
      obtain ⟨c, e', hc, he', halike⟩ := h p x.2 (hxp ▸ hstored x hx) n hn
      obtain ⟨a, ha, hac⟩ := AssocMap.mem_of_get? he'
      obtain ⟨q, rfl, -⟩ := hkey _ ha
      obtain rfl := AbsPath.toPath_beq_iff.1 hac
      have hrow : row q.toPath e'.metadata = row (childPath (dirText d.toPath) n) x.2.metadata := by
        rw [row, row, (childPath_eq_iff hd hname).2 hc, halike.1, halike.2]
      rw [← hrow]
      refine List.mem_map_of_mem (List.mem_filter.2 ⟨ha, ?_⟩)
      rw [decide_eq_true_eq, childOf_toPath_iff]
      exact ⟨n, hc⟩
    · obtain ⟨c, hyc, hc⟩ := hkey y hy
      rw [hyc] at hchild
      obtain ⟨n, hn⟩ := childOf_toPath_iff.1 hchild
      have hnext : nextName d c = some n := by
        rw [nextName, if_pos ⟨[n], hn.symm⟩, hn, List.drop_left]
        rfl
      have hname : listedName d.toPath c.toPath = some n := (listedName_toPath hd hc).trans hnext
      refine ⟨y, hy, n, hyc ▸ hname, PathBuf.beq_iff.2 ?_⟩
      rw [hyc, childPath_eq_iff hd (isName_listedName hname)]
      exact hn

end NormalPaths

/-! ### Removing a tree -/

/-- The path and what is below it are gone, and everything else is as it was. -/
def RemovesTree (fs fs' : HttpFS) (p : PathBuf) : Prop :=
  ∀ k, fs'.files.get? k = if k.startsWith p then none else fs.files.get? k

/-- What is below a stored path is removed, but not the path itself. -/
lemma get?_removeAll {p : PathBuf} (h : fs.files.contains p = true) (k : PathBuf) :
    (fs.removeAll p).2.files.get? k =
      if k.startsWith p ∧ (k == p) = false then none else fs.files.get? k := by
  have hkey : ∀ a, (a == k) = true →
      (!a.startsWith p || a == p) = (!k.startsWith p || k == p) := by
    intro a ha
    rw [PathBuf.startsWith, PathBuf.startsWith, PathBuf.beq_iff.1 ha, BEq.congr_left ha]
  rw [removeAll, if_pos h, AssocMap.get?_retain_key _ hkey]
  cases k.startsWith p <;> cases k == p <;> simp

lemma not_removesTree {p : PathBuf} (h : fs.files.contains p = true) :
    ¬ RemovesTree fs (fs.removeAll p).2 p := by
  intro hremoves
  have hp := hremoves p
  obtain ⟨e, he⟩ := AssocMap.contains_iff.1 h
  rw [get?_removeAll h, if_neg (by simp), if_pos (PathBuf.startsWith_iff.2 List.prefix_rfl), he]
    at hp
  cases hp

/-- In every table, a directory is listed right in every order exactly if everything that is listed
under a name agrees with the child of that name, and each child is listed; and what is reported
to be removed is removed only for paths at which nothing is stored, for which nothing is
reported. -/
theorem directories_iff (fs : HttpFS) (d p : PathBuf) :
    ((∀ entries, entries.Perm fs.files.entries → ListsChildren fs d (readDir entries d)) ↔
      Consistent fs d) ∧
    (((fs.removeAll p).1.isOk = true → RemovesTree fs (fs.removeAll p).2 p) ↔
      fs.files.contains p = false) := by
  refine ⟨lists_iff fs d, fun h => ?_, fun h hok => ?_⟩
  · rw [← Bool.not_eq_true]
    intro hstored
    refine not_removesTree hstored (h ?_)
    rw [removeAll, if_pos hstored]
    rfl
  · rw [removeAll, h, if_neg Bool.false_ne_true] at hok
    cases hok

/-! ### A request in the table -/

/-- Every entry but the root has its parent in the table. -/
def ParentsStored (fs : HttpFS) : Prop :=
  ∀ k ∈ fs.files.keys, ∀ q, k.parent = some q → fs.files.contains q = true

/-- Make a request with one file. -/
def requestOps : List Op :=
  [.mkdir ⟨ascii "/requests/a"⟩ 0, .create ⟨ascii "/requests/a/url"⟩ 0]

/-- The table then. -/
def requestFs : HttpFS := (new 0).after mailCrates false requestOps

/-- If its file comes first, the request is listed as a file; and it cannot be removed. -/
theorem not_directories_requestFs : ParentsStored requestFs ∧
    (∃ entries, entries.Perm requestFs.files.entries ∧
      ¬ ListsChildren requestFs ⟨ascii "/requests"⟩ (readDir entries ⟨ascii "/requests"⟩)) ∧
    (requestFs.removeAll ⟨ascii "/requests/a"⟩).1.isOk = true ∧
    ¬ RemovesTree requestFs (requestFs.removeAll ⟨ascii "/requests/a"⟩).2
      ⟨ascii "/requests/a"⟩ := by
  refine ⟨?_, ⟨_, List.reverse_perm _, by decide +kernel⟩, by decide +kernel,
    not_removesTree (by decide +kernel)⟩
  have hparents : ∀ k ∈ requestFs.files.keys,
      k.parent.all (fun q => requestFs.files.contains q) = true := by
    decide +kernel
  intro k hk q hq
  simpa [hq] using hparents k hk

end Racfs.HttpFs
