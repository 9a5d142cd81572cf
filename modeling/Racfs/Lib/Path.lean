/-
# Paths

The paths of a Unix system as the standard library handles them.  A path is its text, a byte
string, but it is compared, hashed, tested for prefixes and taken apart by its components:
`/a/b`, `/a//b` and `/a/./b/` are equal paths.  Only a few operations look at the text
itself, and those read `PathBuf.bytes`.

The paths that `parent` and `stripPrefix` return are slices of the text of their argument.
Here they are given in the canonical spelling of their components; the two differ at most in
redundant separators and `.` components, so they are equal as paths, and for a path in
canonical spelling they have the same text.

`AbsPath` is a normalized absolute path: a list of names.  For these, all operations are the
obvious ones on the list.
-/
import Racfs.Lib.AssocMap
import Racfs.Lib.Bytes
import Mathlib.Data.List.Infix

namespace Racfs

/-- A component of a path. -/
inductive Component
  | rootDir
  | curDir
  | parentDir
  | normal (name : Bytes)
deriving DecidableEq, Repr

/-- A path: its text. -/
structure PathBuf where
  /-- The text of the path. -/
  bytes : Bytes
deriving Repr

namespace Component

/-- The text of a component. -/
def asOsStr : Component → Bytes
  | rootDir => [slash]
  | curDir => [dot]
  | parentDir => [dot, dot]
  | normal name => name

/-- The component that a piece between two separators stands for, if any. -/
def parse (piece : Bytes) : Option Component :=
  if piece = [] then none
  else if piece = [dot] then none
  else if piece = [dot, dot] then some parentDir
  else some (normal piece)

end Component

/-- A proper name: what a normal component can be called. -/
def IsName (n : Bytes) : Prop := n ≠ [] ∧ slash ∉ n ∧ n ≠ [dot] ∧ n ≠ [dot, dot]

instance (n : Bytes) : Decidable (IsName n) := by unfold IsName; infer_instance

namespace PathBuf

/-- Whether the path is absolute. -/
def hasRoot (p : PathBuf) : Bool := p.bytes.head? == some slash

/-- The components of a path.  Empty pieces and `.` are skipped, except for a `.` at the
beginning of a relative path. -/
def components (p : PathBuf) : List Component :=
  if p.hasRoot then
    Component.rootDir :: (p.bytes.tail.splitOn slash).filterMap Component.parse
  else
    match p.bytes.splitOn slash with
    | [] => []
    | first :: rest =>
      (if first = [dot] then [Component.curDir] else (Component.parse first).toList) ++
        rest.filterMap Component.parse

/-- Paths are equal when their components are. -/
instance : BEq PathBuf := ⟨fun p q => p.components == q.components⟩

lemma beq_def (p q : PathBuf) : (p == q) = (p.components == q.components) := rfl

lemma beq_iff {p q : PathBuf} : (p == q) = true ↔ p.components = q.components := by
  rw [beq_def, beq_iff_eq]

instance : EquivBEq PathBuf where
  rfl := by simp [beq_def]
  symm := by
    intro p q h
    rw [beq_iff] at *
    exact h.symm
  trans := by
    intro p q r h h'
    rw [beq_iff] at *
    exact h.trans h'

/-- Append a path: an absolute one replaces the whole. -/
def push (p q : PathBuf) : PathBuf :=
  if q.hasRoot then q
  else if p.bytes.getLast?.any (· ≠ slash) then ⟨p.bytes ++ slash :: q.bytes⟩
  else ⟨p.bytes ++ q.bytes⟩

/-- The path with the given components, in canonical spelling. -/
def ofComponents (cs : List Component) : PathBuf :=
  cs.foldl (fun p c => p.push ⟨c.asOsStr⟩) ⟨[]⟩

/-- The path without its last component; none for the root and for the empty path. -/
def parent (p : PathBuf) : Option PathBuf :=
  match p.components.getLast? with
  | none => none
  | some Component.rootDir => none
  | some _ => some (ofComponents p.components.dropLast)

/-- The name at the end of the path, if its last component is a name. -/
def fileName (p : PathBuf) : Option Bytes :=
  match p.components.getLast? with
  | some (Component.normal name) => some name
  | _ => none

/-- Remove the last component, if there is one that can be removed. -/
def pop (p : PathBuf) : PathBuf := p.parent.getD p

/-- Whether the components of `base` are the first ones of `p`. -/
def startsWith (p base : PathBuf) : Bool := base.components.isPrefixOf p.components

/-- The components of `p` that follow those of `base`. -/
def stripPrefix (p base : PathBuf) : Option PathBuf :=
  if p.startsWith base then some (ofComponents (p.components.drop base.components.length))
  else none

/-- The text of the path as a string. -/
def toStringLossy (p : PathBuf) : Bytes := fromUtf8Lossy p.bytes

lemma startsWith_iff {p base : PathBuf} :
    p.startsWith base = true ↔ base.components <+: p.components := by
  rw [startsWith, List.isPrefixOf_iff_prefix]

end PathBuf

lemma Component.parse_ne_rootDir (piece : Bytes) :
    Component.parse piece ≠ some Component.rootDir := by
  rw [Component.parse]
  split_ifs <;> simp

/-- A path starts with the root exactly when it is absolute. -/
lemma PathBuf.startsWith_slash (p : PathBuf) : p.startsWith ⟨[slash]⟩ = p.hasRoot := by
  have hbase : (PathBuf.mk [slash]).components = [Component.rootDir] := by decide
  rw [Bool.eq_iff_iff, PathBuf.startsWith_iff, hbase]
  rw [PathBuf.components]
  cases hroot : p.hasRoot with
  | true => simp
  | false =>
    simp only [Bool.false_eq_true, if_false, iff_false]
    intro hpre
    have hmem := hpre.subset (List.mem_singleton.2 rfl)
    split at hmem
    · cases hmem
    · rcases List.mem_append.1 hmem with hmem | hmem
      · split at hmem
        · simp at hmem
        · rw [Option.mem_toList] at hmem
          exact Component.parse_ne_rootDir _ hmem
      · obtain ⟨piece, -, hp⟩ := List.mem_filterMap.1 hmem
        exact Component.parse_ne_rootDir _ hp

/-! ### Normalized absolute paths -/

/-- A normalized absolute path: the names of its components. -/
structure AbsPath where
  /-- The names, from the root downwards. -/
  names : List Bytes
  /-- Every one of them is a proper name. -/
  valid : ∀ n ∈ names, IsName n
deriving DecidableEq

namespace AbsPath

@[ext] lemma ext {p q : AbsPath} (h : p.names = q.names) : p = q := by
  cases p; cases q; simpa using h

/-- The root directory. -/
def root : AbsPath := ⟨[], by simp⟩

/-- The text of a normalized absolute path. -/
def text (names : List Bytes) : Bytes := slash :: [slash].intercalate names

/-- A normalized absolute path as a path. -/
def toPath (p : AbsPath) : PathBuf := ⟨text p.names⟩

instance : Coe AbsPath PathBuf := ⟨toPath⟩

@[simp] lemma toPath_bytes (p : AbsPath) : p.toPath.bytes = text p.names := rfl

/-- The path without its last name. -/
def dropLast (p : AbsPath) : AbsPath :=
  ⟨p.names.dropLast, fun n hn => p.valid n (List.mem_of_mem_dropLast hn)⟩

lemma dropLast_of_names_nil {p : AbsPath} (h : p.names = []) : p.dropLast = p :=
  ext (by simp [dropLast, h])

lemma names_dropLast_append {p : AbsPath} {ms ns : List Bytes} (hp : p.names = ms ++ ns)
    (hns : ns ≠ []) : p.dropLast.names = ms ++ ns.dropLast := by
  simp only [dropLast, hp]
  exact List.dropLast_append_of_ne_nil hns

/-- The path that remains below `base`. -/
def drop (p : AbsPath) (k : ℕ) : AbsPath :=
  ⟨p.names.drop k, fun n hn => p.valid n (List.mem_of_mem_drop hn)⟩

end AbsPath

lemma Component.parse_of_isName {n : Bytes} (h : IsName n) :
    Component.parse n = some (Component.normal n) := by
  obtain ⟨h1, -, h2, h3⟩ := h
  simp [Component.parse, h1, h2, h3]

lemma Component.isName_of_parse {piece n : Bytes} (hslash : slash ∉ piece)
    (h : Component.parse piece = some (Component.normal n)) : IsName n := by
  rw [Component.parse] at h
  split_ifs at h with h1 h2 h3
  · exact absurd (Option.some.inj h) (by simp)
  · simp only [Option.some.injEq, Component.normal.injEq] at h
    subst h
    exact ⟨h1, hslash, h2, h3⟩

lemma Component.eq_of_parse {piece n : Bytes}
    (h : Component.parse piece = some (Component.normal n)) : n = piece := by
  rw [Component.parse] at h
  split_ifs at h
  · exact absurd (Option.some.inj h) (by simp)
  · simpa using h.symm

/-- No piece between two separators has a separator. -/
lemma not_mem_of_mem_splitOn {x : UInt8} {bs piece : Bytes} (h : piece ∈ bs.splitOn x) :
    x ∉ piece := by
  induction bs generalizing piece with
  | nil =>
    rw [List.splitOn_nil, List.mem_singleton] at h
    simp [h]
  | cons b bs ih =>
    rw [List.splitOn_cons_eq_if_modifyHead] at h
    by_cases hb : (b == x) = true
    · rw [if_pos hb, List.mem_cons] at h
      rcases h with rfl | h
      · simp
      · exact ih h
    · rw [if_neg hb] at h
      cases hs : bs.splitOn x with
      | nil => exact absurd hs (List.splitOn_ne_nil x bs)
      | cons first rest =>
        rw [hs, List.modifyHead_cons, List.mem_cons] at h
        rcases h with rfl | h
        · have hf : x ∉ first := ih (by simp [hs])
          have hxb : x ≠ b := fun e => hb (by simp [e])
          simp [hf, hxb]
        · exact ih (by simp [hs, h])

/-- The pieces between the separators are parts of the text. -/
lemma infix_of_mem_splitOn {x : UInt8} {bs piece : Bytes} (h : piece ∈ bs.splitOn x) :
    piece <:+: bs := by
  have hjoin : ∀ pieces : List Bytes, piece ∈ pieces → piece <:+: [x].intercalate pieces := by
    intro pieces hmem
    induction pieces with
    | nil => cases hmem
    | cons a pieces ih =>
      cases pieces with
      | nil => simpa using (List.mem_singleton.1 hmem) ▸ List.infix_rfl
      | cons b pieces =>
        rw [List.intercalate_cons_cons]
        rcases List.mem_cons.1 hmem with rfl | hmem
        · exact ⟨[], [x] ++ [x].intercalate (b :: pieces), by simp⟩
        · exact (ih hmem).trans (List.suffix_append _ _).isInfix
  have hbs : [x].intercalate (bs.splitOn x) = bs := List.intercalate_splitOn x
  rw [← hbs]
  exact hjoin _ h

namespace AbsPath

lemma hasRoot_toPath (p : AbsPath) : p.toPath.hasRoot = true := by
  simp [PathBuf.hasRoot, text]

lemma filterMap_parse_names {names : List Bytes} (hvalid : ∀ n ∈ names, IsName n) :
    names.filterMap Component.parse = names.map Component.normal := by
  induction names with
  | nil => rfl
  | cons n names ih =>
    rw [List.filterMap_cons, Component.parse_of_isName (hvalid n (by simp)), List.map_cons,
      ih fun m hm => hvalid m (by simp [hm])]

/-- The components of a normalized absolute path are the root and its names. -/
lemma components_toPath (p : AbsPath) :
    p.toPath.components = Component.rootDir :: p.names.map Component.normal := by
  rw [PathBuf.components, if_pos (hasRoot_toPath p)]
  congr 1
  obtain ⟨names, hvalid⟩ := p
  simp only [toPath_bytes, text, List.tail_cons]
  rcases names with _ | ⟨n, ns⟩
  · simp [Component.parse]
  · -- the names have no separator, so splitting the text gives them back
    rw [List.splitOn_intercalate slash (fun l hl => (hvalid l hl).2.1) (by simp)]
    exact filterMap_parse_names hvalid

lemma map_normal_injective : Function.Injective (List.map Component.normal) :=
  List.map_injective_iff.2 fun _ _ h => Component.normal.inj h

@[simp] lemma toPath_beq_iff {p q : AbsPath} : (p.toPath == q.toPath) = true ↔ p = q := by
  rw [PathBuf.beq_iff, components_toPath, components_toPath, List.cons.injEq]
  constructor
  · intro h
    exact ext (map_normal_injective h.2)
  · rintro rfl
    exact ⟨rfl, rfl⟩

lemma toPath_beq {p q : AbsPath} : (p.toPath == q.toPath) = decide (p = q) := by
  rw [Bool.eq_iff_iff, toPath_beq_iff, decide_eq_true_eq]

lemma prefix_map_normal {a b : List Bytes} :
    a.map Component.normal <+: b.map Component.normal ↔ a <+: b := by
  constructor
  · rintro ⟨t, ht⟩
    obtain ⟨b₁, b₂, rfl, h1, -⟩ := List.map_eq_append_iff.1 ht.symm
    exact ⟨b₂, by rw [map_normal_injective h1]⟩
  · exact fun h => h.map _

/-- `starts_with` compares names. -/
@[simp] lemma startsWith_iff {p base : AbsPath} :
    p.toPath.startsWith base.toPath = true ↔ base.names <+: p.names := by
  rw [PathBuf.startsWith_iff, components_toPath, components_toPath, List.cons_prefix_cons]
  simp [prefix_map_normal]

/-! ### The text of a normalized absolute path -/

lemma text_nil : text [] = [slash] := rfl

lemma text_eq_iff (p : AbsPath) : text p.names = [slash] ↔ p.names = [] := by
  constructor
  · intro h
    rcases hnames : p.names with _ | ⟨n, ns⟩
    · rfl
    · exfalso
      have hn : n ≠ [] := (p.valid n (by simp [hnames])).1
      rw [hnames, text, List.cons.injEq] at h
      rcases ns with _ | ⟨m, ns⟩
      · exact hn (by simpa using h.2)
      · simp [List.intercalate_cons_cons, hn] at h
  · intro h
    rw [h, text_nil]

lemma intercalate_concat {s : Bytes} {ns : List Bytes} (hne : ns ≠ []) (n : Bytes) :
    s.intercalate (ns ++ [n]) = s.intercalate ns ++ s ++ n := by
  induction ns with
  | nil => exact absurd rfl hne
  | cons m ns ih =>
    rcases ns with _ | ⟨m', ns⟩
    · simp [List.intercalate_cons_cons]
    · have := ih (by simp)
      simp only [List.cons_append, List.intercalate_cons_cons, List.append_assoc] at this ⊢
      rw [this]

/-- The text ends with a separator only at the root. -/
lemma getLast?_text {names : List Bytes} (hvalid : ∀ n ∈ names, IsName n) :
    (text names).getLast?.any (· ≠ slash) = decide (names ≠ []) := by
  rcases List.eq_nil_or_concat' names with rfl | ⟨ns, n, rfl⟩
  · simp [text]
  · have hn := hvalid n (by simp)
    obtain ⟨m, b, rfl⟩ := List.eq_nil_or_concat' n |>.resolve_left hn.1
    have hb : b ≠ slash := by
      rintro rfl
      exact hn.2.1 (by simp)
    have hlast : (text (ns ++ [m ++ [b]])).getLast? = some b := by
      rw [text]
      rcases List.eq_nil_or_concat' ns with rfl | ⟨ns', n', rfl⟩
      · rw [List.nil_append, List.intercalate_singleton, ← List.cons_append, List.getLast?_concat]
      · rw [intercalate_concat (by simp), ← List.append_assoc, ← List.cons_append,
          List.getLast?_concat]
    simp [hlast, hb]

lemma hasRoot_of_isName {n : Bytes} (h : IsName n) : (PathBuf.mk n).hasRoot = false := by
  obtain ⟨h1, h2, -, -⟩ := h
  rcases n with _ | ⟨b, n⟩
  · exact absurd rfl h1
  · simp only [List.mem_cons, not_or] at h2
    simp [PathBuf.hasRoot, Ne.symm h2.1]

/-- Pushing a name onto a normalized absolute path. -/
lemma push_name {names : List Bytes} (hvalid : ∀ n ∈ names, IsName n) {n : Bytes}
    (hn : IsName n) : (PathBuf.mk (text names)).push ⟨n⟩ = ⟨text (names ++ [n])⟩ := by
  rw [PathBuf.push, hasRoot_of_isName hn, if_neg (by simp)]
  simp only [getLast?_text hvalid]
  by_cases hne : names = []
  · simp [hne, text]
  · simp [hne, text, intercalate_concat hne]

/-- Pushing names one after the other, given what one push does. -/
lemma foldl_push_names (base : List Bytes → PathBuf)
    (hpush : ∀ ms n, (∀ m ∈ ms ++ [n], IsName m) → (base ms).push ⟨n⟩ = base (ms ++ [n]))
    {ns : List Bytes} (ms : List Bytes) (hvalid : ∀ n ∈ ms ++ ns, IsName n) :
    ns.foldl (fun p n => p.push ⟨(Component.normal n).asOsStr⟩) (base ms) = base (ms ++ ns) := by
  induction ns generalizing ms with
  | nil => simp
  | cons n ns ih =>
    have hpushed : (base ms).push ⟨n⟩ = base (ms ++ [n]) :=
      hpush ms n fun m hm => hvalid m (by simp at hm ⊢; tauto)
    rw [List.foldl_cons, Component.asOsStr, hpushed, ih (ms ++ [n]) (by simpa using hvalid)]
    simp

/-- The canonical spelling of the components of a normalized absolute path is its text. -/
lemma ofComponents_names {names : List Bytes} (hvalid : ∀ n ∈ names, IsName n) :
    PathBuf.ofComponents (Component.rootDir :: names.map Component.normal) = ⟨text names⟩ := by
  rw [PathBuf.ofComponents, List.foldl_cons, List.foldl_map]
  have hroot : (PathBuf.mk []).push ⟨Component.rootDir.asOsStr⟩ = ⟨text []⟩ := by
    simp [PathBuf.push, PathBuf.hasRoot, Component.asOsStr, text]
  rw [hroot]
  refine foldl_push_names (fun ms => ⟨text ms⟩) (fun ms n hms => ?_) [] hvalid
  exact push_name (fun m hm => hms m (by simp [hm])) (hms n (by simp))

/-- Pushing a name onto a normalized relative path. -/
lemma push_relative {names : List Bytes} (hvalid : ∀ n ∈ names, IsName n) {n : Bytes}
    (hn : IsName n) :
    (PathBuf.mk ([slash].intercalate names)).push ⟨n⟩ = ⟨[slash].intercalate (names ++ [n])⟩ := by
  rw [PathBuf.push, hasRoot_of_isName hn, if_neg (by simp)]
  rcases List.eq_nil_or_concat' names with rfl | ⟨ms, m, rfl⟩
  · simp
  · have hlast := getLast?_text hvalid
    have hne : [slash].intercalate (ms ++ [m]) ≠ [] := by
      intro hnil
      have := congrArg (List.cons slash) hnil
      rw [← text, text_eq_iff ⟨ms ++ [m], hvalid⟩] at this
      simp at this
    rw [text, List.getLast?_cons_of_ne_nil hne] at hlast
    rw [hlast, if_pos (by simp), intercalate_concat (by simp) n]
    simp

/-- The canonical spelling of a relative path. -/
lemma ofComponents_normal {names : List Bytes} (hvalid : ∀ n ∈ names, IsName n) :
    PathBuf.ofComponents (names.map Component.normal) = ⟨[slash].intercalate names⟩ := by
  rw [PathBuf.ofComponents, List.foldl_map]
  refine foldl_push_names (fun ms => ⟨[slash].intercalate ms⟩) (fun ms n hms => ?_) [] hvalid
  exact push_relative (fun m hm => hms m (by simp [hm])) (hms n (by simp))

lemma components_relative {names : List Bytes} (hvalid : ∀ n ∈ names, IsName n) :
    (PathBuf.mk ([slash].intercalate names)).components = names.map Component.normal := by
  rcases names with _ | ⟨n, ns⟩
  · rfl
  · have hn := hvalid n (by simp)
    obtain ⟨t, ht⟩ : ∃ t, [slash].intercalate (n :: ns) = n ++ t := by
      rcases ns with _ | ⟨m, ms⟩
      · exact ⟨[], by simp⟩
      · exact ⟨_, by rw [List.intercalate_cons_cons, List.append_assoc]⟩
    -- the text begins with the first name, so it has no root
    have hroot : (PathBuf.mk ([slash].intercalate (n :: ns))).hasRoot = false := by
      obtain ⟨b, bs, hb⟩ := List.exists_cons_of_ne_nil hn.1
      have hname := hasRoot_of_isName hn
      rw [ht, hb]
      rwa [hb] at hname
    rw [PathBuf.components, hroot, if_neg Bool.false_ne_true,
      List.splitOn_intercalate slash (fun l hl => (hvalid l hl).2.1) (by simp)]
    have hrest := @filterMap_parse_names ns fun m hm => hvalid m (List.mem_cons_of_mem n hm)
    simp only [if_neg hn.2.2.1, Component.parse_of_isName hn, hrest]
    rfl

lemma parent_toPath (p : AbsPath) :
    p.toPath.parent = if p.names = [] then none else some p.dropLast.toPath := by
  rw [PathBuf.parent, components_toPath]
  rcases List.eq_nil_or_concat' p.names with hnil | ⟨ns, n, hsnoc⟩
  · simp [hnil]
  · have hlast : (Component.rootDir :: p.names.map Component.normal).getLast?
        = some (Component.normal n) := by
      rw [hsnoc, List.map_append, ← List.cons_append, List.map_singleton, List.getLast?_concat]
    have hdrop : (Component.rootDir :: p.names.map Component.normal).dropLast
        = Component.rootDir :: p.dropLast.names.map Component.normal := by
      rw [AbsPath.dropLast]
      simp [hsnoc, List.dropLast_cons_of_ne_nil]
    rw [hlast, hdrop]
    simp only [ofComponents_names p.dropLast.valid]
    rw [if_neg (by simp [hsnoc])]
    rfl

/-- Redundant separators at the end do not matter. -/
lemma components_append_slash {p : PathBuf} (hp : p.hasRoot = true) :
    (PathBuf.mk (p.bytes ++ [slash])).components = p.components := by
  obtain ⟨bs⟩ := p
  rcases bs with _ | ⟨b, bs⟩
  · simp [PathBuf.hasRoot] at hp
  · have hroot : (PathBuf.mk (b :: bs ++ [slash])).hasRoot = true := by
      simpa [PathBuf.hasRoot] using hp
    rw [PathBuf.components, PathBuf.components, if_pos hroot, if_pos hp]
    simp only [List.cons_append, List.tail_cons]
    rw [List.splitOn_append_cons_self, List.filterMap_append]
    simp [Component.parse]

/-- The text as a concatenation. -/
lemma text_eq_flatMap {names : List Bytes} (hne : names ≠ []) :
    text names = names.flatMap fun n => slash :: n := by
  induction names with
  | nil => exact absurd rfl hne
  | cons n ns ih =>
    rcases ns with _ | ⟨m, ns⟩
    · simp [text]
    · have := ih (by simp)
      rw [text] at this
      rw [text, List.intercalate_cons_cons, List.flatMap_cons, ← this]
      simp

lemma text_append {ms ns : List Bytes} (hms : ms ≠ []) (hns : ns ≠ []) :
    text (ms ++ ns) = text ms ++ text ns := by
  rw [text_eq_flatMap (by simp [hms]), text_eq_flatMap hms, text_eq_flatMap hns,
    List.flatMap_append]

/-- The text of a path below another one continues the text of that one. -/
lemma exists_text_append {p q : AbsPath} (hq : q.names ≠ []) (hpre : q.names <+: p.names)
    (hne : p.names ≠ q.names) :
    ∃ rest, rest ≠ [] ∧ p.names = q.names ++ rest ∧ text p.names = text q.names ++ text rest := by
  obtain ⟨rest, hrest⟩ := hpre
  have hrestne : rest ≠ [] := by
    rintro rfl
    exact hne (by rw [← hrest, List.append_nil])
  exact ⟨rest, hrestne, hrest.symm, by rw [← hrest, text_append hq hrestne]⟩

lemma splitOn_text {names : List Bytes} (hvalid : ∀ n ∈ names, IsName n) (hne : names ≠ []) :
    (text names).tail.splitOn slash = names := by
  rw [text, List.tail_cons]
  exact List.splitOn_intercalate slash (fun l hl => (hvalid l hl).2.1) hne

lemma text_inj {p q : AbsPath} : text p.names = text q.names ↔ p = q := by
  refine ⟨fun h => ?_, fun h => congrArg (fun p : AbsPath => text p.names) h⟩
  have hbytes : p.toPath = q.toPath := congrArg PathBuf.mk h
  have hbeq : (p.toPath == q.toPath) = true := hbytes ▸ BEq.rfl
  exact toPath_beq_iff.1 hbeq

/-- A text that ends at a separator belongs to a path above. -/
lemma exists_names_of_append {p : AbsPath} {a rest : Bytes} (ha : a ≠ [])
    (h : text p.names = a ++ slash :: rest) :
    ∃ ms ns, p.names = ms ++ ns ∧ ms ≠ [] ∧ ns ≠ [] ∧ text ms = a ∧ text ns = slash :: rest := by
  obtain ⟨b, a, rfl⟩ := List.exists_cons_of_ne_nil ha
  rw [List.cons_append] at h
  have hb : slash = b := (List.cons.inj h).1
  have hne : p.names ≠ [] := by
    rintro hnil
    rw [hnil, text_nil] at h
    simp at h
  refine ⟨a.splitOn slash, rest.splitOn slash, ?_, List.splitOn_ne_nil _ _,
    List.splitOn_ne_nil _ _, ?_, ?_⟩
  · rw [← List.splitOn_append_cons_self, ← splitOn_text p.valid hne, h, List.tail_cons]
  · rw [text, List.intercalate_splitOn, hb]
  · rw [text, List.intercalate_splitOn]

end AbsPath

/-! ### The text after the lossy conversion -/

/-- The text of a path with the given names as a string; the root has none. -/
def lossyText (names : List Bytes) : Bytes := names.flatMap fun n => slash :: fromUtf8Lossy n

lemma slash_lt : slash < 0x80 := by decide

lemma fromUtf8Lossy_flatMap (names : List Bytes) :
    fromUtf8Lossy (names.flatMap fun n => slash :: n) = lossyText names := by
  induction names with
  | nil => rfl
  | cons n ns ih =>
    rw [lossyText, List.flatMap_cons, List.flatMap_cons, ← lossyText, List.cons_append,
      fromUtf8Lossy_cons _ slash_lt, List.cons_append, ← ih]
    rcases ns with _ | ⟨m, ns⟩
    · simp
    · rw [List.flatMap_cons, List.cons_append, fromUtf8Lossy_append n _ slash_lt]

lemma toStringLossy_text {names : List Bytes} (hne : names ≠ []) :
    (PathBuf.mk (AbsPath.text names)).toStringLossy = lossyText names := by
  rw [PathBuf.toStringLossy, AbsPath.text_eq_flatMap hne, fromUtf8Lossy_flatMap]

/-- The text of an ancestor is a prefix. -/
lemma prefix_lossyText {ms ns : List Bytes} (h : ms <+: ns) : lossyText ms <+: lossyText ns := by
  obtain ⟨r, rfl⟩ := h
  exact ⟨lossyText r, by simp [lossyText]⟩

lemma prefix_toStringLossy {p q : AbsPath} (h : p.names <+: q.names) :
    p.toPath.toStringLossy <+: q.toPath.toStringLossy := by
  by_cases hq : q.names = []
  · have hpq : p = q := AbsPath.ext (by rw [hq] at h ⊢; exact List.prefix_nil.1 h)
    rw [hpq]
  · have hqtext : q.toPath.toStringLossy = lossyText q.names := toStringLossy_text hq
    rw [hqtext]
    by_cases hp : p.names = []
    · obtain ⟨n, ns, hn⟩ := List.exists_cons_of_ne_nil hq
      rw [AbsPath.toPath, hp, AbsPath.text_nil, PathBuf.toStringLossy,
        fromUtf8Lossy_cons _ slash_lt, fromUtf8Lossy_nil, hn]
      exact ⟨fromUtf8Lossy n ++ lossyText ns, by simp [lossyText]⟩
    · have hptext : p.toPath.toStringLossy = lossyText p.names := toStringLossy_text hp
      rw [hptext]
      exact prefix_lossyText h

/-! ### Resolving `.` and `..` by the text alone -/

namespace PathBuf

lemma mem_filterMap_parse {bs : Bytes} {c : Component}
    (h : c ∈ (bs.splitOn slash).filterMap Component.parse) :
    c = .parentDir ∨ ∃ n, c = .normal n ∧ IsName n := by
  obtain ⟨piece, hpiece, hparse⟩ := List.mem_filterMap.1 h
  cases c with
  | rootDir =>
    rw [Component.parse] at hparse
    split_ifs at hparse <;> simp at hparse
  | curDir =>
    rw [Component.parse] at hparse
    split_ifs at hparse <;> simp at hparse
  | parentDir => exact Or.inl rfl
  | normal n =>
    exact Or.inr ⟨n, rfl, Component.isName_of_parse (not_mem_of_mem_splitOn hpiece) hparse⟩

/-- The names that are left when the components are followed one by one. -/
def follow (names : List Bytes) : List Component → List Bytes
  | [] => names
  | .normal n :: cs => follow (names ++ [n]) cs
  | .parentDir :: cs => follow names.dropLast cs
  | _ :: cs => follow names cs

lemma isName_of_mem_components {p : PathBuf} {n : Bytes} (h : Component.normal n ∈ p.components) :
    IsName n := by
  have hparse : ∀ {piece bs : Bytes}, piece ∈ bs.splitOn slash →
      Component.parse piece = some (Component.normal n) → IsName n := fun hpiece hp =>
    Component.isName_of_parse (not_mem_of_mem_splitOn hpiece) hp
  rw [components] at h
  split at h
  · rw [List.mem_cons] at h
    obtain ⟨piece, hpiece, hp⟩ := List.mem_filterMap.1 (h.resolve_left (by simp))
    exact hparse hpiece hp
  · split at h
    · cases h
    · next first rest hsplit =>
      rcases List.mem_append.1 h with h | h
      · split at h
        · simp at h
        · rw [Option.mem_toList] at h
          exact hparse (hsplit ▸ List.mem_cons_self) h
      · obtain ⟨piece, hpiece, hp⟩ := List.mem_filterMap.1 h
        exact hparse (hsplit ▸ List.mem_cons_of_mem _ hpiece) hp

lemma isName_of_mem_follow {cs : List Component} (hcs : ∀ n, Component.normal n ∈ cs → IsName n)
    {names : List Bytes} (hnames : ∀ n ∈ names, IsName n) : ∀ n ∈ follow names cs, IsName n := by
  induction cs generalizing names with
  | nil => exact hnames
  | cons c cs ih =>
    have hcs' : ∀ n, Component.normal n ∈ cs → IsName n := fun n hn => hcs n (by simp [hn])
    cases c with
    | normal n =>
      refine ih hcs' fun m hm => ?_
      rcases List.mem_append.1 hm with hm | hm
      · exact hnames m hm
      · rw [List.mem_singleton.1 hm]
        exact hcs n (by simp)
    | parentDir => exact ih hcs' fun m hm => hnames m (List.mem_of_mem_dropLast hm)
    | rootDir => exact ih hcs' hnames
    | curDir => exact ih hcs' hnames

/-- The normalized absolute path of a path, from the root. -/
def lexical (p : PathBuf) : AbsPath :=
  ⟨follow [] p.components,
    isName_of_mem_follow (fun _ h => isName_of_mem_components h) (by simp)⟩

lemma follow_map_normal (ms ns : List Bytes) : follow ms (ns.map .normal) = ms ++ ns := by
  induction ns generalizing ms with
  | nil => simp [follow]
  | cons n ns ih => simp [follow, ih]

/-- A normalized path stays as it is. -/
@[simp] lemma lexical_toPath (p : AbsPath) : p.toPath.lexical = p := by
  refine AbsPath.ext ?_
  change follow [] p.toPath.components = p.names
  rw [AbsPath.components_toPath]
  simp [follow, follow_map_normal]

/-! ### Paths that are texts -/

/-- The path is a text: nothing of it is lost in a string. -/
def IsText (p : PathBuf) : Prop := p.toStringLossy = p.bytes

lemma IsText.mk_toStringLossy {p : PathBuf} (h : p.IsText) : PathBuf.mk p.toStringLossy = p :=
  congrArg PathBuf.mk h

/-- A path to which a text has been added is a text. -/
lemma IsText.push {p : PathBuf} (h : p.IsText) (name : Bytes) :
    (p.push ⟨fromUtf8Lossy name⟩).IsText := by
  have hname := fromUtf8Lossy_fromUtf8Lossy name
  have happend : ∀ a : Bytes, fromUtf8Lossy a = a →
      fromUtf8Lossy (a ++ slash :: fromUtf8Lossy name) = a ++ slash :: fromUtf8Lossy name := by
    intro a ha
    rw [fromUtf8Lossy_append a _ slash_lt, fromUtf8Lossy_cons _ slash_lt, ha, hname]
  rw [PathBuf.push]
  split_ifs with hroot hsep
  · exact hname
  · exact happend p.bytes h
  · show fromUtf8Lossy (p.bytes ++ fromUtf8Lossy name) = p.bytes ++ fromUtf8Lossy name
    rcases List.eq_nil_or_concat' p.bytes with hnil | ⟨a, c, hp⟩
    · rw [hnil, List.nil_append]
      exact hname
    · -- the path ends with a separator
      obtain rfl : c = slash := by simpa [hp] using hsep
      have ha : fromUtf8Lossy a = a := by
        have heq : fromUtf8Lossy (a ++ [slash]) = a ++ [slash] := by
          rw [← hp]
          exact h
        rw [fromUtf8Lossy_append a [] slash_lt, fromUtf8Lossy_cons [] slash_lt,
          fromUtf8Lossy_nil] at heq
        exact List.append_inj_left' heq rfl
      rw [hp, List.append_assoc]
      exact happend a ha

/-! ### The components of a text -/

end PathBuf

/-- A component as a string. -/
def Component.lossy : Component → Component
  | normal name => normal (fromUtf8Lossy name)
  | c => c

/-- A byte string that becomes an ASCII string is that string. -/
lemma eq_of_fromUtf8Lossy_eq {bs t : Bytes} (ht : IsAscii t) (h : fromUtf8Lossy bs = t) :
    bs = t := by
  have hascii : IsAscii bs := isAscii_of_fromUtf8Lossy (by rwa [h])
  rw [← h, fromUtf8Lossy_of_isAscii hascii]

lemma Component.parse_fromUtf8Lossy (piece : Bytes) :
    Component.parse (fromUtf8Lossy piece) = (Component.parse piece).map Component.lossy := by
  have hiff : ∀ t : Bytes, IsAscii t → (fromUtf8Lossy piece = t ↔ piece = t) := by
    intro t ht
    constructor
    · exact eq_of_fromUtf8Lossy_eq ht
    · rintro rfl
      exact fromUtf8Lossy_of_isAscii ht
  have hdot : IsAscii [dot] := by simp [IsAscii, dot]
  have hdots : IsAscii [dot, dot] := by simp [IsAscii, dot]
  simp only [Component.parse, hiff [] (by simp [IsAscii]), hiff [dot] hdot, hiff [dot, dot] hdots]
  split_ifs <;> rfl

/-- The text of a name is a name. -/
lemma isName_fromUtf8Lossy {n : Bytes} (hn : IsName n) : IsName (fromUtf8Lossy n) := by
  refine Component.isName_of_parse
    (fun hmem => hn.2.1 (mem_of_mem_fromUtf8Lossy slash_lt hmem)) ?_
  rw [Component.parse_fromUtf8Lossy, Component.parse_of_isName hn]
  rfl

/-- The pieces of a text are the texts of the pieces. -/
lemma splitOn_fromUtf8Lossy (bs : Bytes) :
    (fromUtf8Lossy bs).splitOn slash = (bs.splitOn slash).map fromUtf8Lossy := by
  have hjoin : ∀ pieces : List Bytes, fromUtf8Lossy ([slash].intercalate pieces) =
      [slash].intercalate (pieces.map fromUtf8Lossy) := by
    intro pieces
    induction pieces with
    | nil => rfl
    | cons a pieces ih =>
      cases pieces with
      | nil => simp
      | cons b pieces =>
        rw [List.map_cons, List.map_cons, List.intercalate_cons_cons, List.intercalate_cons_cons,
          ← List.map_cons, ← ih, List.append_assoc, List.singleton_append,
          fromUtf8Lossy_append a _ slash_lt, fromUtf8Lossy_cons _ slash_lt]
        simp
  have hpieces : ∀ piece ∈ (bs.splitOn slash).map fromUtf8Lossy, slash ∉ piece := by
    intro piece hpiece hmem
    obtain ⟨a, ha, rfl⟩ := List.mem_map.1 hpiece
    exact not_mem_of_mem_splitOn ha (mem_of_mem_fromUtf8Lossy slash_lt hmem)
  have hne : (bs.splitOn slash).map fromUtf8Lossy ≠ [] := by
    simp [List.splitOn_ne_nil slash bs]
  have hbs : [slash].intercalate (bs.splitOn slash) = bs := List.intercalate_splitOn slash
  rw [← List.splitOn_intercalate slash hpieces hne, ← hjoin, hbs]

/-- A path is a text when its pieces are. -/
lemma isUtf8_intercalate (pieces : List Bytes) :
    isUtf8 ([slash].intercalate pieces) = pieces.all isUtf8 := by
  induction pieces with
  | nil => rfl
  | cons a pieces ih =>
    cases pieces with
    | nil => simp
    | cons b pieces =>
      rw [List.intercalate_cons_cons, List.append_assoc, List.singleton_append,
        isUtf8_append _ _ slash_lt, ih]
      rfl

lemma head?_fromUtf8Lossy (bs : Bytes) :
    (fromUtf8Lossy bs).head? = some slash ↔ bs.head? = some slash := by
  constructor
  · intro h
    match bs, h with
    | b :: t, h =>
      by_contra hb
      have hsep : ¬ (b == slash) = true := by simpa using hb
      obtain ⟨u, hu⟩ : ∃ u, fromUtf8Lossy (b :: t) = slash :: u := by
        cases hlossy : fromUtf8Lossy (b :: t) with
        | nil => simp [hlossy] at h
        | cons c u => exact ⟨u, by simpa [hlossy] using h⟩
      -- the first piece of the text would be empty, but that of the byte string is not
      have hsplit := splitOn_fromUtf8Lossy (b :: t)
      rw [hu, List.splitOn_cons_eq_if_modifyHead, if_pos (by simp),
        List.splitOn_cons_eq_if_modifyHead, if_neg hsep] at hsplit
      cases hfirst : t.splitOn slash with
      | nil => exact List.splitOn_ne_nil slash t hfirst
      | cons first rest =>
        rw [hfirst, List.modifyHead_cons, List.map_cons] at hsplit
        exact fromUtf8Lossy_ne_nil (by simp) (List.cons.inj hsplit).1.symm
  · intro h
    match bs, h with
    | b :: t, h =>
      obtain rfl : b = slash := by simpa using h
      rw [fromUtf8Lossy_cons t slash_lt]
      rfl

namespace PathBuf

lemma hasRoot_toStringLossy (p : PathBuf) : (PathBuf.mk p.toStringLossy).hasRoot = p.hasRoot := by
  rw [Bool.eq_iff_iff, hasRoot, hasRoot, beq_iff_eq, beq_iff_eq]
  exact head?_fromUtf8Lossy p.bytes

lemma filterMap_parse_fromUtf8Lossy (pieces : List Bytes) :
    (pieces.map fromUtf8Lossy).filterMap Component.parse =
      (pieces.filterMap Component.parse).map Component.lossy := by
  rw [List.filterMap_map, List.map_filterMap]
  congr 1
  funext piece
  exact Component.parse_fromUtf8Lossy piece

/-- The components of the text of a path are the texts of its components. -/
theorem components_toStringLossy (p : PathBuf) :
    (PathBuf.mk p.toStringLossy).components = p.components.map Component.lossy := by
  rw [components, components, hasRoot_toStringLossy]
  cases hroot : p.hasRoot with
  | true =>
    obtain ⟨bs⟩ := p
    match bs, hroot with
    | b :: t, hroot =>
      obtain rfl : b = slash := by simpa [hasRoot] using hroot
      simp only [if_true, toStringLossy, fromUtf8Lossy_cons t slash_lt, List.tail_cons,
        splitOn_fromUtf8Lossy, filterMap_parse_fromUtf8Lossy, List.map_cons, Component.lossy]
  | false =>
    simp only [Bool.false_eq_true, if_false, toStringLossy, splitOn_fromUtf8Lossy]
    cases p.bytes.splitOn slash with
    | nil => rfl
    | cons first rest =>
      have hdot : fromUtf8Lossy first = [dot] ↔ first = [dot] := by
        constructor
        · exact eq_of_fromUtf8Lossy_eq (by simp [IsAscii, dot])
        · rintro rfl
          rfl
      simp only [List.map_cons, List.map_append, filterMap_parse_fromUtf8Lossy, hdot,
        Component.parse_fromUtf8Lossy]
      congr 1
      split_ifs
      · rfl
      · cases Component.parse first <;> rfl

/-- The names in a text are texts. -/
lemma IsText.fromUtf8Lossy_name {p : PathBuf} (h : p.IsText) {n : Bytes}
    (hn : Component.normal n ∈ p.components) : fromUtf8Lossy n = n := by
  have hmap : p.components.map Component.lossy = p.components.map id := by
    rw [← components_toStringLossy, h.mk_toStringLossy, List.map_id]
  exact Component.normal.inj (List.map_inj_left.1 hmap (.normal n) hn)

/-! ### Adding a name -/

lemma head?_components (p : PathBuf) : p.components.head? = some .rootDir ↔ p.hasRoot = true := by
  have hbase : (PathBuf.mk [slash]).components = [Component.rootDir] := by decide
  rw [← startsWith_slash, startsWith_iff, hbase]
  cases p.components with
  | nil => simp
  | cons c cs => simp [List.cons_prefix_cons, eq_comm]

lemma components_cons_slash (t : Bytes) : (PathBuf.mk (slash :: t)).components =
    Component.rootDir :: (t.splitOn slash).filterMap Component.parse := by
  rw [components, if_pos (by simp [hasRoot])]
  rfl

/-! ### The number of components -/

/-- A piece at the end of a path. -/
lemma components_append_piece {bs t : Bytes} (hbs : bs ≠ []) (ht : slash ∉ t) :
    (PathBuf.mk (bs ++ slash :: t)).components =
      (PathBuf.mk bs).components ++ (Component.parse t).toList := by
  have hlast : [t].filterMap Component.parse = (Component.parse t).toList := by
    cases hparse : Component.parse t <;> simp [hparse]
  match bs, hbs with
  | b :: u, _ =>
    by_cases hb : b = slash
    · subst hb
      rw [List.cons_append, components_cons_slash, components_cons_slash,
        List.splitOn_append_cons_self, List.filterMap_append, List.splitOn_eq_singleton ht, hlast]
      rfl
    · have hroot : ∀ v, (PathBuf.mk (b :: v)).hasRoot = false := by
        intro v
        simpa [hasRoot] using hb
      rw [List.cons_append, components, components, hroot, hroot, if_neg Bool.false_ne_true,
        if_neg Bool.false_ne_true]
      simp only [← List.cons_append]
      rw [List.splitOn_append_cons_self, List.splitOn_eq_singleton ht]
      obtain ⟨first, rest, hsplit⟩ :=
        List.exists_cons_of_ne_nil (List.splitOn_ne_nil slash (b :: u))
      rw [hsplit]
      simp only [List.cons_append, List.filterMap_append, hlast, List.append_assoc]

/-- A name that is added to a path is its last component. -/
lemma components_push_name (p : PathBuf) {n : Bytes} (hn : IsName n) :
    (p.push ⟨n⟩).components = p.components ++ [.normal n] := by
  have hparse := Component.parse_of_isName hn
  have hempty : Component.parse [] = none := rfl
  obtain ⟨bs⟩ := p
  rw [push, AbsPath.hasRoot_of_isName hn, if_neg Bool.false_ne_true]
  split_ifs with hsep
  · have hne : bs ≠ [] := by
      intro hnil
      simp [hnil] at hsep
    rw [components_append_piece hne hn.2.1, hparse, Option.toList_some]
  · rcases List.eq_nil_or_concat' bs with rfl | ⟨a, c, rfl⟩
    · rw [List.nil_append, components, AbsPath.hasRoot_of_isName hn, if_neg Bool.false_ne_true,
        List.splitOn_eq_singleton hn.2.1]
      simp [hn.2.2.1, hparse, hempty, components, hasRoot]
    · -- the path ends with a separator
      obtain rfl : c = slash := by simpa using hsep
      rcases List.eq_nil_or_concat' a with rfl | ⟨a, d, rfl⟩
      · rw [List.nil_append, List.singleton_append, components_cons_slash, components_cons_slash,
          List.splitOn_eq_singleton hn.2.1]
        simp [hparse, hempty]
      · rw [List.append_assoc, List.singleton_append,
          components_append_piece (by simp) hn.2.1, components_append_piece (by simp) (by simp),
          hparse, hempty, Option.toList_none, List.append_nil, Option.toList_some]

/-- An empty path that is added does not change the components. -/
lemma components_push_nil (p : PathBuf) : (p.push ⟨[]⟩).components = p.components := by
  rw [push, if_neg (by simp [hasRoot])]
  split_ifs with hsep
  · have hne : p.bytes ≠ [] := by
      intro hnil
      simp [hnil] at hsep
    rw [components_append_piece hne (by simp)]
    simp [Component.parse]
  · rw [List.append_nil]

lemma hasRoot_of_not_mem {t : Bytes} (ht : slash ∉ t) : (PathBuf.mk t).hasRoot = false := by
  cases t with
  | nil => rfl
  | cons b t =>
    have hb : b ≠ slash := fun h => ht (by simp [h])
    simpa [hasRoot] using hb

/-- A piece adds at most one component. -/
lemma length_components_push_le (p : PathBuf) {t : Bytes} (ht : slash ∉ t) :
    (p.push ⟨t⟩).components.length ≤ p.components.length + 1 := by
  have hpiece : (Component.parse t).toList.length ≤ 1 := by
    cases Component.parse t <;> simp
  have hroot := hasRoot_of_not_mem ht
  obtain ⟨bs⟩ := p
  rw [push, hroot, if_neg Bool.false_ne_true]
  split_ifs with hsep
  · have hbs : bs ≠ [] := by
      rintro rfl
      simp at hsep
    rw [components_append_piece hbs ht, List.length_append]
    omega
  · rcases List.eq_nil_or_concat' bs with rfl | ⟨u, c, rfl⟩
    · rw [List.nil_append, components, hroot, if_neg Bool.false_ne_true,
        List.splitOn_eq_singleton ht]
      simp only [List.filterMap_nil, List.append_nil]
      split_ifs
      · simp
      · omega
    · -- the path ends with a separator
      obtain rfl : c = slash := by simpa using hsep
      rw [List.append_assoc, List.singleton_append]
      by_cases hu : u = []
      · subst hu
        rw [List.nil_append, List.nil_append, components_cons_slash, components_cons_slash,
          List.splitOn_eq_singleton ht]
        cases hparse : Component.parse t <;> simp [hparse]
      · rw [components_append_piece hu ht, components_append_piece hu (by simp),
          List.length_append, List.length_append]
        omega

lemma length_components_foldl_push_le (cs : List Component)
    (hcs : ∀ n, Component.normal n ∈ cs → slash ∉ n) (p : PathBuf) :
    (cs.foldl (fun p c => p.push ⟨c.asOsStr⟩) p).components.length ≤
      p.components.length + cs.length := by
  induction cs generalizing p with
  | nil => exact Nat.le_refl _
  | cons c cs ih =>
    have hone : (p.push ⟨c.asOsStr⟩).components.length ≤ p.components.length + 1 := by
      cases c with
      | rootDir =>
        have hslash : (p.push ⟨Component.rootDir.asOsStr⟩).components = [.rootDir] := by
          rw [push, if_pos (by decide)]
          decide
        rw [hslash]
        simp
      | curDir => exact length_components_push_le p (by decide)
      | parentDir => exact length_components_push_le p (by decide)
      | normal n => exact length_components_push_le p (hcs n List.mem_cons_self)
    have hrest := ih (fun n hn => hcs n (List.mem_cons_of_mem _ hn)) (p.push ⟨c.asOsStr⟩)
    rw [List.foldl_cons, List.length_cons]
    omega

/-- The parent has fewer components. -/
lemma length_components_parent_lt {p parent : PathBuf} (h : p.parent = some parent) :
    parent.components.length < p.components.length := by
  have hparent : p.components ≠ [] ∧ parent = ofComponents p.components.dropLast := by
    rw [PathBuf.parent] at h
    split at h
    · cases h
    · cases h
    · next c hne hlast =>
      refine ⟨fun hnil => ?_, (Option.some.inj h).symm⟩
      rw [hnil] at hlast
      cases hlast
  obtain ⟨hne, rfl⟩ := hparent
  have hle := length_components_foldl_push_le p.components.dropLast
    (fun n hn => (isName_of_mem_components (List.dropLast_subset _ hn)).2.1) ⟨[]⟩
  have hpos := List.length_pos_of_ne_nil hne
  have hempty : (PathBuf.mk []).components.length = 0 := by decide
  rw [hempty, List.length_dropLast] at hle
  rw [ofComponents]
  omega

end PathBuf

/-! ### Paths of entries -/

/-- A normalized absolute path other than `/`, whose text is UTF-8. -/
structure EntryPath extends AbsPath where
  ne_root : names ≠ []
  utf8 : isUtf8 (AbsPath.text names) = true

namespace EntryPath

@[ext] lemma ext {p q : EntryPath} (h : p.names = q.names) : p = q := by
  obtain ⟨p, _, _⟩ := p
  obtain ⟨q, _, _⟩ := q
  obtain rfl : p = q := AbsPath.ext h
  rfl

instance : DecidableEq EntryPath := fun p q => decidable_of_iff (p.names = q.names)
  ⟨ext, fun h => h ▸ rfl⟩

/-- The text of the path. -/
def text (p : EntryPath) : Bytes := AbsPath.text p.names

lemma toStringLossy (p : EntryPath) : p.toPath.toStringLossy = p.text :=
  fromUtf8Lossy_of_isUtf8 p.utf8

@[simp] lemma toPath_beq {p q : EntryPath} : (p.toPath == q.toPath) = decide (p = q) := by
  rw [AbsPath.toPath_beq, decide_eq_decide]
  exact ⟨fun h => ext (congrArg AbsPath.names h), fun h => congrArg toAbsPath h⟩

lemma text_inj {p q : EntryPath} : p.text = q.text ↔ p = q := by
  refine ⟨fun h => ext ?_, fun h => congrArg text h⟩
  exact congrArg AbsPath.names (AbsPath.text_inj.1 h)

@[simp] lemma text_beq {p q : EntryPath} : (p.text == q.text) = decide (p = q) := by
  rw [Bool.eq_iff_iff, beq_iff_eq, text_inj, decide_eq_true_eq]

lemma getLast?_text (p : EntryPath) : p.text.getLast? ≠ some slash := by
  intro h
  have hlast := AbsPath.getLast?_text p.valid
  rw [text] at h
  simp [h, p.ne_root] at hlast

/-- A path directly below another one, by its text. -/
lemma text_eq_append_iff {p q : EntryPath} {t : Bytes} (ht : slash ∉ t) :
    q.text = p.text ++ slash :: t ↔ q.names = p.names ++ [t] := by
  constructor
  · intro h
    have hcomps := @PathBuf.components_append_piece p.text t (List.cons_ne_nil _ _) ht
    rw [← h] at hcomps
    change q.toPath.components = p.toPath.components ++ _ at hcomps
    rw [AbsPath.components_toPath, AbsPath.components_toPath, List.cons_append,
      List.cons.injEq] at hcomps
    cases hparse : Component.parse t with
    | none =>
      -- an empty name would make the two paths equal, but their texts are not
      have hnames : q.names = p.names := by
        simpa [hparse, AbsPath.map_normal_injective.eq_iff] using hcomps.2
      have hlen := congrArg List.length h
      rw [ext hnames] at hlen
      simp at hlen
    | some c =>
      have hmem : c ∈ q.names.map Component.normal := by rw [hcomps.2]; simp [hparse]
      obtain ⟨n, -, rfl⟩ := List.mem_map.1 hmem
      obtain rfl := Component.eq_of_parse hparse
      refine AbsPath.map_normal_injective ?_
      rw [hcomps.2, hparse, List.map_append]
      rfl
  · intro h
    rw [text, text, h, AbsPath.text, AbsPath.text, AbsPath.intercalate_concat p.ne_root]
    simp

/-- The path without its last name, below a directory other than the root. -/
def parent (p : EntryPath) (h : 2 ≤ p.names.length) : EntryPath where
  toAbsPath := p.dropLast
  ne_root := by
    intro hnil
    have hlen := congrArg List.length hnil
    rw [AbsPath.dropLast, List.length_dropLast, List.length_nil] at hlen
    omega
  utf8 := by
    have hutf8 := p.utf8
    have hne : p.names.dropLast ≠ [] := by
      intro hnil
      have hlen := congrArg List.length hnil
      rw [List.length_dropLast, List.length_nil] at hlen
      omega
    rw [← List.dropLast_append_getLast p.ne_root, AbsPath.text,
      AbsPath.intercalate_concat hne, List.append_assoc, ← List.cons_append,
      List.singleton_append, isUtf8_append _ _ slash_lt, Bool.and_eq_true] at hutf8
    exact hutf8.1

lemma names_parent (p : EntryPath) (h : 2 ≤ p.names.length) :
    p.names = (p.parent h).names ++ [p.names.getLast p.ne_root] :=
  (List.dropLast_append_getLast p.ne_root).symm

end EntryPath

end Racfs
