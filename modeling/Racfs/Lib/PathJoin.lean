/-
# Joining paths

What a relative path adds to an absolute one: its components, without a leading `.`
(`components_push`).  The root of a path can be stripped off without changing the rest
(`components_stripPrefix_slash`).
-/
import Racfs.Lib.Path

namespace Racfs

/-- The component is a name or `..`. -/
def Component.isStep : Component → Bool
  | .parentDir => true
  | .normal _ => true
  | _ => false

/-- The component is a name. -/
def Component.isNormal : Component → Bool
  | .normal _ => true
  | _ => false

/-- A normalized absolute path with one more name. -/
def AbsPath.concat (p : AbsPath) {n : Bytes} (hn : IsName n) : AbsPath where
  names := p.names ++ [n]
  valid := by
    intro m hm
    rcases List.mem_append.1 hm with hm | hm
    · exact p.valid m hm
    · exact List.mem_singleton.1 hm ▸ hn

namespace PathBuf

/-- The names and the `..` of a path. -/
def steps (p : PathBuf) : List Component := p.components.filter Component.isStep

lemma filter_isStep_filterMap_parse (pieces : List Bytes) :
    (pieces.filterMap Component.parse).filter Component.isStep =
      pieces.filterMap Component.parse := by
  refine List.filter_eq_self.2 fun c hc => ?_
  obtain ⟨piece, -, hparse⟩ := List.mem_filterMap.1 hc
  rw [Component.parse] at hparse
  split_ifs at hparse <;> obtain rfl := Option.some.inj hparse <;> rfl

/-- An absolute path is the root and its steps. -/
lemma components_eq_cons_steps {p : PathBuf} (hp : p.hasRoot = true) :
    p.components = .rootDir :: p.steps := by
  rw [steps, components, if_pos hp, List.filter_cons_of_neg (by simp [Component.isStep]),
    filter_isStep_filterMap_parse]

/-- The steps of a relative path are what its pieces stand for. -/
lemma steps_of_relative {p : PathBuf} (hp : p.hasRoot = false) :
    p.steps = (p.bytes.splitOn slash).filterMap Component.parse := by
  rw [steps, components, hp, if_neg Bool.false_ne_true]
  cases hsplit : p.bytes.splitOn slash with
  | nil => rfl
  | cons first rest =>
    simp only [List.filter_append, filter_isStep_filterMap_parse]
    by_cases hdot : first = [dot]
    · simp [hdot, Component.isStep, Component.parse]
    · have hfirst : (Component.parse first).toList = [first].filterMap Component.parse := by
        cases h : Component.parse first <;> simp [h]
      rw [if_neg hdot, hfirst, filter_isStep_filterMap_parse, ← List.filterMap_append]
      rfl

lemma isName_of_mem_steps {p : PathBuf} {c : Component} (h : c ∈ p.steps) :
    c = .parentDir ∨ ∃ n, c = .normal n ∧ IsName n := by
  obtain ⟨hmem, hstep⟩ := List.mem_filter.1 h
  cases c with
  | rootDir => cases hstep
  | curDir => cases hstep
  | parentDir => exact Or.inl rfl
  | normal n => exact Or.inr ⟨n, rfl, isName_of_mem_components hmem⟩

/-- A relative path adds its steps to an absolute one. -/
lemma components_push {p q : PathBuf} (hp : p.hasRoot = true) (hq : q.hasRoot = false) :
    (p.push q).components = p.components ++ q.steps := by
  rw [steps_of_relative hq]
  obtain ⟨bs⟩ := p
  match bs, hp with
  | b :: t, hp =>
    obtain rfl : b = slash := by simpa [hasRoot] using hp
    rw [push, hq, if_neg Bool.false_ne_true]
    split_ifs with hsep
    · rw [List.cons_append, components_cons_slash, components_cons_slash,
        List.splitOn_append_cons_self, List.filterMap_append]
      rfl
    · rcases List.eq_nil_or_concat' t with rfl | ⟨a, c, rfl⟩
      · show (PathBuf.mk (slash :: q.bytes)).components = _
        rw [components_cons_slash, components_cons_slash]
        rfl
      · -- the path ends with a separator
        obtain rfl : c = slash := by
          rw [← List.cons_append, List.getLast?_concat] at hsep
          simpa using hsep
        rw [components_cons_slash, List.cons_append, components_cons_slash, List.append_assoc,
          List.singleton_append, List.splitOn_append_cons_self, List.splitOn_append_cons_self,
          List.filterMap_append, List.filterMap_append]
        simp [Component.parse]

/-! ### Stripping the root -/

lemma parse_asOsStr {c : Component} (h : c = .parentDir ∨ ∃ n, c = .normal n ∧ IsName n) :
    Component.parse c.asOsStr = some c ∧ slash ∉ c.asOsStr := by
  rcases h with rfl | ⟨n, rfl, hn⟩
  · decide
  · exact ⟨Component.parse_of_isName hn, hn.2.1⟩

/-- A piece is a path of its own. -/
lemma components_piece {t : Bytes} {c : Component} (ht : slash ∉ t)
    (h : Component.parse t = some c) : (PathBuf.mk t).components = [c] := by
  have hdot : t ≠ [dot] := by
    rintro rfl
    simp [Component.parse] at h
  rw [components, hasRoot_of_not_mem ht, if_neg Bool.false_ne_true, List.splitOn_eq_singleton ht]
  simp [hdot, h]

/-- A step is added to a relative path that does not end with a separator, and the result is one
again. -/
lemma components_push_step {p : PathBuf} (hroot : p.hasRoot = false)
    (hlast : p.bytes.getLast? ≠ some slash) {c : Component}
    (hc : c = .parentDir ∨ ∃ n, c = .normal n ∧ IsName n) :
    (p.push ⟨c.asOsStr⟩).components = p.components ++ [c] ∧
      (p.push ⟨c.asOsStr⟩).hasRoot = false ∧
      (p.push ⟨c.asOsStr⟩).bytes.getLast? ≠ some slash := by
  obtain ⟨hparse, hslash⟩ := parse_asOsStr hc
  obtain ⟨b, t, htext⟩ := List.exists_cons_of_ne_nil (l := c.asOsStr) <| by
    intro hnil
    simp [hnil, Component.parse] at hparse
  -- the step itself does not end with a separator
  have hend (bs : Bytes) : (bs ++ c.asOsStr).getLast? ≠ some slash := by
    intro heq
    rw [List.getLast?_append_of_ne_nil _ (by simp [htext])] at heq
    exact hslash (List.mem_of_getLast? heq)
  obtain ⟨bs⟩ := p
  rw [push, hasRoot_of_not_mem hslash, if_neg Bool.false_ne_true]
  cases bs with
  | nil => exact ⟨components_piece hslash hparse, hasRoot_of_not_mem hslash, hend []⟩
  | cons b' u =>
    have hsep : (b' :: u).getLast?.any (fun x => decide (x ≠ slash)) = true := by
      cases hlast' : (b' :: u).getLast? with
      | none => simp at hlast'
      | some x =>
        have hx : x ≠ slash := fun h => hlast (hlast'.trans (by rw [h]))
        simpa using hx
    rw [if_pos hsep]
    refine ⟨?_, hroot, ?_⟩
    · rw [components_append_piece (by simp) hslash, hparse]
      rfl
    · have := hend (b' :: u ++ [slash])
      rwa [List.append_assoc] at this

/-- Steps are added to a relative path that does not end with a separator. -/
lemma components_foldl_push {p : PathBuf} (hroot : p.hasRoot = false)
    (hlast : p.bytes.getLast? ≠ some slash) {cs : List Component}
    (hcs : ∀ c ∈ cs, c = .parentDir ∨ ∃ n, c = .normal n ∧ IsName n) :
    (cs.foldl (fun p c => p.push ⟨c.asOsStr⟩) p).components = p.components ++ cs ∧
      (cs.foldl (fun p c => p.push ⟨c.asOsStr⟩) p).hasRoot = false := by
  induction cs generalizing p with
  | nil => exact ⟨(List.append_nil _).symm, hroot⟩
  | cons c cs ih =>
    obtain ⟨hpush, hroot', hlast'⟩ := components_push_step hroot hlast (hcs c (by simp))
    obtain ⟨hcomps, hrel⟩ := ih hroot' hlast' fun c hc => hcs c (by simp [hc])
    rw [List.foldl_cons, hcomps, hpush, List.append_assoc]
    exact ⟨rfl, hrel⟩

/-- The canonical spelling of steps has these steps. -/
lemma components_ofComponents {cs : List Component}
    (hcs : ∀ c ∈ cs, c = .parentDir ∨ ∃ n, c = .normal n ∧ IsName n) :
    (ofComponents cs).components = cs ∧ (ofComponents cs).hasRoot = false :=
  components_foldl_push (p := ⟨[]⟩) rfl (by simp) hcs

/-- There is no separator in the canonical spelling of a single step. -/
lemma slash_notMem_ofComponents_iff {cs : List Component}
    (hcs : ∀ c ∈ cs, c = .parentDir ∨ ∃ n, c = .normal n ∧ IsName n) :
    slash ∉ (ofComponents cs).bytes ↔ cs.length ≤ 1 := by
  constructor
  · intro hslash
    obtain ⟨hcomps, hroot⟩ := components_ofComponents hcs
    rw [components, hroot, if_neg Bool.false_ne_true, List.splitOn_eq_singleton hslash] at hcomps
    rw [← hcomps]
    simp only [List.filterMap_nil, List.append_nil]
    split_ifs
    · exact le_rfl
    · cases Component.parse (ofComponents cs).bytes <;> simp
  · intro hlen
    cases cs with
    | nil => exact List.not_mem_nil
    | cons c rest =>
      obtain rfl : rest = [] := by simpa using hlen
      have hslash := (parse_asOsStr (hcs c List.mem_cons_self)).2
      rw [ofComponents, List.foldl_cons, List.foldl_nil, push, hasRoot_of_not_mem hslash]
      exact hslash

/-- A step on its own. -/
lemma steps_step {c : Component} (hc : c = .parentDir ∨ ∃ n, c = .normal n ∧ IsName n) :
    (PathBuf.mk c.asOsStr).hasRoot = false ∧ (PathBuf.mk c.asOsStr).steps = [c] := by
  obtain ⟨hparse, hslash⟩ := parse_asOsStr hc
  have hrel := hasRoot_of_not_mem hslash
  refine ⟨hrel, ?_⟩
  rw [steps_of_relative hrel, List.splitOn_eq_singleton hslash]
  simp [hparse]

/-- Steps are added to an absolute path. -/
lemma components_foldl_push_of_hasRoot {p : PathBuf} (hroot : p.hasRoot = true)
    {cs : List Component} (hcs : ∀ c ∈ cs, c = .parentDir ∨ ∃ n, c = .normal n ∧ IsName n) :
    (cs.foldl (fun p c => p.push ⟨c.asOsStr⟩) p).components = p.components ++ cs := by
  induction cs generalizing p with
  | nil => exact (List.append_nil _).symm
  | cons c cs ih =>
    obtain ⟨hrel, hsteps⟩ := steps_step (hcs c (by simp))
    have hpush := components_push hroot hrel
    have hroot' : (p.push ⟨c.asOsStr⟩).hasRoot = true := by
      rw [← head?_components, hpush, List.head?_append, (head?_components p).2 hroot]
      rfl
    rw [List.foldl_cons, ih hroot' fun c hc => hcs c (by simp [hc]), hpush, hsteps,
      List.append_assoc]
    rfl

/-- The components after the first one are steps. -/
lemma isName_of_mem_tail {p : PathBuf} {c : Component} (h : c ∈ p.components.tail) :
    c = .parentDir ∨ ∃ n, c = .normal n ∧ IsName n := by
  have hsteps : p.components.tail ⊆ p.steps := by
    cases hroot : p.hasRoot with
    | true =>
      rw [components_eq_cons_steps hroot]
      exact List.Subset.refl _
    | false =>
      rw [steps_of_relative hroot, components, hroot, if_neg Bool.false_ne_true]
      obtain ⟨first, rest, hsplit⟩ :=
        List.exists_cons_of_ne_nil (List.splitOn_ne_nil slash p.bytes)
      rw [hsplit]
      intro c hc
      have hrest : c ∈ rest.filterMap Component.parse := by
        by_cases hdot : first = [dot]
        · simpa only [hdot, if_true, List.singleton_append, List.tail_cons] using hc
        · simp only [if_neg hdot] at hc
          cases hparse : Component.parse first with
          | none =>
            rw [hparse] at hc
            exact List.mem_of_mem_tail hc
          | some c' =>
            rw [hparse] at hc
            exact hc
      rw [← List.singleton_append, List.filterMap_append]
      exact List.mem_append_right _ hrest
  exact isName_of_mem_steps (hsteps h)

/-- The first components of a path, spelled canonically. -/
lemma components_ofComponents_of_prefix {p : PathBuf} {cs : List Component}
    (h : cs <+: p.components) : (ofComponents cs).components = cs := by
  cases cs with
  | nil => rfl
  | cons c cs =>
    obtain ⟨cs', hcs'⟩ := h
    have hsteps : ∀ d ∈ cs, d = .parentDir ∨ ∃ n, d = .normal n ∧ IsName n := by
      intro d hd
      refine isName_of_mem_tail (p := p) ?_
      rw [← hcs']
      exact List.mem_append_left _ hd
    cases c with
    | rootDir => exact components_foldl_push_of_hasRoot (p := ⟨[slash]⟩) rfl hsteps
    | curDir => exact (components_foldl_push (p := ⟨[dot]⟩) rfl (by decide) hsteps).1
    | parentDir =>
      refine (components_ofComponents fun d hd => ?_).1
      exact (List.mem_cons.1 hd).elim Or.inl (hsteps d)
    | normal n =>
      have hn : Component.normal n ∈ p.components := by
        rw [← hcs']
        exact List.mem_cons_self
      have hname := isName_of_mem_components hn
      refine (components_ofComponents fun d hd => ?_).1
      exact (List.mem_cons.1 hd).elim (fun h => Or.inr ⟨n, h, hname⟩) (hsteps d)

/-- The parent of a path has all its components but the last, which is not the root. -/
lemma exists_parent_iff {p d : PathBuf} :
    (∃ q, p.parent = some q ∧ (q == d) = true) ↔
      ∃ c, c ≠ .rootDir ∧ p.components = d.components ++ [c] := by
  have hdrop : (ofComponents p.components.dropLast).components = p.components.dropLast :=
    components_ofComponents_of_prefix (List.dropLast_prefix _)
  rcases List.eq_nil_or_concat' p.components with hnil | ⟨cs, c, hcs⟩
  · simp [parent, hnil]
  · have hparent : p.parent = if c = .rootDir then none else some (ofComponents cs) := by
      rw [parent, hcs, List.getLast?_concat, List.dropLast_concat]
      cases c <;> rfl
    rw [hcs, List.dropLast_concat] at hdrop
    rw [hparent, hcs]
    constructor
    · rintro ⟨q, hq, hqd⟩
      split_ifs at hq with hroot
      obtain rfl := Option.some.inj hq
      exact ⟨c, hroot, by rw [← beq_iff.1 hqd, hdrop]⟩
    · rintro ⟨c', hc', heq⟩
      obtain ⟨hd, hc⟩ := List.append_inj' heq rfl
      obtain rfl : c = c' := List.singleton_inj.1 hc
      exact ⟨ofComponents cs, if_neg hc', beq_iff.2 (hdrop.trans hd)⟩

lemma components_eq_nil_iff {p : PathBuf} : p.components = [] ↔ p.bytes = [] := by
  constructor
  · intro h
    have hroot : p.hasRoot = false := by
      by_contra hroot
      rw [components_eq_cons_steps (by simpa using hroot)] at h
      cases h
    rw [components, hroot, if_neg Bool.false_ne_true] at h
    obtain ⟨first, rest, hsplit⟩ := List.exists_cons_of_ne_nil (List.splitOn_ne_nil slash p.bytes)
    rw [hsplit] at h
    have hfirst : first = [] := by
      by_cases hdot : first = [dot]
      · simp [hdot] at h
      · by_contra hne
        have hparse : Component.parse first ≠ none := by
          rw [Component.parse, if_neg hne, if_neg hdot]
          split_ifs <;> simp
        obtain ⟨c, hc⟩ := Option.ne_none_iff_exists'.1 hparse
        simp [hdot, hc] at h
    have hbytes : [slash].intercalate (p.bytes.splitOn slash) = p.bytes :=
      List.intercalate_splitOn slash
    rw [hsplit, hfirst] at hbytes
    cases rest with
    | nil => simpa using hbytes.symm
    | cons piece pieces =>
      -- the text would begin with a separator
      rw [hasRoot, ← hbytes] at hroot
      simp [List.intercalate_cons_cons] at hroot
  · intro h
    rw [components, hasRoot, h]
    rfl

/-! ### Texts by their components -/

/-- The steps of a path are what its pieces stand for. -/
lemma steps_eq (p : PathBuf) : p.steps = (p.bytes.splitOn slash).filterMap Component.parse := by
  cases hroot : p.hasRoot with
  | false => exact steps_of_relative hroot
  | true =>
    obtain ⟨bs⟩ := p
    match bs, hroot with
    | b :: t, hroot =>
      obtain rfl : b = slash := by simpa [hasRoot] using hroot
      have hsplit : (slash :: t).splitOn slash = [] :: t.splitOn slash :=
        List.splitOn_append_cons_self [] t
      rw [hsplit, steps, components_cons_slash,
        List.filter_cons_of_neg (by simp [Component.isStep]), filter_isStep_filterMap_parse]
      rfl

/-- A path whose components are texts is a text. -/
lemma isText_of_components {p : PathBuf} (h : p.components.map Component.lossy = p.components) :
    p.IsText := by
  have hpiece : ∀ piece ∈ p.bytes.splitOn slash, fromUtf8Lossy piece = piece := by
    intro piece hmem
    by_cases hascii : piece = [] ∨ piece = [dot] ∨ piece = [dot, dot]
    · rcases hascii with rfl | rfl | rfl <;> rfl
    · have hparse : Component.parse piece = some (.normal piece) := by
        simp only [not_or] at hascii
        rw [Component.parse, if_neg hascii.1, if_neg hascii.2.1, if_neg hascii.2.2]
      have hsteps : Component.normal piece ∈ p.steps := by
        rw [steps_eq]
        exact List.mem_filterMap.2 ⟨piece, hmem, hparse⟩
      have hfixed : ∀ c ∈ p.components, c.lossy = c :=
        List.map_inj_left.1 (h.trans (List.map_id _).symm)
      exact Component.normal.inj (hfixed _ (List.mem_filter.1 hsteps).1)
  have hbytes : [slash].intercalate (p.bytes.splitOn slash) = p.bytes :=
    List.intercalate_splitOn slash
  have htext : [slash].intercalate (p.toStringLossy.splitOn slash) = p.toStringLossy :=
    List.intercalate_splitOn slash
  rw [IsText, ← htext, toStringLossy, splitOn_fromUtf8Lossy, List.map_congr_left hpiece,
    List.map_id', hbytes]

/-- A path without its root is relative and has the steps of the path; a relative path stays as
it is. -/
lemma steps_stripPrefix_slash (p : PathBuf) :
    ((p.stripPrefix ⟨[slash]⟩).getD p).hasRoot = false ∧
      ((p.stripPrefix ⟨[slash]⟩).getD p).steps = p.steps := by
  rw [stripPrefix, startsWith_slash]
  cases hroot : p.hasRoot with
  | false => exact ⟨hroot, rfl⟩
  | true =>
    have hbase : (PathBuf.mk [slash]).components.length = 1 := by decide
    have hdrop : p.components.drop 1 = p.steps := by
      rw [components_eq_cons_steps hroot]
      rfl
    obtain ⟨hcomps, hrel⟩ := components_ofComponents fun c hc => isName_of_mem_steps (p := p) hc
    rw [if_pos rfl, hbase, hdrop, Option.getD_some]
    refine ⟨hrel, ?_⟩
    rw [steps, hcomps, steps, List.filter_filter]
    simp

/-- Joining a path to an absolute one, its root stripped off. -/
lemma components_push_stripPrefix {p : PathBuf} (hp : p.hasRoot = true) (q : PathBuf) :
    (p.push ((q.stripPrefix ⟨[slash]⟩).getD q)).components = p.components ++ q.steps := by
  obtain ⟨hrel, hsteps⟩ := steps_stripPrefix_slash q
  rw [components_push hp hrel, hsteps]

/-! ### Following the steps -/

lemma follow_filter_isStep (names : List Bytes) (cs : List Component) :
    follow names (cs.filter Component.isStep) = follow names cs := by
  induction cs generalizing names with
  | nil => rfl
  | cons c cs ih =>
    cases c with
    | normal n => exact ih (names ++ [n])
    | parentDir => exact ih names.dropLast
    | rootDir => exact ih names
    | curDir => exact ih names

/-- At no point of the way there are more `..` than names, of which there are some at its
beginning. -/
def StaysBelow (depth : ℕ) (cs : List Component) : Prop :=
  ∀ before, before <+: cs → before.count .parentDir ≤ depth + before.countP Component.isNormal

instance (depth : ℕ) (cs : List Component) : Decidable (StaysBelow depth cs) :=
  decidable_of_iff (∀ before ∈ cs.inits, before.count .parentDir ≤
    depth + before.countP Component.isNormal) (by simp only [StaysBelow, List.mem_inits])

lemma StaysBelow.of_cons {depth depth' : ℕ} {c : Component} {cs : List Component}
    (h : StaysBelow depth (c :: cs))
    (hc : depth + [c].countP Component.isNormal = depth' + [c].count .parentDir) :
    StaysBelow depth' cs := by
  intro before hbefore
  have := h (c :: before) (List.cons_prefix_cons.2 ⟨rfl, hbefore⟩)
  rw [← List.singleton_append, List.count_append, List.countP_append] at this
  omega

/-- The other components do not matter. -/
lemma StaysBelow.filter_isStep {depth : ℕ} {cs : List Component} (h : StaysBelow depth cs) :
    StaysBelow depth (cs.filter Component.isStep) := by
  rintro before ⟨after, hafter⟩
  obtain ⟨l, l', rfl, rfl, -⟩ := List.filter_eq_append_iff.1 hafter.symm
  have hstep (c : Component) (hc : c.isNormal = true) : c.isStep = true := by
    cases c <;> simp_all [Component.isNormal, Component.isStep]
  have hcount := h l (List.prefix_append l l')
  rw [List.count_filter rfl, List.countP_filter]
  refine hcount.trans (Nat.add_le_add_left (List.countP_mono_left fun c _ hc => ?_) depth)
  simp [hc, hstep c hc]

/-- A path without `..` is its normalized path. -/
lemma components_lexical {p : PathBuf} (hp : p.hasRoot = true)
    (hno : Component.parentDir ∉ p.components) : p.lexical.toPath.components = p.components := by
  have hnormal : ∀ cs : List Component, (∀ c ∈ cs, ∃ n, c = .normal n) →
      ∃ ns : List Bytes, cs = ns.map .normal := by
    intro cs hcs
    induction cs with
    | nil => exact ⟨[], rfl⟩
    | cons c cs ih =>
      obtain ⟨n, rfl⟩ := hcs c (by simp)
      obtain ⟨ns, rfl⟩ := ih fun c hc => hcs c (by simp [hc])
      exact ⟨n :: ns, rfl⟩
  obtain ⟨ns, hns⟩ := hnormal p.steps fun c hc => by
    rcases isName_of_mem_steps hc with rfl | ⟨n, rfl, -⟩
    · exact absurd (List.mem_filter.1 hc).1 hno
    · exact ⟨n, rfl⟩
  have hnames : p.lexical.names = ns := by
    change follow [] p.components = ns
    rw [← follow_filter_isStep, ← steps, hns, follow_map_normal, List.nil_append]
  rw [AbsPath.components_toPath, hnames, ← hns, ← components_eq_cons_steps hp]

end PathBuf

end Racfs
