/-
# Removing from the database

Whether a directory is empty and what is at and under a path are both found by the pattern for
what is below the path.  For the root the pattern is `//%`, which no normal path matches: a root
with entries is removed as an empty directory, and the removal of everything under it takes its
own row only.  A name with a wildcard has the opposite effect: rows elsewhere keep a directory from
being empty, or are removed with it.

The two calls do what the components of the paths say (`RemovesByTree`) exactly when the pattern
finds the rows at and under the path, and no other ones (`removesByTree_iff`).  With normal paths
this is a condition on what else matches, and for the root that nothing else is stored
(`removesByTree_iff_of_normal`).
-/
import Racfs.SqlFs.Subtree

namespace Racfs.SqlFs

open SqlFS

/-- The components of the key are those of the directory, and some more. -/
def StrictlyUnder (text key : Bytes) : Prop :=
  AtOrUnder text key ∧ (PathBuf.mk key).components ≠ (PathBuf.mk text).components

instance (text key : Bytes) : Decidable (StrictlyUnder text key) := by
  unfold StrictlyUnder
  infer_instance

/-- The removal of a directory succeeds exactly when no row is strictly under it, and it removes
the row of the directory only; the removal of everything removes exactly the rows at and under the
path. -/
structure RemovesByTree (fs : SqlFS) (path : PathBuf) (text : Bytes) : Prop where
  empty : fs.isDir text = .ok true →
    ((fs.remove path).1 = .ok .unit ↔ ∀ key ∈ fs.files.keys, ¬ StrictlyUnder text key)
  alone : fs.isDir text = .ok true → (fs.remove path).1 = .ok .unit → ∀ key,
    (fs.remove path).2.files.get? key = if key = text then none else fs.files.get? key
  gone : ∀ key, AtOrUnder text key → (fs.removeAll path).2.files.get? key = none
  others : ∀ key, ¬ AtOrUnder text key →
    (fs.removeAll path).2.files.get? key = fs.files.get? key

variable {fs : SqlFS} {path : PathBuf} {text : Bytes}

/-! ### What the statements do -/

lemma isDir_eq_ok_iff {b : Bool} :
    fs.isDir text = .ok b ↔ ∃ row, fs.files.get? text = some row ∧ row.isDir = b := by
  rw [isDir]
  cases fs.files.get? text <;> simp

/-- The removal of a directory succeeds when nothing matches. -/
lemma remove_of_isDir (hpath : pathToStr path = .ok text) (hdir : fs.isDir text = .ok true) :
    fs.remove path = if ∃ key ∈ fs.files.keys, below text key = true then
      (.err .DirectoryNotEmpty, fs) else (.ok .unit, { fs with files := fs.files.erase text }) := by
  obtain ⟨row, hrow, -⟩ := isDir_eq_ok_iff.1 hdir
  have hstored : fs.exists? text = true := AssocMap.contains_iff.2 ⟨row, hrow⟩
  rw [remove, hpath]
  simp only [SqlFS.check, hstored, hdir, Bool.not_true, Bool.false_eq_true, if_false, true_and,
    List.any_eq_true]

lemma remove_eq_ok_iff (hpath : pathToStr path = .ok text) (hdir : fs.isDir text = .ok true) :
    (fs.remove path).1 = .ok .unit ↔ ¬ ∃ key ∈ fs.files.keys, below text key = true := by
  rw [remove_of_isDir hpath hdir]
  split_ifs with hany <;> simp [hany]

/-- What is stored after everything has been removed. -/
lemma get?_removeAll (hpath : pathToStr path = .ok text) (key : Bytes) :
    (fs.removeAll path).2.files.get? key =
      if text ∈ fs.files.keys ∧ (key = text ∨ below text key = true) then none
      else fs.files.get? key := by
  have hstored : text ∈ fs.files.keys ↔ fs.exists? text = true :=
    AssocMap.mem_keys.trans AssocMap.contains_iff.symm
  rw [removeAll, hpath]
  simp only [SqlFS.check, hstored]
  cases fs.exists? text with
  | false => simp
  | true =>
    simp only [Bool.not_true, Bool.false_eq_true, if_false, true_and]
    rw [AssocMap.get?_retain_key (f := fun key => !(key == text || below text key)) _
      fun a ha => by rw [beq_iff_eq.1 ha]]
    by_cases hsel : key = text ∨ below text key = true
    · rw [if_pos hsel, if_neg]
      simpa [or_iff_not_imp_left] using hsel
    · rw [if_neg hsel, if_pos]
      simpa using hsel

lemma atOrUnder_self (text : Bytes) : AtOrUnder text text := atOrUnder_of_beq BEq.rfl

/-- The two calls by what is stored at or under the path and elsewhere. -/
lemma removesByTree_iff_rows (fs : SqlFS) {path : PathBuf} {text : Bytes}
    (hpath : pathToStr path = .ok text) :
    RemovesByTree fs path text ↔
      (∀ key ∈ fs.files.keys, AtOrUnder text key →
        text ∈ fs.files.keys ∧ (key = text ∨ below text key = true)) ∧
      (∀ key ∈ fs.files.keys, ¬ AtOrUnder text key → text ∈ fs.files.keys →
        below text key = false) ∧
      (fs.isDir text = .ok true → (∃ key ∈ fs.files.keys, below text key = true) →
        ∃ key ∈ fs.files.keys, StrictlyUnder text key) := by
  constructor
  · rintro ⟨hempty, -, hgone, hothers⟩
    refine ⟨fun key hkey hunder => ?_, fun key hkey hother hstored => ?_, fun hdir hany => ?_⟩
    · obtain ⟨row, hrow⟩ := AssocMap.mem_keys.1 hkey
      by_contra hnot
      have hnone := hgone key hunder
      rw [get?_removeAll hpath, if_neg hnot, hrow] at hnone
      cases hnone
    · obtain ⟨row, hrow⟩ := AssocMap.mem_keys.1 hkey
      by_contra hbelow
      have hsame := hothers key hother
      rw [get?_removeAll hpath, if_pos ⟨hstored, Or.inr (by simpa using hbelow)⟩, hrow] at hsame
      cases hsame
    · by_contra hnone
      refine (remove_eq_ok_iff hpath hdir).1 ((hempty hdir).2 fun key hkey hunder => ?_) hany
      exact hnone ⟨key, hkey, hunder⟩
  · rintro ⟨hunder, hother, hdirs⟩
    have hfound {key : Bytes} (hkey : key ∈ fs.files.keys) (hstrict : StrictlyUnder text key) :
        below text key = true := by
      refine (hunder key hkey hstrict.1).2.resolve_left ?_
      rintro rfl
      exact hstrict.2 rfl
    refine ⟨fun hdir => ?_, fun hdir hok key => ?_, fun key hkey => ?_, fun key hkey => ?_⟩
    · rw [remove_eq_ok_iff hpath hdir]
      refine ⟨fun hnone key hkey hstrict => hnone ⟨key, hkey, hfound hkey hstrict⟩,
        fun hnone hany => ?_⟩
      obtain ⟨key, hkey, hstrict⟩ := hdirs hdir hany
      exact hnone key hkey hstrict
    · have hnone := (remove_eq_ok_iff hpath hdir).1 hok
      rw [remove_of_isDir hpath hdir, if_neg hnone, AssocMap.get?_erase]
      exact if_congr (beq_iff_eq.trans eq_comm) rfl rfl
    · rw [get?_removeAll hpath]
      split_ifs with hsel
      · rfl
      · cases hrow : fs.files.get? key with
        | none => rfl
        | some row => exact absurd (hunder key (AssocMap.mem_keys.2 ⟨row, hrow⟩) hkey) hsel
    · rw [get?_removeAll hpath]
      split_ifs with hsel
      · obtain ⟨hstored, rfl | hbelow⟩ := hsel
        · exact absurd (atOrUnder_self _) hkey
        · cases hrow : fs.files.get? key with
          | none => rfl
          | some row =>
            rw [hother key (AssocMap.mem_keys.2 ⟨row, hrow⟩) hkey hstored] at hbelow
            cases hbelow
      · rfl

lemma strictlyUnder_text {d p : AbsPath} :
    StrictlyUnder (AbsPath.text d.names) (AbsPath.text p.names) ↔
      d.names <+: p.names ∧ p.names ≠ d.names := by
  rw [StrictlyUnder, atOrUnder_text]
  refine and_congr_right fun _ => not_congr ?_
  change p.toPath.components = d.toPath.components ↔ _
  rw [AbsPath.components_toPath, AbsPath.components_toPath, List.cons.injEq, and_iff_right rfl]
  exact ⟨fun h => AbsPath.map_normal_injective h, congrArg _⟩

/-- What is below the root by the pattern begins with two separators. -/
lemma head?_of_below_root {t : Bytes} (h : below [slash] (slash :: t) = true) :
    t.head? = some slash := by
  have hpattern : Utf8.chars ([slash] ++ slash :: Sql.percent) =
      [[slash], [slash], Sql.percent] := by decide
  rw [below, Sql.like, hpattern, Utf8.chars_cons t slash_lt] at h
  cases hchars : Utf8.chars t with
  | nil => simp [hchars, Sql.likeChars, Sql.percent, slash] at h
  | cons d rest =>
    have hne : [slash] ≠ Sql.percent := by decide
    have hne' : ([slash] == Sql.underscore) = false := by decide
    rw [hchars] at h
    simp only [Sql.likeChars, if_neg hne, hne', Bool.false_or, Bool.and_eq_true,
      beq_iff_eq] at h
    have hd : d = [slash] := Sql.eq_slash_of_foldCase h.2.1.symm
    rw [← Utf8.flatten_chars t, hchars, hd]
    rfl

/-- Nothing normal is below the root by the pattern. -/
lemma not_below_root_text (p : AbsPath) : below [slash] (AbsPath.text p.names) = false := by
  rw [← Bool.not_eq_true]
  intro h
  have hhead := head?_of_below_root h
  cases hnames : p.names with
  | nil => simp [hnames] at hhead
  | cons n ns =>
    have hn : IsName n := p.valid n (by simp [hnames])
    obtain ⟨b, bs, rfl⟩ := List.exists_cons_of_ne_nil hn.1
    rw [hnames] at hhead
    have hb : b = slash := by
      cases ns <;> simpa [List.intercalate] using hhead
    exact hn.2.1 (by simp [hb])

/-- With normal paths, what is at or under a path is its row or matches the pattern, except for
what is under the root. -/
lemma eq_or_below_text_iff {d p : AbsPath} (hpre : d.names <+: p.names) :
    (AbsPath.text p.names = AbsPath.text d.names ∨
      below (AbsPath.text d.names) (AbsPath.text p.names) = true) ↔
        (d.names = [] → p.names = []) := by
  by_cases hd : d.names = []
  · rw [hd]
    have hnot : below (AbsPath.text []) (AbsPath.text p.names) = false := not_below_root_text p
    rw [hnot]
    simp only [Bool.false_eq_true, or_false, forall_true_left]
    exact AbsPath.text_eq_iff p
  · refine iff_of_true ?_ fun h => absurd h hd
    obtain ⟨rest, hrest⟩ := hpre
    by_cases hnil : rest = []
    · left
      rw [← hrest, hnil, List.append_nil]
    · right
      rw [← hrest]
      exact below_append hd hnil

/-- With normal paths, the two calls follow the components if and only if the path is stored if
there is anything at or under it, for the root there is nothing but the root, and no row elsewhere
matches. -/
theorem removesByTree_iff_of_normal (fs : SqlFS) {d : AbsPath} {path : PathBuf}
    (hkeys : ∀ key ∈ fs.files.keys, ∃ p : AbsPath, key = AbsPath.text p.names)
    (hpath : pathToStr path = .ok (AbsPath.text d.names)) :
    RemovesByTree fs path (AbsPath.text d.names) ↔
      (∀ p : AbsPath, AbsPath.text p.names ∈ fs.files.keys → d.names <+: p.names →
        AbsPath.text d.names ∈ fs.files.keys ∧ (d.names = [] → p.names = [])) ∧
      ∀ p : AbsPath, AbsPath.text p.names ∈ fs.files.keys → ¬ d.names <+: p.names →
        AbsPath.text d.names ∈ fs.files.keys →
          below (AbsPath.text d.names) (AbsPath.text p.names) = false := by
  rw [removesByTree_iff_rows fs hpath]
  constructor
  · rintro ⟨hunder, hother, -⟩
    refine ⟨fun p hp hpre => ?_, fun p hp hnot => hother _ hp (mt atOrUnder_text.1 hnot)⟩
    obtain ⟨hstored, hmatch⟩ := hunder _ hp (atOrUnder_text.2 hpre)
    exact ⟨hstored, (eq_or_below_text_iff hpre).1 hmatch⟩
  · rintro ⟨hunder, hother⟩
    refine ⟨fun key hkey hat => ?_, fun key hkey hnot hstored => ?_, fun hdir hany => ?_⟩
    · obtain ⟨p, rfl⟩ := hkeys key hkey
      have hpre := atOrUnder_text.1 hat
      obtain ⟨hstored, hroot⟩ := hunder p hkey hpre
      exact ⟨hstored, (eq_or_below_text_iff hpre).2 hroot⟩
    · obtain ⟨p, rfl⟩ := hkeys key hkey
      exact hother p hkey (mt atOrUnder_text.2 hnot) hstored
    · obtain ⟨key, hkey, hbelow⟩ := hany
      obtain ⟨p, rfl⟩ := hkeys key hkey
      obtain ⟨row, hrow, -⟩ := isDir_eq_ok_iff.1 hdir
      refine ⟨_, hkey, strictlyUnder_text.2 ⟨?_, ?_⟩⟩
      · -- what matches and is not under the directory would be a row elsewhere
        by_contra hnot
        rw [hother p hkey hnot (AssocMap.mem_keys.2 ⟨row, hrow⟩)] at hbelow
        cases hbelow
      · intro heq
        rw [heq, not_below_self] at hbelow
        cases hbelow

end Racfs.SqlFs
