/-
# Directories that have lost their type

`chmod` writes the mode as it is given, and the server accepts modes without a type.  What is a
directory is a column of its own for most calls, but `ensure_parent_exists` looks at the mode.  So
a directory whose permissions have been changed is still listed and read as one, and nothing can be
made in it any more (`shut_of_run`), until a `chmod` gives the type back or the directory is
removed.
-/
import Racfs.PgsFs.Interleaved
import Racfs.Server.Api

namespace Racfs.PgsFs

open Statements
open SqlFs.SqlFS (parentText)

/-- A directory without the type of one in its mode. -/
def Shut (d : Bytes) (fs : PgsFS) : Prop :=
  ∃ row, fs.files.get? d = some row ∧ row.isDir = true ∧ ¬ row.mode.toUInt32 &&& S_IFMT = S_IFDIR

/-- The call does not remove a directory, and gives no path the type of one. -/
def Op.Spares (d : Bytes) : Op → Prop
  | .remove path => pathToStr path ≠ .ok d
  | .removeAll path => ∀ text, pathToStr path = .ok text → text ≠ d ∧ Like.below text d = false
  | .chmod _ mode _ => ¬ mode &&& S_IFMT = S_IFDIR
  | _ => True

/-- The server lets no type through. -/
lemma spares_chmod_of_validateMode {mode : UInt32} (h : Server.validateMode mode = none)
    (d : Bytes) (path : PathBuf) (now : DateTime) : (Op.chmod path mode now).Spares d := by
  rw [Server.validateMode] at h
  split_ifs at h with hlarge
  have hmode : mode.toNat ≤ (0o7777 : UInt32).toNat :=
    UInt32.le_iff_toNat_le.1 (UInt32.not_lt.1 hlarge)
  have hperm : (0o7777 : UInt32).toNat = 0o7777 := rfl
  intro heq
  have hle : (mode &&& S_IFMT).toNat ≤ mode.toNat := by
    rw [UInt32.toNat_and]
    exact Nat.and_le_left
  have hdir : S_IFDIR.toNat = 0o40000 := rfl
  rw [heq, hdir] at hle
  omega

/-- The rule for a directory that is shut: nothing comes into it. -/
def shut (d : Bytes) : Rule Op PgsFS (Outcome Reply) where
  Inv := Shut d
  Moves fs fs' := ∀ text, parentText text = some d → fs'.files.contains text = true →
    fs.files.contains text = true
  refl _ _ _ h := h
  trans _ _ _ h h' text hparent hthere := h text hparent (h' text hparent hthere)
  Right op _ a _ _ := op.makes = true → ∀ text, pathToStr op.path = .ok text →
    parentText text = some d → ∀ r, a ≠ .ok r

section Shut

variable {d : Bytes} {op : Op} {since s s' fs fs' : PgsFS} {text : Bytes}

lemma right_shut_err (e : FSError) : (shut d).Right op since (.err e) s s' := by
  intro _ _ _ _ r heq
  cases heq

instance : AllowsFailures (shut d) where
  io _ _ _ _ _ := right_shut_err _
  noText _ _ _ _ _ := right_shut_err _

lemma shut_err {e : FSError} : (Program.done (.err e) : Call).GoesOn (shut d) op since s s' :=
  .done (right_shut_err e)

lemma shut_done {a : Outcome Reply} (hmakes : op.makes = false) :
    (Program.done a : Call).GoesOn (shut d) op since s s' := by
  refine .done fun hmakes' => ?_
  rw [hmakes] at hmakes'
  cases hmakes'

/-- What a statement must leave alone. -/
lemma shut_of_get? (h : Shut d fs) (hd : fs'.files.get? d = fs.files.get? d) : Shut d fs' := by
  obtain ⟨row, hrow, hdir, hmode⟩ := h
  exact ⟨row, hd.trans hrow, hdir, hmode⟩

lemma shut_insert {row : FileRow} (h : Shut d fs) (hparent : parentText text ≠ some d)
    (hstmt : Call.insert text row fs = some fs') : Shut d fs' ∧ (shut d).Moves fs fs' := by
  obtain ⟨hfree, rfl⟩ := insert_cases hstmt
  have hget : ∀ key, text ≠ key →
      (fs.files.insert text row).get? key = fs.files.get? key := by
    intro key hkey
    rw [AssocMap.get?_insert, if_neg fun heq => hkey (beq_iff_eq.1 heq)]
  refine ⟨shut_of_get? h (hget d ?_), fun key hkey hthere => ?_⟩
  · rintro rfl
    obtain ⟨row', hrow', -⟩ := h
    rw [AssocMap.contains_eq_false_iff.1 hfree] at hrow'
    cases hrow'
  · obtain ⟨row', hrow'⟩ := AssocMap.contains_iff.1 hthere
    refine AssocMap.contains_iff.2 ⟨row', (hget key ?_).symm.trans hrow'⟩
    rintro rfl
    exact hparent hkey

lemma shut_update {f : FileRow → FileRow} (hdir : ∀ row, (f row).isDir = row.isDir)
    (hmode : ∀ row, (f row).mode = row.mode ∨ ¬ (f row).mode.toUInt32 &&& S_IFMT = S_IFDIR)
    (h : Shut d fs) (hstmt : Call.update text f fs = some fs') :
    Shut d fs' ∧ (shut d).Moves fs fs' := by
  obtain rfl := update_cases hstmt
  refine ⟨?_, fun key _ hthere => ?_⟩
  · obtain ⟨row, hrow, hrowDir, hrowMode⟩ := h
    by_cases htext : text = d
    · refine ⟨f row, ?_, (hdir row).trans hrowDir, ?_⟩
      · show (fs.files.modify text f).get? d = some (f row)
        rw [AssocMap.get?_modify, if_pos (beq_iff_eq.2 htext), hrow, Option.map_some]
      · rcases hmode row with hsame | hnot
        · rwa [hsame]
        · exact hnot
    · refine ⟨row, ?_, hrowDir, hrowMode⟩
      show (fs.files.modify text f).get? d = some row
      rw [AssocMap.get?_modify, if_neg fun heq => htext (beq_iff_eq.1 heq), hrow]
  · obtain ⟨row, hrow⟩ := AssocMap.contains_iff.1 hthere
    have hmodified : (fs.files.modify text f).get? key = some row := hrow
    rw [AssocMap.get?_modify] at hmodified
    split_ifs at hmodified
    · obtain ⟨row', hrow', -⟩ := Option.map_eq_some_iff.1 hmodified
      exact AssocMap.contains_iff.2 ⟨row', hrow'⟩
    · exact AssocMap.contains_iff.2 ⟨row, hmodified⟩

lemma shut_delete (h : Shut d fs) (hne : text ≠ d) (hstmt : Call.delete text fs = some fs') :
    Shut d fs' ∧ (shut d).Moves fs fs' := by
  obtain rfl := Option.some.inj hstmt
  refine ⟨shut_of_get? h ?_, fun key _ hthere => ?_⟩
  · show (fs.files.erase text).get? d = fs.files.get? d
    rw [AssocMap.get?_erase, if_neg fun heq => hne (beq_iff_eq.1 heq)]
  · obtain ⟨row, hrow⟩ := AssocMap.contains_iff.1 hthere
    exact AssocMap.contains_iff.2 ⟨row, AssocMap.get?_of_get?_erase hrow⟩

lemma shut_retain (h : Shut d fs) (hne : text ≠ d) (hbelow : Like.below text d = false)
    (hfs : fs' = { fs with
      files := fs.files.retain fun key _ => !(key == text || Like.below text key) }) :
    Shut d fs' ∧ (shut d).Moves fs fs' := by
  subst hfs
  refine ⟨shut_of_get? h ?_, fun key _ hthere => ?_⟩
  · show (fs.files.retain fun key _ => !(key == text || Like.below text key)).get? d = _
    rw [AssocMap.get?_retain_key (f := fun key => !(key == text || Like.below text key)) _
      fun a ha => by rw [beq_iff_eq.1 ha], if_pos]
    simp [hbelow, hne.symm]
  · obtain ⟨row, hrow⟩ := AssocMap.contains_iff.1 hthere
    exact AssocMap.contains_iff.2 ⟨row, AssocMap.get?_of_get?_retain hrow⟩

/-- A statement that changes a row, before the end of a call. -/
lemma shut_edit {what : String} {f : FileRow → FileRow} {r : Reply} (hmakes : op.makes = false)
    (hdir : ∀ row, (f row).isDir = row.isDir)
    (hmode : ∀ row, (f row).mode = row.mode ∨ ¬ (f row).mode.toUInt32 &&& S_IFMT = S_IFDIR) :
    (Call.statement what (Call.update text f) (.done (.ok r))).GoesOn (shut d) op since s s' := by
  refine goesOn_statement fun s₁ s₂ hshut _ hstmt => ?_
  obtain ⟨hshut₂, hmoves⟩ := shut_update hdir hmode hshut hstmt
  exact ⟨hshut₂, hmoves, shut_done hmakes⟩

/-- The check of the parent goes on only outside of the directory. -/
lemma shut_ensureParentExists {next : Call} (hd : d ≠ [slash])
    (hnext : parentText text ≠ some d → ∀ s₀ s₁, next.GoesOn (shut d) op since s₀ s₁) :
    (Call.ensureParentExists text next).GoesOn (shut d) op since s s' := by
  rw [Call.ensureParentExists]
  cases hparent : parentText text with
  | none =>
    refine hnext (fun heq => ?_) s s'
    rw [hparent] at heq
    cases heq
  | some parent =>
    show (if parent = [slash] then next else _ : Call).GoesOn (shut d) op since s s'
    split_ifs with hroot
    · refine hnext (fun heq => hd ?_) s s'
      obtain rfl := Option.some.inj (hparent.symm.trans heq)
      exact hroot
    · refine goesOn_getMetadata (fun _ _ _ => right_shut_err _) fun s₁ row hshut _ hrow => ?_
      split_ifs with hdir
      · refine hnext (fun heq => ?_) s₁ s₁
        obtain rfl := Option.some.inj (hparent.symm.trans heq)
        obtain ⟨row', hrow', -, hmode⟩ := hshut
        obtain rfl := Option.some.inj (hrow.symm.trans hrow')
        rw [FileMetadata.isDirectory, FileRow.metadata, beq_iff_eq] at hdir
        exact hmode hdir
      · exact shut_err

lemma shut_make {path : PathBuf} {what : String} {row : FileRow} {next : Call} (hd : d ≠ [slash])
    (hnext : ∀ text s₁ s₂, pathToStr path = .ok text → parentText text ≠ some d →
      next.GoesOn (shut d) op since s₁ s₂) :
    (Call.make path what row next).GoesOn (shut d) op since s s' := by
  refine goesOn_withText fun text htext => ?_
  refine shut_ensureParentExists hd fun hparent s₀ s₁ => ?_
  refine goesOn_exists? fun s₂ _ _ => ?_
  split_ifs with hfound
  · exact shut_err
  · refine goesOn_statement fun s₃ s₄ hshut _ hstmt => ?_
    obtain ⟨hshut₄, hmoves⟩ := shut_insert hshut hparent hstmt
    exact ⟨hshut₄, hmoves, hnext text s₃ s₄ htext hparent⟩

/-- The end of a call that has made its path. -/
lemma shut_made {r : Reply} {path : PathBuf} (hpath : op.path = path)
    (htext : pathToStr path = .ok text) (hparent : parentText text ≠ some d) :
    (Program.done (.ok r) : Call).GoesOn (shut d) op since s s' := by
  subst hpath
  refine .done fun _ text' htext' hparent' => ?_
  obtain rfl := Outcome.ok.inj (htext.symm.trans htext')
  exact absurd hparent' hparent

end Shut

/-- All calls that spare the directory keep it shut. -/
lemma shut_admits {maxFileSize : ℕ} {d : Bytes} (hd : d ≠ [slash]) {op : Op}
    (h : op.Spares d) : (shut d).Admits (Op.program maxFileSize) op := by
  intro since _
  cases op with
  | create path now => exact shut_make hd fun text _ _ htext hparent => shut_made rfl htext hparent
  | mkdir path now => exact shut_make hd fun text _ _ htext hparent => shut_made rfl htext hparent
  | write path data offset flags now =>
    refine goesOn_withText fun text _ => ?_
    refine goesOn_isDir (fun _ _ _ => right_shut_err _) fun s₁ row _ _ _ => ?_
    split_ifs
    · exact shut_err
    · exact shut_err
    · exact goesOn_query fun s₂ _ _ => shut_edit rfl (fun _ => rfl) fun _ => Or.inl rfl
  | truncate path size now =>
    refine goesOn_withText fun text _ => ?_
    refine goesOn_isDir (fun _ _ _ => right_shut_err _) fun s₁ row _ _ _ => ?_
    split_ifs
    · exact shut_err
    · exact goesOn_fetchData fun s₂ _ _ _ _ => shut_edit rfl (fun _ => rfl) fun _ => Or.inl rfl
  | touch path now createdAt =>
    refine goesOn_withText fun text _ => ?_
    refine goesOn_exists? fun s₁ _ _ => ?_
    split_ifs
    · exact shut_edit rfl (fun _ => rfl) fun _ => Or.inl rfl
    · exact shut_make hd fun _ _ _ _ _ => shut_edit rfl (fun _ => rfl) fun _ => Or.inl rfl
  | chmod path mode now =>
    refine goesOn_withText fun text _ => ?_
    refine goesOn_exists? fun s₁ _ _ => ?_
    split_ifs
    · exact shut_err
    · refine shut_edit rfl (fun _ => rfl) fun _ => Or.inr ?_
      rw [UInt32.toUInt32_toInt32]
      exact h
  | read path offset size =>
    refine goesOn_withText fun text _ => ?_
    refine goesOn_isDir (fun _ _ _ => right_shut_err _) fun s₁ row _ _ _ => ?_
    split_ifs
    · exact shut_err
    · exact goesOn_fetchData fun s₂ _ _ _ _ => shut_done rfl
  | stat path =>
    refine goesOn_withText fun text _ => ?_
    exact goesOn_getMetadata (fun _ _ _ => right_shut_err _) fun _ _ _ _ _ => shut_done rfl
  | readDir path =>
    refine goesOn_withText fun text _ => ?_
    refine goesOn_isDir (fun _ _ _ => right_shut_err _) fun s₁ row _ _ _ => ?_
    split_ifs
    · exact shut_err
    · exact goesOn_query fun _ _ _ => shut_done rfl
  | remove path =>
    refine goesOn_withText fun text htext => ?_
    refine goesOn_exists? fun s₁ _ _ => ?_
    split_ifs
    · exact shut_err
    · have hrest : ∀ s s', (Call.statement "remove" (Call.delete text)
          (.done (.ok .unit))).GoesOn (shut d) (.remove path) since s s' := by
        intro s s'
        refine goesOn_statement fun s₂ s₃ hshut _ hstmt => ?_
        obtain ⟨hshut₃, hmoves⟩ := shut_delete hshut (fun heq => h (heq ▸ htext)) hstmt
        exact ⟨hshut₃, hmoves, shut_done rfl⟩
      refine goesOn_isDir (fun _ _ _ => right_shut_err _) fun s₂ row _ _ _ => ?_
      cases row.isDir with
      | false => exact hrest _ _
      | true =>
        refine goesOn_query fun s₃ _ _ => ?_
        split_ifs
        · exact shut_err
        · exact hrest _ _
  | removeAll path =>
    refine goesOn_withText fun text htext => ?_
    refine goesOn_exists? fun s₁ _ _ => ?_
    split_ifs
    · exact shut_err
    · refine goesOn_statement fun s₂ s₃ hshut _ hstmt => ?_
      obtain ⟨hne, hbelow⟩ := h text htext
      obtain ⟨hshut₃, hmoves⟩ := shut_retain hshut hne hbelow (Option.some.inj hstmt).symm
      exact ⟨hshut₃, hmoves, shut_done rfl⟩

/-- A table with a directory after `chmod 755`. -/
def shutFs : PgsFS :=
  { rootFs with files := rootFs.files.insert (ascii "/d") (.new true 0o755 0) }

end Racfs.PgsFs
