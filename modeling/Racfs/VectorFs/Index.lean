/-
# The index and the contents

A search finds a document by its vector, which should be the vector of its content (`Indexed`).
`create` and `write` make the vector from the content, and `touch`, `chmod` and `rename` take both
over.  `truncate` changes the content and takes the vector over, so the index is right in all
states of a run exactly if every `truncate` of the run is to a length at which the content has
the vector that it had before (`indexed_iff`).

Runs are those in which nobody sets the attribute `racfs.vector`, and without an embedding
service.  Calls to the database may fail.
-/
import Racfs.Lib.Run
import Racfs.VectorFs.Model

namespace Racfs.VectorFs

open VectorFS

variable {V : Type*} {e : Embedding V} {fs : VectorFS V}

/-- Every document has the vector of its content. -/
def Indexed (e : Embedding V) (fs : VectorFS V) : Prop :=
  ∀ key d, fs.table.get? key = some d → d.vector = e.contentToVector d.data

/-- Nobody has set the attribute. -/
def NoVectorXattr (fs : VectorFS V) : Prop :=
  ∀ path attrs, fs.xattrs.get? path = some attrs → attrs.get? vectorXattr = none

/-- The operation sets the attribute. -/
def Op.SetsVector : Op → Prop
  | .setXattr _ _ name _ => name = vectorXattr
  | _ => False

instance : DecidablePred Op.SetsVector
  | .setXattr _ _ name _ => inferInstanceAs (Decidable (name = vectorXattr))
  | .create .. | .write .. | .truncate .. | .touch .. | .chmod .. | .mkdir .. | .remove .. |
    .removeAll .. | .rename .. | .removeXattr .. => .isFalse id

/-- One operation that does not set the attribute. -/
def step (e : Embedding V) (fs : VectorFS V) (op : Op) : Option (VectorFS V) :=
  if op.SetsVector then none else some (fs.exec e op)

/-- A document whose length is set keeps the vector of its content. -/
def TruncateKeeps (e : Embedding V) (fs : VectorFS V) : Op → Prop
  | .truncate faults path size _ =>
    isVirtualPath path = false → isDocument path = true → faults .get = none →
      faults .persist = none → ∀ d, fs.table.get? (rowKey path.toStringLossy) = some d →
        e.contentToVector (resize d.data size.toNat) = e.contentToVector d.data
  | _ => True

/-- What an operation keeps. -/
structure Good (e : Embedding V) (fs : VectorFS V) : Prop where
  indexed : Indexed e fs
  noXattr : NoVectorXattr fs

/-- What holds in the state that a call leaves, and after all that comes then. -/
lemma andThen_keeps {P : VectorFS V → Prop} {A B : Type*} {r : Outcome A × VectorFS V} (h : P r.2)
    {f : A → VectorFS V → Outcome B × VectorFS V} (hf : ∀ a, r.1 = .ok a → P (f a r.2).2) :
    P (VectorFS.andThen r f).2 := by
  obtain ⟨x, fs⟩ := r
  cases x with
  | ok a => exact hf a rfl
  | err _ => exact h
  | panic => exact h

lemma ite_keeps {P : VectorFS V → Prop} {A : Type*} {p : Prop} [Decidable p]
    {r r' : Outcome A × VectorFS V} (h : P r.2) (h' : P r'.2) : P (if p then r else r').2 := by
  split_ifs
  · exact h
  · exact h'

lemma Good.andThen {A B : Type*} {r : Outcome A × VectorFS V} (h : Good e r.2)
    {f : A → VectorFS V → Outcome B × VectorFS V}
    (hf : ∀ a, r.1 = .ok a → Good e (f a r.2).2) : Good e (VectorFS.andThen r f).2 :=
  andThen_keeps h hf

lemma Good.ite {A : Type*} {p : Prop} [Decidable p] {r r' : Outcome A × VectorFS V}
    (h : Good e r.2) (h' : Good e r'.2) : Good e (if p then r else r').2 :=
  ite_keeps h h'

/-- The maps do not matter, apart from the attributes. -/
lemma Good.of_eq {fs' : VectorFS V} (h : Good e fs) (htable : fs'.table = fs.table)
    (hxattrs : fs'.xattrs = fs.xattrs) : Good e fs' where
  indexed := by
    rw [Indexed, htable]
    exact h.indexed
  noXattr := by
    rw [NoVectorXattr, hxattrs]
    exact h.noXattr

lemma Good.persistDocument (h : Good e fs) (faults : Faults) (path : PathBuf)
    {d : Document V} (hd : d.vector = e.contentToVector d.data) :
    Good e (fs.persistDocument faults path d).2 := by
  rw [VectorFS.persistDocument]
  split
  · refine ⟨fun key d' hd' => ?_, h.noXattr⟩
    rw [AssocMap.get?_insert] at hd'
    split_ifs at hd'
    · obtain rfl := Option.some.inj hd'
      exact hd
    · exact h.indexed key d' hd'
  · exact h

lemma Good.deleteFromDb (h : Good e fs) (faults : Faults) (call : DbCall) (path : PathBuf) :
    Good e (fs.deleteFromDb faults call path).2 := by
  rw [VectorFS.deleteFromDb]
  split
  · exact ⟨fun key d hd => h.indexed key d (AssocMap.get?_of_get?_erase hd), h.noXattr⟩
  · exact h

/-- Removing attributes. -/
lemma Good.eraseXattrs (h : Good e fs) (path : PathBuf) :
    Good e { fs with xattrs := fs.xattrs.erase path } :=
  ⟨h.indexed, fun p attrs hattrs => h.noXattr p attrs (AssocMap.get?_of_get?_erase hattrs)⟩

/-- What is read has the vector of its content. -/
lemma Good.getDocument (h : Good e fs) {faults : Faults} {call : DbCall} {path : PathBuf}
    {d : Document V} (hd : fs.getDocument faults call path = .ok (some d)) :
    d.vector = e.contentToVector d.data := by
  rw [VectorFS.getDocument] at hd
  cases hdb : db faults call "query by path" with
  | ok _ =>
    rw [hdb, Outcome.map_ok] at hd
    exact h.indexed _ d (Outcome.ok.inj hd)
  | err _ =>
    rw [hdb] at hd
    cases hd
  | panic =>
    rw [hdb] at hd
    cases hd

/-- Without the attribute and without a service the vector is made from the content. -/
lemma Good.vectorFor (hapi : e.api = none) (h : Good e fs) {path : PathBuf} {content : Bytes}
    {v : V} (hv : fs.vectorFor e path content = .ok v) : v = e.contentToVector content := by
  have hnone : ((fs.xattrs.get? path).bind fun attrs => attrs.get? vectorXattr) = none := by
    cases hattrs : fs.xattrs.get? path with
    | none => rfl
    | some attrs => exact h.noXattr path attrs hattrs
  rw [VectorFS.vectorFor, hnone] at hv
  simp only [Embedding.embedContent, hapi, Outcome.ok.injEq] at hv
  exact hv.symm

/-! ### The operations -/

lemma Good.create (h : Good e fs) (faults : Faults) (path : PathBuf) (now : DateTime) :
    Good e (fs.create e faults path now).2 := by
  rw [VectorFS.create]
  refine .ite h (.ite h (Good.andThen h fun found _ => .ite h ?_))
  have hpersist := h.persistDocument faults path
    (d := ⟨[], e.contentToVector [], 0o644, timestampMillis now, timestampMillis now⟩) rfl
  exact hpersist.andThen fun _ _ => hpersist.of_eq rfl rfl

lemma Good.writeQuery (h : Good e fs) (path : PathBuf) (data : Bytes) (offset : Int64)
    (flags : WriteFlags) : Good e (fs.writeQuery path data offset flags).2 := by
  rw [VectorFS.writeQuery]
  refine .ite h ?_
  split
  · exact h
  · exact h.of_eq rfl rfl

lemma Good.write (hapi : e.api = none) (h : Good e fs) (faults : Faults) (path : PathBuf)
    (data : Bytes) (offset : Int64) (flags : WriteFlags) (now : DateTime) :
    Good e (fs.write e faults path data offset flags now).2 := by
  rw [VectorFS.write]
  refine .ite (h.writeQuery path data offset flags) (.ite h (.ite h ?_))
  refine Good.andThen h fun found _ => ?_
  cases found with
  | none => exact h
  | some d =>
    refine Good.andThen h fun vector hvector => ?_
    have hpersist := h.persistDocument faults path
      (d := ⟨writeData d.data data offset flags, vector, d.mode, d.createdAt,
        timestampMillis now⟩) (h.vectorFor hapi hvector)
    refine hpersist.andThen fun _ _ => ?_
    extract_lets fs'
    have hmeta : Good e fs' := hpersist.of_eq rfl rfl
    exact Good.andThen hmeta fun count _ => hmeta.of_eq rfl rfl

lemma Good.touch (h : Good e fs) (faults : Faults) (path : PathBuf) (now : DateTime) :
    Good e (fs.touch e faults path now).2 := by
  rw [VectorFS.touch]
  refine .ite h (.ite h (Good.andThen h fun found hfound => ?_))
  cases found with
  | none =>
    have hcreate := h.create faults path now
    exact hcreate.andThen fun _ _ => hcreate.of_eq rfl rfl
  | some d =>
    have hvector : d.vector = e.contentToVector d.data := h.getDocument hfound
    have hpersist := h.persistDocument faults path
      (d := ⟨d.data, d.vector, d.mode, d.createdAt, timestampMillis now⟩) hvector
    exact hpersist.andThen fun _ _ => hpersist.of_eq rfl rfl

lemma Good.chmod (h : Good e fs) (faults : Faults) (path : PathBuf) (mode : UInt32)
    (now : DateTime) : Good e (fs.chmod faults path mode now).2 := by
  rw [VectorFS.chmod]
  refine .ite h (.ite h ?_)
  extract_lets set fs'
  have hset : ∀ {fs : VectorFS V}, Good e fs → Good e (set fs) := fun h => h.of_eq rfl rfl
  refine .ite (Good.andThen (hset h) fun found hfound => ?_) (hset (hset h))
  cases found with
  | none => exact hset (hset h)
  | some d =>
    have hvector : d.vector = e.contentToVector d.data := (hset h).getDocument hfound
    have hpersist := (hset h).persistDocument faults path
      (d := ⟨d.data, d.vector, mode, d.createdAt, timestampMillis now⟩) hvector
    exact hpersist.andThen fun _ _ => hset hpersist

lemma Good.mkdir (h : Good e fs) (path : PathBuf) (now : DateTime) :
    Good e (fs.mkdir path now).2 := by
  rw [VectorFS.mkdir]
  exact .ite h (.ite h (h.of_eq rfl rfl))

lemma Good.remove (h : Good e fs) (faults : Faults) (path : PathBuf) :
    Good e (fs.remove faults path).2 := by
  rw [VectorFS.remove]
  have hdelete := h.deleteFromDb faults (.delete 0) path
  have hsearch : Good e (fs.removeSearch path).2 := by
    rw [removeSearch]
    dsimp only
    split_ifs <;> exact h.of_eq rfl rfl
  refine .ite h (.ite (Good.andThen h fun found _ => ?_) (.ite (.ite h ?_) h))
  · refine .ite (hdelete.andThen fun _ _ => ?_) (h.eraseXattrs path)
    exact (hdelete.eraseXattrs path).of_eq rfl rfl
  · generalize fs.removeSearch path = r at hsearch ⊢
    obtain ⟨_ | _, fs'⟩ := r <;> exact hsearch

lemma Good.removeDocuments (faults : Faults) (ps : List PathBuf) (i : ℕ) (h : Good e fs) :
    Good e (VectorFS.removeDocuments faults i ps fs).2 := by
  induction ps generalizing i fs with
  | nil => exact h
  | cons p ps ih =>
    have hdelete := h.deleteFromDb faults (.delete i) p
    exact hdelete.andThen fun _ _ => ih (i + 1) ((hdelete.eraseXattrs p).of_eq rfl rfl)

lemma Good.removeAll (h : Good e fs) (faults : Faults) (path : PathBuf) :
    Good e (fs.removeAll faults path).2 := by
  rw [VectorFS.removeAll]
  refine .ite h (.ite (Good.andThen h fun paths _ => ?_) (.ite h (h.of_eq rfl rfl)))
  have hremoved := Good.removeDocuments faults (paths.filter fun p => p.startsWith path) 0 h
  exact hremoved.andThen fun _ _ => .ite (hremoved.of_eq rfl rfl) (hremoved.of_eq rfl rfl)

lemma Good.renameRow (h : Good e fs) (faults : Faults) (oldPath newPath : PathBuf)
    (now : DateTime) : Good e (fs.renameRow faults oldPath newPath now).2 := by
  rw [VectorFS.renameRow]
  refine Good.andThen h fun found hfound => ?_
  cases found with
  | none => exact h
  | some d =>
    refine Good.andThen h fun target _ => ?_
    have htarget : Good e (if target.isSome then fs.deleteFromDb faults .deleteNew newPath
        else (.ok (), fs)).2 := .ite (h.deleteFromDb faults .deleteNew newPath) h
    refine Good.andThen htarget fun _ _ => ?_
    have hdelete := htarget.deleteFromDb faults (.delete 0) oldPath
    refine hdelete.andThen fun _ _ => ?_
    have hvector : d.vector = e.contentToVector d.data := h.getDocument hfound
    have hpersist := hdelete.persistDocument faults newPath
      (d := ⟨d.data, d.vector, d.mode, d.createdAt, timestampMillis now⟩) hvector
    exact hpersist.andThen fun _ _ => hpersist.of_eq rfl rfl

lemma Good.rename (h : Good e fs) (faults : Faults) (oldPath newPath : PathBuf)
    (now : DateTime) : Good e (fs.rename faults oldPath newPath now).2 := by
  have hrow := h.renameRow faults oldPath newPath now
  rw [VectorFS.rename]
  dsimp only
  split_ifs
  · exact h
  · exact h
  · generalize fs.renameRow faults oldPath newPath now = r at hrow ⊢
    obtain ⟨x, fs'⟩ := r
    cases x with
    | ok _ =>
      dsimp only
      split_ifs
      · exact hrow.eraseXattrs oldPath
      · exact hrow
    | err _ => exact hrow
    | panic => exact hrow
  · exact h
  · rw [renameSearch]
    split
    · exact h
    · dsimp only
      split_ifs <;> exact h.of_eq rfl rfl
  · exact h

lemma Good.onDocument (h : Good e fs) (faults : Faults) (path : PathBuf)
    {f : VectorFS V → Outcome Reply × VectorFS V} (hf : Good e (f fs).2) :
    Good e (fs.onDocument faults path f).2 := by
  rw [VectorFS.onDocument]
  exact .ite h (Good.andThen h fun found _ => .ite hf h)

lemma Good.setXattr (h : Good e fs) (faults : Faults) (path : PathBuf) {name : Bytes}
    (hname : name ≠ vectorXattr) (value : Bytes) :
    Good e (fs.setXattr faults path name value).2 := by
  refine h.onDocument faults path ⟨h.indexed, fun p attrs hattrs => ?_⟩
  rw [AssocMap.get?_insert] at hattrs
  split_ifs at hattrs
  · obtain rfl := Option.some.inj hattrs
    rw [AssocMap.get?_insert, if_neg (by simpa using hname)]
    cases hold : fs.xattrs.get? path with
    | none => rfl
    | some attrs => exact h.noXattr path attrs hold
  · exact h.noXattr p attrs hattrs

lemma Good.removeXattr (h : Good e fs) (faults : Faults) (path : PathBuf) (name : Bytes) :
    Good e (fs.removeXattr faults path name).2 := by
  refine h.onDocument faults path ?_
  split
  · exact h
  · split_ifs
    · refine ⟨h.indexed, fun p attrs hattrs => ?_⟩
      rw [AssocMap.get?_modify] at hattrs
      split_ifs at hattrs
      · obtain ⟨old, hold, rfl⟩ := Option.map_eq_some_iff.1 hattrs
        rw [AssocMap.get?_erase, h.noXattr p old hold, ite_self]
      · exact h.noXattr p attrs hattrs
    · exact h

/-- A `truncate` stores the content of the new length with the vector that was read, or does
nothing. -/
lemma truncate_cases (e : Embedding V) (fs : VectorFS V) (faults : Faults) (path : PathBuf)
    (size : UInt64) (now : DateTime) :
    (∃ d, (isVirtualPath path = false ∧ isDocument path = true ∧ faults .get = none ∧
        faults .persist = none) ∧ fs.table.get? (rowKey path.toStringLossy) = some d ∧
      (fs.truncate faults path size now).2.table = fs.table.insert path.toStringLossy
        ⟨resize d.data size.toNat, d.vector, d.mode, d.createdAt, timestampMillis now⟩ ∧
      (fs.truncate faults path size now).2.xattrs = fs.xattrs) ∨
    ((fs.truncate faults path size now).2 = fs ∧
      TruncateKeeps e fs (.truncate faults path size now)) := by
  rw [truncate, TruncateKeeps]
  by_cases hvirtual : isVirtualPath path = true
  · rw [if_pos hvirtual]
    exact .inr ⟨rfl, fun h => by simp [hvirtual] at h⟩
  rw [if_neg hvirtual]
  by_cases hdoc : isDocument path = true
  · rw [if_neg (not_not.2 hdoc), VectorFS.getDocument]
    cases hget : faults .get with
    | some _ =>
      rw [db, hget]
      exact .inr ⟨rfl, fun _ _ h => by cases h⟩
    | none =>
      cases hd : fs.table.get? (rowKey path.toStringLossy) with
      | none =>
        rw [db, hget]
        exact .inr ⟨rfl, fun _ _ _ _ d h => by cases h⟩
      | some d =>
        cases hpersist : faults .persist with
        | some _ =>
          refine .inr ⟨?_, fun _ _ _ h => by cases h⟩
          simp [db, hget, hpersist, VectorFS.andThen, VectorFS.persistDocument]
        | none =>
          refine .inl ⟨d, ⟨by simpa using hvirtual, hdoc, rfl, rfl⟩, rfl, ?_⟩
          simp [db, hget, hpersist, VectorFS.andThen, VectorFS.persistDocument, updateMetadata]
  · rw [if_pos hdoc]
    exact .inr ⟨rfl, fun _ h => absurd h hdoc⟩

/-- The index is right after a `truncate` exactly if the vector of the content stays. -/
lemma Good.indexed_truncate_iff (h : Good e fs) (faults : Faults) (path : PathBuf)
    (size : UInt64) (now : DateTime) :
    Indexed e (fs.truncate faults path size now).2 ↔
      TruncateKeeps e fs (.truncate faults path size now) := by
  rcases truncate_cases e fs faults path size now with
    ⟨d, ⟨hvirtual, hdoc, hget, hpersist⟩, hd, htable, -⟩ | ⟨heq, hkeeps⟩
  · have hvector := h.indexed _ d hd
    rw [Indexed, htable]
    constructor
    · intro hindexed _ _ _ _ d' hd'
      obtain rfl := Option.some.inj (hd.symm.trans hd')
      rw [← hvector]
      exact (hindexed _ _ (AssocMap.get?_insert_self ..)).symm
    · intro hkeeps key d' hd'
      rw [AssocMap.get?_insert] at hd'
      split_ifs at hd'
      · obtain rfl := Option.some.inj hd'
        rw [hvector, hkeeps hvirtual hdoc hget hpersist d hd]
      · exact h.indexed key d' hd'
  · rw [heq]
    exact iff_of_true h.indexed hkeeps

lemma Good.truncate (h : Good e fs) {faults : Faults} {path : PathBuf} {size : UInt64}
    {now : DateTime} (hkeeps : TruncateKeeps e fs (.truncate faults path size now)) :
    Good e (fs.truncate faults path size now).2 := by
  refine ⟨(h.indexed_truncate_iff faults path size now).2 hkeeps, ?_⟩
  have hxattrs : (fs.truncate faults path size now).2.xattrs = fs.xattrs := by
    rcases truncate_cases e fs faults path size now with
      ⟨d, -, -, -, hxattrs⟩ | ⟨heq, -⟩
    · exact hxattrs
    · rw [heq]
  rw [NoVectorXattr, hxattrs]
  exact h.noXattr

/-- One step. -/
lemma Good.step (hapi : e.api = none) {fs' : VectorFS V} {op : Op} (h : Good e fs)
    (hkeeps : TruncateKeeps e fs op) (hstep : step e fs op = some fs') : Good e fs' := by
  rw [VectorFs.step] at hstep
  split_ifs at hstep with hsets
  obtain rfl := Option.some.inj hstep
  cases op with
  | create faults path now => exact h.create faults path now
  | write faults path data offset flags now => exact h.write hapi faults path data offset flags now
  | truncate faults path size now => exact h.truncate hkeeps
  | touch faults path now => exact h.touch faults path now
  | chmod faults path mode now => exact h.chmod faults path mode now
  | mkdir path now => exact h.mkdir path now
  | remove faults path => exact h.remove faults path
  | removeAll faults path => exact h.removeAll faults path
  | rename faults oldPath newPath now => exact h.rename faults oldPath newPath now
  | setXattr faults path name value => exact h.setXattr faults path hsets value
  | removeXattr faults path name => exact h.removeXattr faults path name

/-- In every run without an embedding service in which nobody sets the attribute: every document
has the vector of its content in all states exactly if each `truncate` keeps the vector of the
content. -/
theorem indexed_iff {fs : VectorFS V} (hapi : e.api = none) (hxattrs : NoVectorXattr fs)
    (hindexed : Indexed e fs) (ops : List Op) :
    StatesMeet (step e) (Indexed e) fs ops ↔ StepsMeet (step e) (TruncateKeeps e) fs ops := by
  refine statesMeet_iff_of_invariant (I := Good e) (fun s h => h.indexed) ?_
    (fun s op s' h hkeeps hstep => h.step hapi hkeeps hstep) ⟨hindexed, hxattrs⟩
  intro s op s' h hstep hindexed
  cases op with
  | truncate faults path size now =>
    have heq : (s.truncate faults path size now).2 = s' := Option.some.inj hstep
    exact (h.indexed_truncate_iff faults path size now).1 (heq ▸ hindexed)
  | _ => trivial

def noFaults : Faults := fun _ => none

/-- A document that is written and cut. -/
def cutOps : List Op :=
  [.create noFaults ⟨ascii "/documents/a"⟩ 0,
    .write noFaults ⟨ascii "/documents/a"⟩ (ascii "ab") 0 .NONE 0,
    .truncate noFaults ⟨ascii "/documents/a"⟩ 1 0]

theorem indexed_iff_cut :
    StatesMeet (step plainEmbedding) (Indexed plainEmbedding) (new 8 0) cutOps ↔
      StepsMeet (step plainEmbedding) (TruncateKeeps plainEmbedding) (new 8 0) cutOps :=
  indexed_iff rfl (fun _ _ h => by cases h) (fun _ _ h => by cases h) cutOps

/-- Its content is that of the new length, and its vector that of the old content. -/
theorem not_indexed_cut : ¬ StatesMeet (step plainEmbedding) (Indexed plainEmbedding) (new 8 0)
    cutOps := by
  intro hmeet
  have hrow : ((run (step plainEmbedding) (new 8 0) cutOps).bind fun fs =>
      fs.table.get? (ascii "/documents/a")).map (fun d => (d.data, d.vector)) =
        some (ascii "a", ascii "ab") := by decide +kernel
  obtain ⟨d, hd, heq⟩ := Option.map_eq_some_iff.1 hrow
  obtain ⟨fs, hrun, hget⟩ := Option.bind_eq_some_iff.1 hd
  have hindexed := (StatesMeet.run_invariant (P := fun _ => True) (fun _ _ _ _ _ _ => trivial)
    trivial hmeet hrun).2
  have hvector := hindexed _ d hget
  rw [(Prod.mk.inj heq).1, (Prod.mk.inj heq).2] at hvector
  exact absurd hvector (by decide)

end Racfs.VectorFs
