/-
# The answers of calls that run at the same time

All calls of `PgsFS` but for `rename`, statement by statement, with the removals.  Between the
statements of a call anything can happen to the table, but what the call answers is true of the
table at its last statement: a path that is not found is not there, one that exists already is, a
path that has been made was free, what is read is in the row (`answers_true`).  A `write` whose row
has been removed in the meantime succeeds and changes nothing.
-/
import Racfs.PgsFs.Interleaved

namespace Racfs.PgsFs

open Statements
open SqlFs.SqlFS (parentText writeData)

/-- The path of an error is stored under a text. -/
def Names (q : PathBuf) (text : Bytes) : Prop := pathToStr q = .ok text ∨ q = ⟨text⟩

/-- What an error says of a table. -/
def ErrorTrue (op : Op) (fs : PgsFS) : FSError → Prop
  | .NotFound q => ∃ text, Names q text ∧ fs.files.contains text = false
  | .AlreadyExists q => ∃ text, Names q text ∧ fs.files.contains text = true
  | .IsDirectory q => ∃ text row, Names q text ∧ fs.files.get? text = some row ∧ row.isDir = true
  | .NotADirectory q => ∃ text row, Names q text ∧ fs.files.get? text = some row ∧
      (row.isDir = false ∨ (row.metadata text).isDirectory = false)
  | .DirectoryNotEmpty => ∃ text key, pathToStr op.path = .ok text ∧
      fs.files.contains key = true ∧ Like.below text key = true
  | _ => True

/-- A path has been made by the last statement. -/
def Made (path : PathBuf) (dir : Bool) (fs fs' : PgsFS) : Prop :=
  ∃ text row, pathToStr path = .ok text ∧ fs.files.contains text = false ∧
    fs'.files.get? text = some row ∧ row.isDir = dir ∧ row.content = []

/-- The last statement has changed the row of a path, if there is one. -/
def Changed (path : PathBuf) (fs' : PgsFS) (P : FileRow → Prop) : Prop :=
  ∃ text, pathToStr path = .ok text ∧ ∀ row, fs'.files.get? text = some row → P row

/-- What success says of the tables around the last statement. -/
def OkTrue (fs fs' : PgsFS) : Op → Reply → Prop
  | .create path _, _ => Made path false fs fs'
  | .mkdir path _, _ => Made path true fs fs'
  | .write path data offset flags _, r => r = .written data.length.toUInt64 ∧
      ∃ existing, Changed path fs' fun row => row.content = writeData existing data offset flags
  | .truncate path size _, _ => Changed path fs' fun row => row.content.length = size.toNat
  | .touch path now _, _ => Changed path fs' fun row =>
      row.accessedAt = some (FileRow.millis now) ∧ row.modifiedAt = some (FileRow.millis now)
  | .chmod path mode _, _ => Changed path fs' fun row => row.mode.toUInt32 = mode
  | .read path offset size, r => ∃ text row, pathToStr path = .ok text ∧
      fs'.files.get? text = some row ∧
      (MemFs.MemFS.readData row.content offset size).map Reply.data = .ok r
  | .stat path, r => ∃ text row, pathToStr path = .ok text ∧ fs'.files.get? text = some row ∧
      r = .metadata (row.metadata text)
  | .readDir path, r => ∃ text, pathToStr path = .ok text ∧ r = .entries (Call.listed text fs')
  | .remove path, _ => ∃ text, pathToStr path = .ok text ∧ fs'.files.contains text = false ∧
      ∀ key, key ≠ text → fs'.files.get? key = fs.files.get? key
  | .removeAll path, _ => ∃ text, pathToStr path = .ok text ∧ ∀ key,
      fs'.files.get? key = if key = text ∨ Like.below text key then none else fs.files.get? key

/-- What an answer says of the tables around the last statement. -/
def AnswerTrue (op : Op) (fs fs' : PgsFS) : Outcome Reply → Prop
  | .ok r => OkTrue fs fs' op r
  | .err e => ErrorTrue op fs' e
  | .panic => ∃ path offset size, op = .read path offset size

/-- The rule for all calls: nothing is known of the table but what the last statement sees. -/
def truth : Rule Op PgsFS (Outcome Reply) where
  Inv _ := True
  Moves _ _ := True
  refl _ := trivial
  trans _ _ _ _ _ := trivial
  Right op _ a fs fs' := AnswerTrue op fs fs' a

section Truth

variable {op : Op} {since s s' : PgsFS} {text : Bytes}

lemma true_err {e : FSError} (h : ErrorTrue op s' e) :
    (Program.done (.err e) : Call).GoesOn truth op since s s' :=
  .done h

lemma true_ok {r : Reply} (h : OkTrue s s' op r) :
    (Program.done (.ok r) : Call).GoesOn truth op since s s' :=
  .done h

instance : AllowsFailures truth where
  io _ _ _ _ _ := trivial
  noText _ _ _ _ _ := trivial

/-- A path is not found only if it is not there. -/
lemma true_missing (s₁ : PgsFS) (_ : truth.Moves s' s₁) (hrow : s₁.files.get? text = none) :
    truth.Right op since (.err (.NotFound ⟨text⟩)) s₁ s₁ :=
  ⟨text, Or.inr rfl, AssocMap.contains_eq_false_iff.2 hrow⟩

lemma true_statement {what : String} {stmt : PgsFS → Option PgsFS} {next : Call}
    (hnext : ∀ s₁ s₂, stmt s₁ = some s₂ → next.GoesOn truth op since s₁ s₂) :
    (Call.statement what stmt next).GoesOn truth op since s s' :=
  goesOn_statement fun s₁ s₂ _ _ hstmt => ⟨trivial, trivial, hnext s₁ s₂ hstmt⟩

/-- A path that has to be there is looked up, and the call goes on with it there. -/
lemma true_found {path : PathBuf} {next : Call} (htext : pathToStr path = .ok text)
    (hnext : ∀ s₁, s₁.files.contains text = true → next.GoesOn truth op since s₁ s₁) :
    (Call.exists? text fun found =>
      if !found then .done (.err (.NotFound path)) else next).GoesOn truth op since s s' := by
  refine goesOn_exists? fun s₁ _ _ => ?_
  cases hfound : s₁.files.contains text with
  | false => exact true_err ⟨text, Or.inl htext, hfound⟩
  | true => exact hnext s₁ hfound

/-- A call for a file, which is refused for a directory. -/
lemma true_ofFile {path : PathBuf} {next : Call} (htext : pathToStr path = .ok text)
    (hnext : ∀ s₁, next.GoesOn truth op since s₁ s₁) :
    (Call.isDir text fun dir =>
      if dir then .done (.err (.IsDirectory path)) else next).GoesOn truth op since s s' := by
  refine goesOn_isDir true_missing fun s₁ row _ _ hrow => ?_
  split_ifs with hdir
  · exact true_err ⟨text, row, Or.inl htext, hrow, hdir⟩
  · exact hnext s₁

lemma true_ensureParentExists {next : Call}
    (hnext : ∀ s₀ s₁, next.GoesOn truth op since s₀ s₁) :
    (Call.ensureParentExists text next).GoesOn truth op since s s' := by
  rw [Call.ensureParentExists]
  cases parentText text with
  | none => exact hnext s s'
  | some parent =>
    show (if parent = [slash] then next else _ : Call).GoesOn truth op since s s'
    split_ifs with hroot
    · exact hnext s s'
    · refine goesOn_getMetadata true_missing fun s₁ row _ _ hrow => ?_
      split_ifs with hdir
      · exact hnext s₁ s₁
      · exact true_err ⟨parent, row, Or.inr rfl, hrow, Or.inr (Bool.eq_false_iff.2 hdir)⟩

lemma true_make {path : PathBuf} {what : String} {row : FileRow} {next : Call}
    (hcontent : row.content = [])
    (hnext : ∀ s₁ s₂, Made path row.isDir s₁ s₂ → next.GoesOn truth op since s₁ s₂) :
    (Call.make path what row next).GoesOn truth op since s s' := by
  refine goesOn_withText fun text htext => ?_
  refine true_ensureParentExists fun s₀ s₁ => goesOn_exists? fun s₂ _ _ => ?_
  split_ifs with hfound
  · exact true_err ⟨text, Or.inl htext, hfound⟩
  · refine true_statement fun s₃ s₄ hstmt => hnext s₃ s₄ ?_
    obtain ⟨hfree, rfl⟩ := insert_cases hstmt
    exact ⟨text, row, htext, hfree, AssocMap.get?_insert_self .., rfl, hcontent⟩

/-- The last statement of a call that changes a row. -/
lemma true_update {what : String} {path : PathBuf} {f : FileRow → FileRow} {P : FileRow → Prop}
    {r : Reply} (htext : pathToStr path = .ok text) (hP : ∀ row, P (f row))
    (hr : ∀ s₁ s₂, Changed path s₂ P → OkTrue s₁ s₂ op r) :
    (Call.statement what (Call.update text f) (.done (.ok r))).GoesOn truth op since s s' := by
  refine true_statement fun s₁ s₂ hstmt => true_ok (hr s₁ s₂ ⟨text, htext, fun row hrow => ?_⟩)
  obtain rfl := update_cases hstmt
  have hmodified : (s₁.files.modify text f).get? text = some row := hrow
  rw [AssocMap.get?_modify, if_pos (beq_self_eq_true text)] at hmodified
  obtain ⟨row', -, rfl⟩ := Option.map_eq_some_iff.1 hmodified
  exact hP row'

end Truth

/-! ### All calls -/

section Calls

variable {maxFileSize : ℕ}

lemma truth_create (path : PathBuf) (now : DateTime) :
    truth.Admits (Op.program maxFileSize) (.create path now) :=
  fun _ _ => true_make rfl fun _ _ hmade => true_ok hmade

lemma truth_mkdir (path : PathBuf) (now : DateTime) :
    truth.Admits (Op.program maxFileSize) (.mkdir path now) :=
  fun _ _ => true_make rfl fun _ _ hmade => true_ok hmade

lemma truth_write (path : PathBuf) (data : Bytes) (offset : Int64) (flags : WriteFlags)
    (now : DateTime) :
    truth.Admits (Op.program maxFileSize) (.write path data offset flags now) := by
  intro s _
  refine goesOn_withText fun text htext => ?_
  refine true_ofFile htext fun s₁ => ?_
  split_ifs with hlong
  · exact true_err trivial
  · refine goesOn_query fun s₂ _ _ => ?_
    exact true_update htext (fun _ => rfl) fun _ _ hchanged => ⟨rfl, _, hchanged⟩

lemma truth_truncate (path : PathBuf) (size : UInt64) (now : DateTime) :
    truth.Admits (Op.program maxFileSize) (.truncate path size now) := by
  intro s _
  refine goesOn_withText fun text htext => ?_
  refine true_ofFile htext fun s₁ => ?_
  refine goesOn_fetchData fun s₂ row _ _ _ => ?_
  refine true_update htext (fun row' => ?_) fun _ _ hchanged => hchanged
  show (if size.toNat < row.content.length then row.content.take size.toNat
    else resize row.content size.toNat).length = size.toNat
  split_ifs with hshort
  · rw [List.length_take, min_eq_left hshort.le]
  · exact length_resize _ _

lemma truth_touch (path : PathBuf) (now createdAt : DateTime) :
    truth.Admits (Op.program maxFileSize) (.touch path now createdAt) := by
  intro s _
  refine goesOn_withText fun text htext => ?_
  refine goesOn_exists? fun s₁ _ _ => ?_
  split_ifs with hfound
  · exact true_update htext (fun _ => ⟨rfl, rfl⟩) fun _ _ hchanged => hchanged
  · refine true_make rfl fun s₂ s₃ _ => ?_
    exact true_update htext (fun _ => ⟨rfl, rfl⟩) fun _ _ hchanged => hchanged

lemma truth_chmod (path : PathBuf) (mode : UInt32) (now : DateTime) :
    truth.Admits (Op.program maxFileSize) (.chmod path mode now) := by
  intro s _
  refine goesOn_withText fun text htext => ?_
  refine true_found htext fun s₁ _ => ?_
  exact true_update htext (fun _ => UInt32.toUInt32_toInt32 mode) fun _ _ hchanged => hchanged

lemma truth_read (path : PathBuf) (offset size : Int64) :
    truth.Admits (Op.program maxFileSize) (.read path offset size) := by
  intro s _
  refine goesOn_withText fun text htext => ?_
  refine true_ofFile htext fun s₁ => ?_
  refine goesOn_fetchData fun s₂ row _ _ hrow => .done ?_
  show AnswerTrue _ s₂ s₂ ((MemFs.MemFS.readData row.content offset size).map Reply.data)
  cases hdata : (MemFs.MemFS.readData row.content offset size).map Reply.data with
  | ok r => exact ⟨text, row, htext, hrow, hdata⟩
  | err e =>
    rw [MemFs.MemFS.readData] at hdata
    split_ifs at hdata <;> cases hdata
  | panic => exact ⟨path, offset, size, rfl⟩

lemma truth_stat (path : PathBuf) : truth.Admits (Op.program maxFileSize) (.stat path) := by
  intro s _
  refine goesOn_withText fun text htext => ?_
  exact goesOn_getMetadata true_missing fun s₁ row _ _ hrow => true_ok ⟨text, row, htext, hrow, rfl⟩

lemma truth_readDir (path : PathBuf) :
    truth.Admits (Op.program maxFileSize) (.readDir path) := by
  intro s _
  refine goesOn_withText fun text htext => ?_
  refine goesOn_isDir true_missing fun s₁ row _ _ hrow => ?_
  cases hdir : row.isDir with
  | false => exact true_err ⟨text, row, Or.inl htext, hrow, Or.inl hdir⟩
  | true => exact goesOn_query fun s₂ _ _ => true_ok ⟨text, htext, rfl⟩

lemma truth_remove (path : PathBuf) : truth.Admits (Op.program maxFileSize) (.remove path) := by
  intro since _
  refine goesOn_withText fun text htext => ?_
  refine true_found htext fun s₁ _ => ?_
  have hrest : ∀ s s', (Call.statement "remove" (Call.delete text) (.done (.ok .unit))).GoesOn truth
      (.remove path) since s s' := by
    intro s s'
    refine true_statement fun s₂ s₃ hstmt => true_ok ?_
    obtain rfl := Option.some.inj hstmt
    refine ⟨text, htext, AssocMap.contains_eq_false_iff.2 (AssocMap.get?_erase_self ..), ?_⟩
    intro key hkey
    show (s₂.files.erase text).get? key = s₂.files.get? key
    rw [AssocMap.get?_erase, if_neg fun h => hkey (beq_iff_eq.1 h).symm]
  refine goesOn_isDir true_missing fun s₂ row _ _ _ => ?_
  cases row.isDir with
  | false => exact hrest _ _
  | true =>
    refine goesOn_query fun s₃ _ _ => ?_
    split_ifs with hbelow
    · obtain ⟨key, hkey, hbelow⟩ := List.any_eq_true.1 hbelow
      exact true_err ⟨text, key, htext, AssocMap.contains_iff.2 (AssocMap.mem_keys.1 hkey), hbelow⟩
    · exact hrest _ _

lemma truth_removeAll (path : PathBuf) :
    truth.Admits (Op.program maxFileSize) (.removeAll path) := by
  intro s _
  refine goesOn_withText fun text htext => ?_
  refine true_found htext fun s₁ _ => ?_
  refine true_statement fun s₂ s₃ hstmt => true_ok ⟨text, htext, fun key => ?_⟩
  obtain rfl := Option.some.inj hstmt
  show (s₂.files.retain fun key _ => !(key == text || Like.below text key)).get? key = _
  rw [AssocMap.get?_retain_key (f := fun key => !(key == text || Like.below text key)) _
    fun a ha => by rw [beq_iff_eq.1 ha]]
  by_cases hkey : key = text ∨ Like.below text key = true
  · rw [if_pos hkey, if_neg]
    rcases hkey with hkey | hkey <;> simp [hkey]
  · rw [if_neg hkey, if_pos]
    simpa using hkey

lemma truth_admits (op : Op) : truth.Admits (Op.program maxFileSize) op := by
  cases op with
  | create path now => exact truth_create path now
  | mkdir path now => exact truth_mkdir path now
  | write path data offset flags now => exact truth_write path data offset flags now
  | truncate path size now => exact truth_truncate path size now
  | touch path now createdAt => exact truth_touch path now createdAt
  | chmod path mode now => exact truth_chmod path mode now
  | read path offset size => exact truth_read path offset size
  | stat path => exact truth_stat path
  | readDir path => exact truth_readDir path
  | remove path => exact truth_remove path
  | removeAll path => exact truth_removeAll path

end Calls

end Racfs.PgsFs
