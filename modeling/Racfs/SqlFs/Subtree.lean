/-
# Renaming a directory

A rename of a directory changes the paths of rows by two statements.  The first is for the rows
that match the pattern for what is below the directory: each gets the new path, followed by what
is left of its own path behind the old one.  The length of the old path comes from the program,
in bytes, but the database counts characters.  And the pattern, with wildcards in it and without
a difference between upper and lower case, also matches rows elsewhere.

So a rename moves exactly the subtree (`MovesSubtree`) if every row at or under the directory
matches, and is cut behind the directory, and if every other row that matches is given the path
that it has anyway (`rename_moves_rows_iff`).  With normal paths the first says that the old path
has as many characters as bytes, if there is anything below it
(`rename_moves_rows_iff_of_normal`).
-/
import Racfs.SqlFs.Tree

namespace Racfs.SqlFs

open SqlFS

/-- The components of the key begin with those of the directory. -/
def AtOrUnder (text key : Bytes) : Prop := (PathBuf.mk key).startsWith ⟨text⟩ = true

instance (text key : Bytes) : Decidable (AtOrUnder text key) := by
  unfold AtOrUnder
  infer_instance

/-- The old path, however it is spelled at the beginning of the key, is replaced by the new one,
and the rest of the key is as it was. -/
def Replaced (oldText newText key key' : Bytes) : Prop :=
  ∃ front rest, key = front ++ rest ∧ (PathBuf.mk front == PathBuf.mk oldText) = true ∧
    (rest = [] ∨ rest.head? = some slash) ∧ key' = newText ++ rest

/-- The rows at and under the old path have the new path in its place, and the others have the
paths that they had.  No row has changed otherwise. -/
def MovesSubtree (files files' : AssocMap Bytes FileRow) (oldText newText : Bytes) : Prop :=
  ∃ path : Bytes → Bytes, files'.entries = files.entries.map (fun e => (path e.1, e.2)) ∧
    ∀ key ∈ files.keys, (AtOrUnder oldText key → Replaced oldText newText key (path key)) ∧
      (¬ AtOrUnder oldText key → path key = key)

/-! ### What the statements do -/

/-- The path of a row after both statements. -/
def movedKey (oldText newText key : Bytes) : Bytes :=
  if key = oldText then newText
  else if below oldText key then movedText oldText newText key else key

lemma exists_statements {fs : SqlFS} {o n : PathBuf} {oldText newText : Bytes} {row : FileRow}
    (hold : pathToStr o = .ok oldText) (hnew : pathToStr n = .ok newText)
    (hrow : fs.files.get? oldText = some row) (hdir : row.isDir = true)
    (hok : (fs.rename o n).1 = .ok .unit) :
    ∃ files₁, Sql.moveRows fs.fits fs.files (fs.files.keys.filter (below oldText))
        (movedText oldText newText) = .ok files₁ ∧
      Sql.moveRow fs.fits files₁ oldText newText = .ok (fs.rename o n).2.files := by
  have hstored : fs.exists? oldText = true := AssocMap.contains_iff.2 ⟨row, hrow⟩
  have hisDir : fs.isDir oldText = .ok true := by
    rw [isDir, hrow]
    exact congrArg Outcome.ok hdir
  have heq : fs.rename o n =
      if fs.exists? newText then (.err (.AlreadyExists n), fs)
      else fs.execute "move directory children"
        (Sql.moveRows fs.fits fs.files (fs.files.keys.filter (below oldText))
          (movedText oldText newText)) fun fs =>
        fs.execute "move directory" (Sql.moveRow fs.fits fs.files oldText newText) fun fs =>
          (.ok .unit, fs) := by
    rw [rename, hold, hnew]
    simp only [SqlFS.check, hstored, hisDir, Bool.not_true, Bool.false_eq_true, if_false, if_true]
  rw [heq] at hok ⊢
  cases hused : fs.exists? newText with
  | true => simp [hused] at hok
  | false =>
    simp only [hused, Bool.false_eq_true, if_false] at hok ⊢
    cases hchildren : Sql.moveRows fs.fits fs.files (fs.files.keys.filter (below oldText))
      (movedText oldText newText) with
    | error e => simp [hchildren, execute] at hok
    | ok files₁ =>
      simp only [hchildren, execute] at hok ⊢
      cases hself : Sql.moveRow fs.fits files₁ oldText newText with
      | error e => simp [hself] at hok
      | ok files₂ => exact ⟨files₁, rfl, by simp only [hself]⟩

/-- A rename that succeeds changes nothing but the paths of rows. -/
lemma entries_rename {fs : SqlFS} {o n : PathBuf} {oldText newText : Bytes} {row : FileRow}
    (hold : pathToStr o = .ok oldText) (hnew : pathToStr n = .ok newText)
    (hrow : fs.files.get? oldText = some row) (hdir : row.isDir = true)
    (hok : (fs.rename o n).1 = .ok .unit) :
    (fs.rename o n).2.files.entries =
      fs.files.entries.map fun e => (movedKey oldText newText e.1, e.2) := by
  obtain ⟨files₁, hchildren, hself⟩ := exists_statements hold hnew hrow hdir hok
  have hmem : ∀ e ∈ fs.files.entries,
      e.1 ∈ fs.files.keys.filter (below oldText) ↔ below oldText e.1 = true := by
    intro e he
    rw [List.mem_filter]
    exact and_iff_right (List.mem_map_of_mem (f := Prod.fst) he)
  rw [Sql.entries_moveRows_moveRow hchildren hself (fs.files.nodup_keys.filter _)
    (fun k hk => (List.mem_filter.1 hk).1) (AssocMap.mem_keys.2 ⟨row, hrow⟩)
    (by simp [not_below_self])]
  refine List.map_congr_left fun e he => ?_
  simp only [movedKey, beq_iff_eq, hmem e he]

/-! ### Where a path is cut -/

/-- As many characters of the key as the old path has bytes. -/
def cutFront (oldText key : Bytes) : Bytes := ((Utf8.chars key).take oldText.length).flatten

/-- What is cut off spells the old path, and a separator follows, if anything. -/
def CutBehindOld (oldText key : Bytes) : Prop :=
  (PathBuf.mk (cutFront oldText key) == PathBuf.mk oldText) = true ∧
    (Sql.substr key (oldText.length + 1) = [] ∨
      (Sql.substr key (oldText.length + 1)).head? = some slash)

instance (oldText key : Bytes) : Decidable (CutBehindOld oldText key) := by
  unfold CutBehindOld
  infer_instance

lemma cutFront_append_substr (oldText key : Bytes) :
    cutFront oldText key ++ Sql.substr key (oldText.length + 1) = key := by
  rw [cutFront, Sql.substr, Nat.add_sub_cancel, ← List.flatten_append, List.take_append_drop,
    Utf8.flatten_chars]

lemma atOrUnder_of_beq {text key : Bytes} (h : (PathBuf.mk key == PathBuf.mk text) = true) :
    AtOrUnder text key :=
  PathBuf.startsWith_iff.2 (by rw [PathBuf.beq_iff.1 h])

/-- What the rename has to do with a row at or under the old path. -/
lemma replaced_movedKey_iff {oldText newText key : Bytes} (hnot : ¬ AtOrUnder oldText newText) :
    Replaced oldText newText key (movedKey oldText newText key) ↔
      key = oldText ∨ below oldText key = true ∧ CutBehindOld oldText key := by
  rw [movedKey]
  split_ifs with heq hbelow
  · refine iff_of_true ⟨oldText, [], ?_, BEq.rfl, Or.inl rfl, (List.append_nil _).symm⟩ (Or.inl heq)
    rw [heq, List.append_nil]
  · simp only [heq, hbelow, false_or, true_and]
    constructor
    · rintro ⟨front, rest, hkey, hfront, hrest, hmoved⟩
      obtain rfl : Sql.substr key (oldText.length + 1) = rest := List.append_cancel_left hmoved
      have hcut : cutFront oldText key = front :=
        List.append_cancel_right ((cutFront_append_substr oldText key).trans hkey)
      exact ⟨by rwa [hcut], hrest⟩
    · rintro ⟨hfront, hrest⟩
      exact ⟨_, _, (cutFront_append_substr oldText key).symm, hfront, hrest, rfl⟩
  · simp only [heq, hbelow, false_or, Bool.false_eq_true, false_and, iff_false]
    -- a row that stays would have to have the new path at its beginning already
    rintro ⟨front, rest, hkey, hfront, -, hmoved⟩
    obtain rfl := List.append_cancel_right (hkey.symm.trans hmoved)
    exact hnot (atOrUnder_of_beq hfront)

/-- What it has to do with another row. -/
lemma movedKey_eq_self_iff {oldText newText key : Bytes} (hother : ¬ AtOrUnder oldText key) :
    movedKey oldText newText key = key ↔
      (below oldText key = true → cutFront oldText key = newText) := by
  have hne : key ≠ oldText := by
    rintro rfl
    exact hother (atOrUnder_of_beq BEq.rfl)
  rw [movedKey, if_neg hne]
  split_ifs with hbelow
  · simp only [hbelow, forall_true_left]
    constructor
    · intro h
      exact (List.append_cancel_right (h.trans (cutFront_append_substr oldText key).symm)).symm
    · intro h
      rw [movedText, ← h]
      exact cutFront_append_substr oldText key
  · simp [hbelow]

/-- The rename row by row. -/
lemma movesSubtree_iff (fs : SqlFS) {o n : PathBuf} {oldText newText : Bytes}
    {row : FileRow} (hold : pathToStr o = .ok oldText) (hnew : pathToStr n = .ok newText)
    (hrow : fs.files.get? oldText = some row) (hdir : row.isDir = true)
    (hnot : ¬ AtOrUnder oldText newText) (hok : (fs.rename o n).1 = .ok .unit) :
    MovesSubtree fs.files (fs.rename o n).2.files oldText newText ↔ ∀ key ∈ fs.files.keys,
      (AtOrUnder oldText key →
        key = oldText ∨ below oldText key = true ∧ CutBehindOld oldText key) ∧
      (¬ AtOrUnder oldText key → below oldText key = true → cutFront oldText key = newText) := by
  have hentries := entries_rename hold hnew hrow hdir hok
  have hpaths := Sql.exists_path_iff (P := fun key key' =>
    (AtOrUnder oldText key → Replaced oldText newText key key') ∧
      (¬ AtOrUnder oldText key → key' = key)) hentries
  refine hpaths.trans (forall₂_congr fun key _ => and_congr ?_ ?_)
  · exact forall_congr' fun _ => replaced_movedKey_iff hnot
  · exact forall_congr' fun hother => movedKey_eq_self_iff hother

/-- In every table, a rename of a directory to a path that is not at or under it, if it succeeds,
moves exactly the subtree if and only if every row at or under the directory is that of the
directory or matches the pattern and is cut behind the directory, and every other row that matches
the pattern begins with the new path where it is cut. -/
theorem rename_moves_rows_iff (fs : SqlFS) {o n : PathBuf} {oldText newText : Bytes}
    {row : FileRow} (hold : pathToStr o = .ok oldText) (hnew : pathToStr n = .ok newText)
    (hrow : fs.files.get? oldText = some row) (hdir : row.isDir = true)
    (hnot : ¬ AtOrUnder oldText newText) (hok : (fs.rename o n).1 = .ok .unit) :
    MovesSubtree fs.files (fs.rename o n).2.files oldText newText ↔ ∀ key ∈ fs.files.keys,
      (AtOrUnder oldText key →
        key = oldText ∨ below oldText key = true ∧ CutBehindOld oldText key) ∧
      (¬ AtOrUnder oldText key → below oldText key = true → cutFront oldText key = newText) :=
  movesSubtree_iff fs hold hnew hrow hdir hnot hok

/-- A filesystem with a directory, which contains the file `x`. -/
def dirFs (dir : PathBuf) : SqlFS :=
  let fs := ((SqlFS.new .default (fun _ _ => true) 0).mkdir dir 0).2
  (fs.create (dir.push ⟨ascii "x"⟩) 0).2

/-- The directory `/a` becomes `/b`. -/
theorem rename_moves_rows_ascii :
    MovesSubtree (dirFs ⟨ascii "/a"⟩).files
      ((dirFs ⟨ascii "/a"⟩).rename ⟨ascii "/a"⟩ ⟨ascii "/b"⟩).2.files (ascii "/a") (ascii "/b") :=
  (@rename_moves_rows_iff (dirFs ⟨ascii "/a"⟩) ⟨ascii "/a"⟩ ⟨ascii "/b"⟩ (ascii "/a") (ascii "/b")
    _ rfl rfl rfl rfl (by decide) rfl).2 (by decide)

/-- The path `/é`: two characters, three bytes. -/
def accentPath : Bytes := [slash, 0xC3, 0xA9]

/-- The directory `/é` becomes `/n`, and the file in it becomes `/nx`. -/
theorem rename_cuts_too_much :
    ((dirFs ⟨accentPath⟩).rename ⟨accentPath⟩ ⟨ascii "/n"⟩).1 = .ok .unit ∧
      (dirFs ⟨accentPath⟩).files.keys = [[slash], accentPath, accentPath ++ ascii "/x"] ∧
      ((dirFs ⟨accentPath⟩).rename ⟨accentPath⟩ ⟨ascii "/n"⟩).2.files.keys =
        [[slash], ascii "/n", ascii "/nx"] ∧
      ¬ MovesSubtree (dirFs ⟨accentPath⟩).files
        ((dirFs ⟨accentPath⟩).rename ⟨accentPath⟩ ⟨ascii "/n"⟩).2.files accentPath
        (ascii "/n") := by
  refine ⟨rfl, rfl, rfl, ?_⟩
  rintro ⟨path, hpath, hkeys⟩
  have hmoved : path (accentPath ++ ascii "/x") = ascii "/nx" := by
    have hlast := congrArg (fun l => (l.map Prod.fst).getLast?) hpath
    exact (Option.some.inj hlast).symm
  obtain ⟨front, rest, -, -, hrest, heq⟩ :=
    (hkeys (accentPath ++ ascii "/x") (by decide)).1 (by decide)
  rw [hmoved] at heq
  obtain rfl : ascii "x" = rest := @List.append_cancel_left _ (ascii "/n") _ _ heq
  exact absurd hrest (by decide)

/-! ### Normal paths -/

lemma atOrUnder_text {o p : AbsPath} :
    AtOrUnder (AbsPath.text o.names) (AbsPath.text p.names) ↔ o.names <+: p.names :=
  @AbsPath.startsWith_iff p o

/-- What is cut off a normal path is the old path itself, if it spells it. -/
lemma cutFront_eq_of_cutBehindOld {o p : AbsPath} (hne : p.names ≠ o.names)
    (h : CutBehindOld (AbsPath.text o.names) (AbsPath.text p.names)) :
    cutFront (AbsPath.text o.names) (AbsPath.text p.names) = AbsPath.text o.names := by
  obtain ⟨hfront, hcut⟩ := h
  have hkey := cutFront_append_substr (AbsPath.text o.names) (AbsPath.text p.names)
  have hcomps : (PathBuf.mk (cutFront (AbsPath.text o.names) (AbsPath.text p.names))).components =
      o.toPath.components := PathBuf.beq_iff.1 hfront
  rcases hcut with hnil | hslash
  · -- the whole path would be the old one
    rw [hnil, List.append_nil] at hkey
    rw [hkey] at hcomps
    have heq : p.toPath.components = o.toPath.components := hcomps
    rw [AbsPath.components_toPath, AbsPath.components_toPath, List.cons.injEq] at heq
    exact absurd (AbsPath.map_normal_injective heq.2) hne
  · obtain ⟨t, ht⟩ := List.head?_eq_some_iff.1 hslash
    have hnonempty : cutFront (AbsPath.text o.names) (AbsPath.text p.names) ≠ [] := by
      intro hnil
      rw [hnil, AbsPath.components_toPath] at hcomps
      cases hcomps
    rw [ht] at hkey
    obtain ⟨ms, ns, hnames, -, -, hms, -⟩ := AbsPath.exists_names_of_append hnonempty hkey.symm
    have hvalid : ∀ m ∈ ms, IsName m := fun m hm => p.valid m (by simp [hnames, hm])
    have heq : (AbsPath.mk ms hvalid).toPath.components = o.toPath.components := by
      rw [← hcomps, ← hms]
      rfl
    rw [AbsPath.components_toPath, AbsPath.components_toPath, List.cons.injEq] at heq
    have hms' : ms = o.names := AbsPath.map_normal_injective heq.2
    rw [← hms, hms']

/-- Below a normal path, the cut is behind it if it has as many characters as bytes. -/
lemma cutBehindOld_iff {o p : AbsPath} (ho : o.names ≠ []) (hpre : o.names <+: p.names)
    (hne : p.names ≠ o.names) :
    CutBehindOld (AbsPath.text o.names) (AbsPath.text p.names) ↔
      (Utf8.chars (AbsPath.text o.names)).length = (AbsPath.text o.names).length := by
  obtain ⟨rest, -, -, htext⟩ := AbsPath.exists_text_append ho hpre hne
  rw [AbsPath.text.eq_def rest] at htext
  have hchars := Utf8.chars_append (AbsPath.text o.names) ([slash].intercalate rest) slash_lt
  rw [← htext] at hchars
  constructor
  · intro h
    have hold := cutFront_eq_of_cutBehindOld hne h
    by_contra hlen
    -- the separator would be cut off too
    have hlt := lt_of_le_of_ne (Utf8.length_chars_le (AbsPath.text o.names)) hlen
    obtain ⟨d, hd⟩ := Nat.exists_eq_add_of_lt hlt
    rw [cutFront, hchars, hd, Nat.add_assoc, List.take_length_add_append, List.take_succ_cons,
      List.flatten_append, Utf8.flatten_chars] at hold
    simp at hold
  · intro hlen
    have hsubstr : Sql.substr (AbsPath.text p.names) ((AbsPath.text o.names).length + 1) =
        slash :: [slash].intercalate rest := by
      rw [htext, ← hlen]
      exact Sql.substr_append _ slash_lt _
    have hfront : cutFront (AbsPath.text o.names) (AbsPath.text p.names) =
        AbsPath.text o.names := by
      rw [cutFront, hchars, ← hlen, List.take_left', Utf8.flatten_chars]
      rfl
    exact ⟨by rw [hfront]; exact BEq.rfl, Or.inr (by rw [hsubstr]; rfl)⟩

/-- With normal paths a rename moves exactly the subtree if and only if the old path has as many
characters as bytes or nothing is below it, and every row elsewhere that matches the pattern
begins with the new path where it is cut. -/
theorem rename_moves_rows_iff_of_normal (fs : SqlFS) {o : AbsPath} {n : PathBuf} {newText : Bytes}
    {row : FileRow} (hkeys : ∀ key ∈ fs.files.keys, ∃ p : AbsPath, key = AbsPath.text p.names)
    (hroot : o.names ≠ []) (hold : pathToStr o = .ok (AbsPath.text o.names))
    (hnew : pathToStr n = .ok newText) (hrow : fs.files.get? (AbsPath.text o.names) = some row)
    (hdir : row.isDir = true) (hnot : ¬ AtOrUnder (AbsPath.text o.names) newText)
    (hok : (fs.rename o n).1 = .ok .unit) :
    MovesSubtree fs.files (fs.rename o n).2.files (AbsPath.text o.names) newText ↔
      (∀ p : AbsPath, AbsPath.text p.names ∈ fs.files.keys → o.names <+: p.names →
        p.names ≠ o.names →
          (Utf8.chars (AbsPath.text o.names)).length = (AbsPath.text o.names).length) ∧
      ∀ p : AbsPath, AbsPath.text p.names ∈ fs.files.keys → ¬ o.names <+: p.names →
        below (AbsPath.text o.names) (AbsPath.text p.names) = true →
          cutFront (AbsPath.text o.names) (AbsPath.text p.names) = newText := by
  rw [movesSubtree_iff fs hold hnew hrow hdir hnot hok]
  constructor
  · intro h
    refine ⟨fun p hp hpre hne => ?_, fun p hp hother => ?_⟩
    · rcases (h _ hp).1 (atOrUnder_text.2 hpre) with heq | ⟨-, hcut⟩
      · exact absurd (congrArg AbsPath.names (AbsPath.text_inj.1 heq)) hne
      · exact (cutBehindOld_iff hroot hpre hne).1 hcut
    · exact (h _ hp).2 (mt atOrUnder_text.1 hother)
  · rintro ⟨hlen, hother⟩ key hkey
    obtain ⟨p, rfl⟩ := hkeys key hkey
    refine ⟨fun hat => ?_, fun hnotat => hother p hkey (mt atOrUnder_text.2 hnotat)⟩
    have hpre := atOrUnder_text.1 hat
    by_cases hne : p.names = o.names
    · exact Or.inl (by rw [hne])
    · obtain ⟨rest, hrestne, hrest, -⟩ := AbsPath.exists_text_append hroot hpre hne
      refine Or.inr ⟨?_, (cutBehindOld_iff hroot hpre hne).2 (hlen p hkey hpre hne)⟩
      rw [hrest]
      exact below_append hroot hrestne

end Racfs.SqlFs
