/-
# When the backends of the key-value filesystem agree

One lemma for each operation and backend pair: where the call is interchangeable, the two
results are the same and the two filesystems stay related; where it is not, the difference
shows at once.  The theorems about runs are put together from these.
-/
import Racfs.KvFs.Backends

namespace Racfs.KvFs

variable {mem : KvMemory} {sql : KvSqlite}

lemma not_sameVariant_insertError (path : PathBuf) (what : String) :
    ¬ (FSError.AlreadyExists path).SameVariant (KvSqlite.insertError what) := by
  change ¬ (2 : ℕ) = 6
  decide

lemma not_sameVariant_notFound (path path' : PathBuf) :
    ¬ (FSError.NotFound path).SameVariant (.AlreadyExists path') := by
  change ¬ (0 : ℕ) = 2
  decide

/-- The ends of a call on both filesystems go together. -/
def Together (x : Outcome Reply × KvMemory) (y : Outcome Reply × KvSqlite) : Prop :=
  SameOutcome x.1 y.1 ∧ Related x.2 y.2

namespace Related

/-- New entries for one path that go together. -/
lemma set (h : Related mem sql) (p : EntryPath) {mem' : KvMemory} {sql' : KvSqlite}
    (d? : Option Bytes) (m? : Option FileMetadata) (row? : Option KvRow)
    (hsame : Same p d? m? row?)
    (hstore : ∀ q : EntryPath,
      mem'.store.get? q.toPath = if p = q then d? else mem.store.get? q.toPath)
    (hmeta : ∀ q : EntryPath,
      mem'.metadata.get? q.toPath = if p = q then m? else mem.metadata.get? q.toPath)
    (hrows : ∀ q : EntryPath,
      sql'.rows.get? q.text = if p = q then row? else sql.rows.get? q.text)
    (hmem : mem'.WellKeyed) (hsql : sql'.WellKeyed) : Related mem' sql' where
  memKeys := hmem
  sqlKeys := hsql
  same := by
    intro q
    rw [hstore, hmeta, hrows]
    by_cases hq : p = q
    · subst hq
      simpa using hsame
    · simpa [hq] using h.same q

/-- The entries of a path where nothing is. -/
lemma of_free (h : Related mem sql) {p : EntryPath} (hfree : sql.rows.get? p.text = none) :
    mem.store.get? p.toPath = none ∧ mem.metadata.get? p.toPath = none := by
  have hsame := h.same p
  rwa [hfree] at hsame

/-- The entries of a path where something is. -/
lemma of_row (h : Related mem sql) {p : EntryPath} {row : KvRow}
    (hrow : sql.rows.get? p.text = some row) :
    mem.store.get? p.toPath = row.content ∧
      ∃ m, mem.metadata.get? p.toPath = some m ∧ Shows p m row := by
  have hsame := h.same p
  rwa [hrow] at hsame

/-- The three entries of a file. -/
lemma of_file (h : Related mem sql) {p : EntryPath} (hfile : mem.store.contains p.toPath = true) :
    ∃ data m row, mem.store.get? p.toPath = some data ∧ mem.metadata.get? p.toPath = some m ∧
      sql.rows.get? p.text = some row ∧ row.content = some data ∧ Shows p m row := by
  obtain ⟨data, hdata⟩ := AssocMap.contains_iff.1 hfile
  have hcontent := (h.same p).content
  rw [hdata] at hcontent
  obtain ⟨row, hrow, hrowdata⟩ := Option.bind_eq_some_iff.1 hcontent.symm
  obtain ⟨-, m, hm, hshows⟩ := h.of_row hrow
  exact ⟨data, m, row, hdata, hm, hrow, hrowdata, hshows⟩

/-- A file that moves leaves the keys of the memory paths. -/
lemma wellKeyed_move (h : Related mem sql) (p q : EntryPath) (data : Bytes) (m : FileMetadata) :
    KvMemory.WellKeyed ⟨(mem.store.erase p.toPath).insert q.toPath data,
      (mem.metadata.erase p.toPath).insert q.toPath m⟩ :=
  AssocMap.forall_keys_insert (AssocMap.forall_keys_retain h.memKeys _) ⟨q, rfl⟩ m

/-! ### Creating -/

lemma fileMode_eq : FileMetadata.fileMode = S_IFREG ||| 0o644 := by decide

lemma dirMode_eq : FileMetadata.dirMode = S_IFDIR ||| 0o755 := by decide

lemma insert_keys (h : Related mem sql) (p : EntryPath) (m : FileMetadata) (row : KvRow) :
    (∀ k ∈ (mem.metadata.insert p.toPath m).keys, ∃ q : EntryPath, k = q.toPath) ∧
      ∀ k ∈ (sql.rows.insert p.text row).keys, k = [slash] ∨ ∃ q : EntryPath, k = q.text :=
  ⟨AssocMap.forall_keys_insert h.memKeys ⟨p, rfl⟩ m,
    AssocMap.forall_keys_insert h.sqlKeys (Or.inr ⟨p, rfl⟩) row⟩

lemma create_together (h : Related mem sql) {p : EntryPath}
    (hfree : mem.metadata.contains p.toPath = false) (now : DateTime) :
    Together (mem.create p.toPath now) (sql.create p.toPath) := by
  rw [h.contains_eq] at hfree
  have hnone := h.of_free (AssocMap.contains_eq_false_iff.1 hfree)
  have hstore : mem.store.contains p.toPath = false :=
    AssocMap.contains_eq_false_iff.2 hnone.1
  rw [KvMemory.create, hstore, KvSqlite.create, KvSqlite.withPath_toPath,
    KvSqlite.execute_insertRow, hfree, if_neg Bool.false_ne_true, if_neg Bool.false_ne_true]
  obtain ⟨hmem, hsql⟩ := h.insert_keys p (.file p.toPath 0 now) ⟨[], false, S_IFREG ||| 0o644⟩
  refine ⟨trivial, h.set p (some []) (some (.file p.toPath 0 now))
    (some ⟨[], false, S_IFREG ||| 0o644⟩) ?_ (fun q => ?_) (fun q => ?_) (fun q => ?_)
    hmem hsql⟩
  · exact ⟨rfl, _, rfl, fileMode_eq, rfl, rfl, fun _ => BEq.rfl⟩
  · simp [AssocMap.get?_insert]
  · simp [AssocMap.get?_insert]
  · simp [AssocMap.get?_insert]

lemma create_differs (h : Related mem sql) {p : EntryPath}
    (hused : mem.metadata.contains p.toPath = true) (now : DateTime) :
    ¬ SameOutcome (mem.create p.toPath now).1 (sql.create p.toPath).1 := by
  rw [h.contains_eq] at hused
  rw [KvMemory.create, KvSqlite.create, KvSqlite.withPath_toPath, KvSqlite.execute_insertRow,
    if_pos hused]
  split_ifs
  · exact not_sameVariant_insertError p.toPath "create"
  · exact id

lemma mkdir_together (h : Related mem sql) {p : EntryPath}
    (hfree : mem.metadata.contains p.toPath = false) (now : DateTime) :
    Together (mem.mkdir p.toPath now) (sql.mkdir p.toPath) := by
  have hrow := h.contains_eq p ▸ hfree
  have hnone := h.of_free (AssocMap.contains_eq_false_iff.1 hrow)
  rw [KvMemory.mkdir, hfree, KvSqlite.mkdir, KvSqlite.withPath_toPath,
    KvSqlite.execute_insertRow, hrow, if_neg Bool.false_ne_true, if_neg Bool.false_ne_true]
  obtain ⟨hmem, hsql⟩ := h.insert_keys p (.directory p.toPath now) ⟨[], true, S_IFDIR ||| 0o755⟩
  refine ⟨trivial, h.set p none (some (.directory p.toPath now))
    (some ⟨[], true, S_IFDIR ||| 0o755⟩) ?_ (fun q => ?_) (fun q => ?_) (fun q => ?_) hmem hsql⟩
  · exact ⟨rfl, _, rfl, dirMode_eq, rfl, rfl, fun _ => BEq.rfl⟩
  · split_ifs with hq
    · rw [← hq, hnone.1]
    · rfl
  · simp [AssocMap.get?_insert]
  · simp [AssocMap.get?_insert]

lemma mkdir_differs (h : Related mem sql) {p : EntryPath}
    (hused : mem.metadata.contains p.toPath = true) (now : DateTime) :
    ¬ SameOutcome (mem.mkdir p.toPath now).1 (sql.mkdir p.toPath).1 := by
  have hrow := h.contains_eq p ▸ hused
  rw [KvMemory.mkdir, if_pos hused, KvSqlite.mkdir, KvSqlite.withPath_toPath,
    KvSqlite.execute_insertRow, if_pos hrow]
  exact not_sameVariant_insertError p.toPath "mkdir"

/-! ### Changing -/

/-- A change of the entries of one path where both have one. -/
lemma modify_related (h : Related mem sql) (p : EntryPath) {m : FileMetadata} {row : KvRow}
    (hm : mem.metadata.get? p.toPath = some m) (hrow : sql.rows.get? p.text = some row)
    {store : AssocMap PathBuf Bytes} {f : FileMetadata → FileMetadata} {g : KvRow → KvRow}
    (hstore : ∀ q : EntryPath, store.get? q.toPath =
      if p = q then (g row).content else mem.store.get? q.toPath)
    (hshows : Shows p (f m) (g row)) :
    Related ⟨store, mem.metadata.modify p.toPath f⟩ ⟨sql.rows.modify p.text g⟩ := by
  refine h.set p (g row).content (some (f m)) (some (g row)) ⟨rfl, f m, rfl, hshows⟩ hstore
    (fun q => ?_) (fun q => ?_) ?_ ?_
  · rw [AssocMap.get?_modify, EntryPath.toPath_beq]
    by_cases hq : p = q
    · simp [← hq, hm]
    · simp [hq]
  · rw [AssocMap.get?_modify, EntryPath.text_beq]
    by_cases hq : p = q
    · simp [← hq, hrow]
    · simp [hq]
  · rw [KvMemory.WellKeyed, AssocMap.keys_modify]
    exact h.memKeys
  · rw [KvSqlite.WellKeyed, AssocMap.keys_modify]
    exact h.sqlKeys

lemma write_together (h : Related mem sql) (p : EntryPath) (data : Bytes) (offset : Int64)
    (flags : WriteFlags) :
    Together (mem.write p.toPath data offset flags) (sql.write p.toPath data offset flags) := by
  have hfile := h.fileRow_eq p
  rw [KvSqlite.write, KvSqlite.withPath_toPath]
  cases hrow : sql.fileRow p.text with
  | none =>
    rw [hrow] at hfile
    rw [KvMemory.write_of_none hfile.symm]
    exact ⟨rfl, h⟩
  | some row =>
    rw [hrow] at hfile
    rw [KvMemory.write_of_some hfile.symm]
    simp only [KvSqlite.execute_updateRow]
    cases hnew : writeData row.data data offset flags with
    | err e => exact ⟨rfl, h⟩
    | panic => exact ⟨trivial, h⟩
    | ok new =>
      obtain ⟨hget, hdir⟩ := Option.filter_eq_some_iff.1 hrow
      replace hdir : row.isDir = false := by simpa using hdir
      obtain ⟨-, m, hm, hshows⟩ := h.of_row hget
      refine ⟨rfl, h.modify_related p hm hget (fun q => ?_) ?_⟩
      · rw [AssocMap.get?_modify, EntryPath.toPath_beq]
        by_cases hq : p = q
        · simp [← hq, ← hfile, KvRow.content, hdir]
        · simp [hq]
      · exact ⟨hshows.mode, by simp [KvRow.metadata, hdir], hshows.notSymlink, hshows.path⟩

lemma chmod_together (h : Related mem sql) (p : EntryPath) (mode : UInt32) :
    Together (mem.chmod p.toPath mode) (sql.chmod p.toPath mode) := by
  rw [KvMemory.chmod, h.contains_eq, KvSqlite.chmod, KvSqlite.withPath_toPath, AssocMap.contains]
  cases hrow : sql.rows.get? p.text with
  | none => exact ⟨rfl, h⟩
  | some row =>
    obtain ⟨hdata, m, hm, hshows⟩ := h.of_row hrow
    simp only [KvSqlite.execute_updateRow, Option.isSome_some, if_true]
    refine ⟨trivial, h.modify_related p hm hrow (fun q => ?_) ?_⟩
    · split_ifs with hq
      · rw [← hq, hdata]
        rfl
      · rfl
    · refine ⟨?_, hshows.size, hshows.notSymlink, hshows.path⟩
      rw [FileMetadata.setPermissions, hshows.mode]
      rfl

/-! ### Removing -/

/-- What only the memory has is seen by `stat`. -/
lemma stat_differs {mem : KvMemory} {sql : KvSqlite} {p : EntryPath} {m : FileMetadata}
    (hm : mem.metadata.get? p.toPath = some m) (hrow : sql.rows.get? p.text = none) :
    ¬ SameOutcome ((mem.stat p.toPath).map .metadata) ((sql.stat p.toPath).map .metadata) := by
  rw [KvMemory.stat, hm, KvSqlite.stat, pathToStr_toPath, Outcome.ok_bind, hrow]
  exact id

lemma remove_together (h : Related mem sql) {p : EntryPath}
    (hfile : mem.store.contains p.toPath = false) :
    Together (mem.remove p.toPath) (sql.remove p.toPath) := by
  rw [KvMemory.remove_of_not_file hfile, KvSqlite.remove, KvSqlite.withPath_toPath,
    h.contains_eq]
  split_ifs
  · refine ⟨trivial, h.set p none none none ⟨rfl, rfl⟩ (fun q => ?_) (fun q => ?_) (fun q => ?_)
      (AssocMap.forall_keys_retain h.memKeys _) (AssocMap.forall_keys_retain h.sqlKeys _)⟩
    · split_ifs with hq
      · rw [← hq, AssocMap.contains_eq_false_iff.1 hfile]
      · rfl
    · simp [AssocMap.get?_erase]
    · simp [AssocMap.get?_erase]
  · exact ⟨rfl, h⟩

lemma remove_differs (h : Related mem sql) {p : EntryPath}
    (hfile : mem.store.contains p.toPath = true) :
    ¬ SameOutcome (((mem.remove p.toPath).2.stat p.toPath).map .metadata)
      (((sql.remove p.toPath).2.stat p.toPath).map .metadata) := by
  obtain ⟨-, m, row, -, hm, hrow, -⟩ := h.of_file hfile
  have hcontains : sql.rows.contains p.text = true := AssocMap.contains_iff.2 ⟨row, hrow⟩
  rw [KvMemory.remove_of_file hfile, KvSqlite.remove, KvSqlite.withPath_toPath, if_pos hcontains]
  exact stat_differs hm (AssocMap.get?_erase_self _ _)

lemma under_toPath {p q : EntryPath} :
    KvMemory.under p.toPath q.toPath = true ↔ p.names <+: q.names := by
  rw [KvMemory.under, Bool.or_eq_true, AbsPath.startsWith_iff, EntryPath.toPath_beq,
    decide_eq_true_eq]
  exact or_iff_left_of_imp fun hq => hq ▸ List.prefix_rfl

/-- The database selects everything at and below a path. -/
lemma selects_of_below {p q : EntryPath} (h : p.names <+: q.names) :
    KvSqlite.selects p.text q.text = true := by
  obtain ⟨r, hr⟩ := h
  rw [KvSqlite.selects, KvSqlite.trim_text, Bool.or_eq_true]
  rcases r with _ | ⟨n, r⟩
  · left
    rw [EntryPath.text_beq, decide_eq_true_eq]
    exact EntryPath.ext (by rw [← hr, List.append_nil])
  · right
    have htext : q.text = p.text ++ slash :: (n ++ r.flatMap fun n => slash :: n) := by
      rw [EntryPath.text, EntryPath.text, AbsPath.text_eq_flatMap q.ne_root,
        AbsPath.text_eq_flatMap p.ne_root, ← hr, List.flatMap_append, List.flatMap_cons,
        List.cons_append]
    rw [htext]
    exact Sql.like_of_prefix slash_lt p.text _

lemma get?_removeAll (sql : KvSqlite) (p q : EntryPath) :
    (sql.removeAll p.toPath).2.rows.get? q.text =
      if KvSqlite.selects p.text q.text then none else sql.rows.get? q.text := by
  rw [KvSqlite.removeAll, KvSqlite.withPath_toPath]
  simp only
  rw [AssocMap.get?_retain_key]
  · cases KvSqlite.selects p.text q.text <;> rfl
  · intro a ha
    rw [eq_of_beq ha]

lemma removeAll_together (h : Related mem sql) {p : EntryPath}
    (hselect : ∀ q : EntryPath, mem.metadata.contains q.toPath = true →
      KvSqlite.selects p.text q.text = true →
        p.names <+: q.names ∧ mem.store.contains q.toPath = true) :
    Together (mem.removeAll p.toPath) (sql.removeAll p.toPath) := by
  refine ⟨?_, ?_, ?_, fun q => ?_⟩
  · rw [KvSqlite.removeAll, KvSqlite.withPath_toPath]
    trivial
  · exact AssocMap.forall_keys_foldl_erase _ _ h.memKeys
  · rw [KvSqlite.removeAll, KvSqlite.withPath_toPath]
    exact AssocMap.forall_keys_retain h.sqlKeys _
  · have hsame := h.same q
    rw [KvMemory.get?_store_removeAll, KvMemory.get?_metadata_removeAll, get?_removeAll]
    cases hrow : sql.rows.get? q.text with
    | none =>
      rw [hrow] at hsame
      rw [hsame.1, hsame.2]
      split_ifs <;> exact ⟨rfl, rfl⟩
    | some row =>
      by_cases hsel : KvSqlite.selects p.text q.text = true
      · have hused : mem.metadata.contains q.toPath = true := by
          rw [h.contains_eq, AssocMap.contains, hrow, Option.isSome_some]
        obtain ⟨hbelow, hfile⟩ := hselect q hused hsel
        rw [hfile, under_toPath.2 hbelow, hsel]
        exact ⟨rfl, rfl⟩
      · have hunder : ¬ KvMemory.under p.toPath q.toPath = true :=
          fun hu => hsel (selects_of_below (under_toPath.1 hu))
        rw [if_neg hsel, if_neg (by simp [hunder]), if_neg (by simp [hunder]), ← hrow]
        exact h.same q

lemma removeAll_differs {mem : KvMemory} (sql : KvSqlite) {p q : EntryPath}
    (hused : mem.metadata.contains q.toPath = true)
    (hsel : KvSqlite.selects p.text q.text = true)
    (hnot : ¬ (p.names <+: q.names ∧ mem.store.contains q.toPath = true)) :
    ¬ SameOutcome (((mem.removeAll p.toPath).2.stat q.toPath).map .metadata)
      (((sql.removeAll p.toPath).2.stat q.toPath).map .metadata) := by
  obtain ⟨m, hm⟩ := AssocMap.contains_iff.1 hused
  refine stat_differs (m := m) ?_ ?_
  · rw [KvMemory.get?_metadata_removeAll, if_neg, hm]
    rw [Bool.and_eq_true, under_toPath]
    exact fun hboth => hnot hboth.symm
  · rw [get?_removeAll, if_pos hsel]

/-! ### Renaming -/

lemma contains_erase {p q : EntryPath} (hpq : p ≠ q) (t : AssocMap PathBuf Bytes) :
    (t.erase p.toPath).contains q.toPath = t.contains q.toPath := by
  rw [AssocMap.contains, AssocMap.get?_erase, EntryPath.toPath_beq, decide_eq_false hpq,
    if_neg Bool.false_ne_true, AssocMap.contains]

lemma rename_of_free (h : Related mem sql) {p q : EntryPath}
    (hp : mem.metadata.contains p.toPath = false) (hq : mem.metadata.contains q.toPath = false) :
    Together (mem.rename p.toPath q.toPath) (sql.rename p.toPath q.toPath) := by
  rw [h.contains_eq] at hp hq
  have hnone := h.of_free (AssocMap.contains_eq_false_iff.1 hp)
  rw [KvMemory.rename_of_none hnone.1, KvSqlite.rename, KvSqlite.withPath_toPath,
    KvSqlite.withPath_toPath, hp, hq, if_neg Bool.false_ne_true, if_neg Bool.false_ne_true]
  exact ⟨rfl, h⟩

/-- A file is not renamed onto another one. -/
lemma rename_of_files (h : Related mem sql) {p q : EntryPath}
    (hp : mem.store.contains p.toPath = true) (hq : mem.store.contains q.toPath = true)
    (hpq : p ≠ q) :
    Together (mem.rename p.toPath q.toPath) (sql.rename p.toPath q.toPath) := by
  obtain ⟨data, m, row, hdata, hm, hrow, hcontent, hshows⟩ := h.of_file hp
  obtain ⟨-, -, row', -, -, hrow', -⟩ := h.of_file hq
  have hused : sql.rows.contains q.text = true := AssocMap.contains_iff.2 ⟨row', hrow'⟩
  rw [KvMemory.rename_of_some hdata hm, contains_erase hpq, if_pos hq, KvSqlite.rename,
    KvSqlite.withPath_toPath, KvSqlite.withPath_toPath, if_pos hused]
  refine ⟨rfl, h.set p (some data) (some m) (some row) ⟨hcontent.symm, m, rfl, hshows⟩
    (fun r => ?_) (fun r => ?_) (fun r => ?_) ?_ h.sqlKeys⟩
  · simp [AssocMap.get?_insert_erase _ BEq.rfl]
  · simp [AssocMap.get?_insert_erase _ BEq.rfl]
  · split_ifs with hr
    · rw [← hr, hrow]
    · rfl
  · exact h.wellKeyed_move p p data m

/-- The tables after the rename of a file to a free path. -/
lemma rename_moves (h : Related mem sql) {p q : EntryPath} {data : Bytes} {m : FileMetadata}
    {row : KvRow} (hdata : mem.store.get? p.toPath = some data)
    (hm : mem.metadata.get? p.toPath = some m) (hrow : sql.rows.get? p.text = some row)
    (hq : mem.metadata.contains q.toPath = false) :
    mem.rename p.toPath q.toPath =
        (.ok .unit, ⟨(mem.store.erase p.toPath).insert q.toPath data,
          (mem.metadata.erase p.toPath).insert q.toPath m⟩) ∧
      ∃ rows, sql.rename p.toPath q.toPath = (.ok .unit, ⟨rows⟩) ∧
        (∀ a, rows.get? a =
          if q.text == a then some row else if p.text == a then none else sql.rows.get? a) ∧
        KvSqlite.WellKeyed ⟨rows⟩ := by
  have hpq : p ≠ q := by
    rintro rfl
    rw [AssocMap.contains, hm] at hq
    cases hq
  rw [h.contains_eq] at hq
  have hfree := AssocMap.contains_eq_false_iff.1 hq
  have hnone : mem.store.contains q.toPath = false :=
    AssocMap.contains_eq_false_iff.2 (h.of_free hfree).1
  have hused : sql.rows.contains p.text = true := AssocMap.contains_iff.2 ⟨row, hrow⟩
  obtain ⟨rows, hmove, hget, hkeys⟩ := Sql.exists_moveRow KvSqlite.fits rfl
    (fun heq => hpq (EntryPath.text_inj.1 heq)) hrow hfree
  refine ⟨?_, rows, ?_, hget, fun a ha => ?_⟩
  · rw [KvMemory.rename_of_some hdata hm, contains_erase hpq, hnone, if_neg Bool.false_ne_true]
  · rw [KvSqlite.rename, KvSqlite.withPath_toPath, KvSqlite.withPath_toPath, hq,
      if_neg Bool.false_ne_true, if_pos hused, hmove]
    rfl
  · rcases hkeys a ha with rfl | hold
    · exact Or.inr ⟨q, rfl⟩
    · exact h.sqlKeys a hold

lemma rename_of_move (h : Related mem sql) {p q : EntryPath}
    (hp : mem.store.contains p.toPath = true) (hq : mem.metadata.contains q.toPath = false)
    (hpath : 2 ≤ q.names.length →
      ∀ m, mem.metadata.get? p.toPath = some m → (m.path == q.toPath) = true) :
    Together (mem.rename p.toPath q.toPath) (sql.rename p.toPath q.toPath) := by
  obtain ⟨data, m, row, hdata, hm, hrow, hcontent, hshows⟩ := h.of_file hp
  obtain ⟨hmem, rows, hsql, hget, hsqlKeys⟩ := h.rename_moves hdata hm hrow hq
  rw [hmem, hsql]
  refine ⟨trivial, h.wellKeyed_move p q data m, hsqlKeys, fun r => ?_⟩
  simp only [hget, AssocMap.get?_insert, AssocMap.get?_erase, EntryPath.toPath_beq,
    EntryPath.text_beq, decide_eq_true_eq]
  by_cases hr : q = r
  · subst hr
    simp only [if_true]
    exact ⟨hcontent.symm, m, rfl, hshows.mode, hshows.size, hshows.notSymlink,
      fun htwo => hpath htwo m hm⟩
  · simp only [if_neg hr]
    split_ifs
    · exact ⟨rfl, rfl⟩
    · exact h.same r

/-- A file that moves below a directory with another path in its metadata is listed under that
path by the memory only. -/
lemma rename_lists (h : Related mem sql) {p q : EntryPath} {m : FileMetadata}
    (hp : mem.store.contains p.toPath = true) (hq : mem.metadata.contains q.toPath = false)
    (htwo : 2 ≤ q.names.length) (hm : mem.metadata.get? p.toPath = some m)
    (hpath : (m.path == q.toPath) = false) :
    ¬ SameOutcome
      (.ok (.entries ((mem.rename p.toPath q.toPath).2.readDir (q.parent htwo).toPath)))
      (((sql.rename p.toPath q.toPath).2.readDir (q.parent htwo).toPath).map .entries) := by
  obtain ⟨data, m', row, hdata, hm', hrow, -⟩ := h.of_file hp
  obtain rfl : m = m' := Option.some.inj (hm.symm.trans hm')
  obtain ⟨hmem, rows, hsql, hget, hsqlKeys⟩ := h.rename_moves hdata hm hrow hq
  obtain ⟨ms, hms, hiff⟩ := KvSqlite.mem_readDir hsqlKeys (q.parent htwo)
  rw [hmem, hsql, hms]
  rintro ⟨-, hback⟩
  -- the database lists the new path, so some entry in memory would have to have it
  have hlisted : row.metadata q.text ∈ ms :=
    (hiff _).2 ⟨q, row, ⟨_, q.names_parent htwo⟩, by rw [hget]; simp, rfl⟩
  obtain ⟨m'', hm'', hsame, -⟩ := hback _ hlisted
  obtain ⟨r, hchild, hr⟩ :=
    (KvMemory.mem_readDir (h.wellKeyed_move p q data m) _ m'').1 hm''
  simp only [AssocMap.get?_insert, AssocMap.get?_erase, EntryPath.toPath_beq,
    decide_eq_true_eq] at hr
  replace hsame : (m''.path == q.toPath) = true := hsame
  split_ifs at hr with hqr hpr
  · rw [← Option.some.inj hr, hpath] at hsame
    cases hsame
  · -- every other entry has its own path
    cases hrow' : sql.rows.get? r.text with
    | none => rw [(h.of_free hrow').2] at hr; cases hr
    | some row' =>
      obtain ⟨-, m₁, hm₁, hshows⟩ := h.of_row hrow'
      obtain rfl := Option.some.inj (hm₁.symm.trans hr)
      have hself := hshows.path hchild.two_le
      have hbeq : (q.toPath == r.toPath) = true := BEq.trans (BEq.symm hsame) hself
      rw [EntryPath.toPath_beq, decide_eq_true_eq] at hbeq
      exact hqr hbeq

/-- A rename from or to a directory, or of a file onto itself, ends differently. -/
lemma rename_differs (h : Related mem sql) {p q : EntryPath}
    (hfree : ¬ (mem.metadata.contains p.toPath = false ∧ mem.metadata.contains q.toPath = false))
    (hfiles : ¬ (mem.store.contains p.toPath = true ∧ mem.store.contains q.toPath = true ∧ p ≠ q))
    (hmove : ¬ (mem.store.contains p.toPath = true ∧ mem.metadata.contains q.toPath = false)) :
    ¬ SameOutcome (mem.rename p.toPath q.toPath).1 (sql.rename p.toPath q.toPath).1 := by
  rw [KvSqlite.rename, KvSqlite.withPath_toPath, KvSqlite.withPath_toPath, ← h.contains_eq,
    ← h.contains_eq]
  cases hp : mem.store.contains p.toPath with
  | false =>
    rw [KvMemory.rename_of_none (AssocMap.contains_eq_false_iff.1 hp)]
    cases hq : mem.metadata.contains q.toPath with
    | true => exact not_sameVariant_notFound p.toPath q.toPath
    | false =>
      cases hpm : mem.metadata.contains p.toPath with
      | false => exact absurd ⟨hpm, hq⟩ hfree
      | true =>
        -- a directory is moved by the database only
        obtain ⟨row, hrow⟩ := AssocMap.contains_iff.1 (h.contains_eq p ▸ hpm)
        obtain ⟨rows, hmoved, -⟩ := Sql.exists_moveRow KvSqlite.fits rfl
          (fun heq => by rw [EntryPath.text_inj.1 heq, hq] at hpm; cases hpm) hrow
          (AssocMap.contains_eq_false_iff.1 (h.contains_eq q ▸ hq))
        rw [if_neg Bool.false_ne_true, if_pos rfl, hmoved]
        exact id
  | true =>
    obtain ⟨data, m, row, hdata, hm, -⟩ := h.of_file hp
    cases hq : mem.metadata.contains q.toPath with
    | false => exact absurd ⟨hp, hq⟩ hmove
    | true =>
      rw [KvMemory.rename_of_some hdata hm, if_neg, if_pos rfl]
      · exact id
      · intro hc
        refine hfiles ⟨hp, ?_⟩
        rw [AssocMap.contains, AssocMap.get?_erase, EntryPath.toPath_beq] at hc
        by_cases hpq : p = q
        · simp [hpq] at hc
        · rw [decide_eq_false hpq, if_neg Bool.false_ne_true] at hc
          exact ⟨hc, hpq⟩

end Related

/-! ### Runs -/

namespace Pair

/-- The filesystems are related, and the last results were the same. -/
structure Linked (s : Pair) : Prop where
  related : Related s.mem s.sql
  last : ∀ x y, s.last = some (x, y) → SameOutcome x y

lemma Linked.agree {s : Pair} (h : s.Linked) : s.Agree where
  last := h.last
  read := h.related.read_same
  stat := h.related.stat_same
  readDir := h.related.readDir_same

lemma linked_new : new.Linked := ⟨.new, fun _ _ hlast => by cases hlast⟩

lemma linked_of_together {x : Outcome Reply × KvMemory} {y : Outcome Reply × KvSqlite}
    (h : Together x y) : Linked ⟨x.2, y.2, some (x.1, y.1)⟩ := by
  refine ⟨h.2, fun a b hlast => ?_⟩
  obtain ⟨rfl, rfl⟩ := Prod.mk.inj (Option.some.inj hlast)
  exact h.1

/-- A call where both backends do the same keeps them linked. -/
lemma linked_step {s s' : Pair} {c : KvOp EntryPath × DateTime} (h : s.Linked)
    (hok : s.Interchangeable c) (hstep : s.step c = some s') : s'.Linked := by
  obtain ⟨op, now⟩ := c
  obtain rfl := Option.some.inj hstep
  refine linked_of_together ?_
  have hrel := h.related
  cases op with
  | create p => exact hrel.create_together hok now
  | mkdir p perm => exact hrel.mkdir_together hok now
  | write p data offset flags => exact hrel.write_together p data offset flags
  | remove p => exact hrel.remove_together (Bool.not_eq_true _ ▸ hok)
  | removeAll p =>
    exact hrel.removeAll_together fun q hq => hok q (by rw [IsFree, hq]; simp)
  | rename p q =>
    rcases hok with ⟨hp, hq⟩ | ⟨hp, hq, hpq⟩ | ⟨hp, hq, hpath⟩
    · exact hrel.rename_of_free hp hq
    · exact hrel.rename_of_files hp hq hpq
    · exact hrel.rename_of_move hp hq hpath
  | chmod p mode => exact hrel.chmod_together p mode
  | read p offset size => exact ⟨hrel.read_same p offset size, hrel⟩
  | stat p => exact ⟨hrel.stat_same p, hrel⟩
  | readDir p => exact ⟨hrel.readDir_same p, hrel⟩

/-- Any other call tells them apart. -/
lemma interchangeable_of_agree {s s' : Pair} {c : KvOp EntryPath × DateTime} (h : s.Linked)
    (hstep : s.step c = some s') (hagree : s'.Agree) : s.Interchangeable c := by
  obtain ⟨op, now⟩ := c
  obtain rfl := Option.some.inj hstep
  have hrel := h.related
  have hlast := hagree.last _ _ rfl
  cases op with
  | create p => exact Bool.eq_false_iff.2 fun hp => hrel.create_differs hp now hlast
  | mkdir p perm => exact Bool.eq_false_iff.2 fun hp => hrel.mkdir_differs hp now hlast
  | remove p => exact fun hp => hrel.remove_differs hp (hagree.stat p)
  | removeAll p =>
    intro q hq hsel
    by_contra hnot
    exact Related.removeAll_differs s.sql (Bool.not_eq_false _ ▸ hq) hsel hnot (hagree.stat q)
  | rename p q =>
    by_contra hnot
    simp only [Interchangeable, not_or] at hnot
    obtain ⟨hfree, hfiles, hmove⟩ := hnot
    by_cases hmoves : s.IsFile p ∧ s.IsFree q
    · have htwo : 2 ≤ q.names.length := by
        by_contra hlt
        exact hmove ⟨hmoves.1, hmoves.2, fun htwo => absurd htwo hlt⟩
      obtain ⟨-, m, -, -, hm, -⟩ := hrel.of_file hmoves.1
      have hpath : (m.path == q.toPath) = false := by
        rw [Bool.eq_false_iff]
        refine fun hself => hmove ⟨hmoves.1, hmoves.2, fun _ m' hm' => ?_⟩
        rwa [← Option.some.inj (hm.symm.trans hm')]
      exact hrel.rename_lists hmoves.1 hmoves.2 htwo hm hpath (hagree.readDir _)
    · exact hrel.rename_differs hfree hfiles hmoves hlast
  | write p data offset flags => trivial
  | chmod p mode => trivial
  | read p offset size => trivial
  | stat p => trivial
  | readDir p => trivial

/-- The path `/f`. -/
def fPath : EntryPath := ⟨⟨[ascii "f"], by decide⟩, by decide, by decide⟩

end Pair

end Racfs.KvFs
