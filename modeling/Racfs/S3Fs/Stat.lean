/-
# Listing and `stat` of the S3 filesystem

`stat` first asks for the keys behind the path and a slash, and if there is one the path is a
directory, whatever object it has; only then it asks for the object of the path (`stat_ends`).

The paths of a listing are made of keys and of common prefixes as they are.  A common prefix ends
with a slash, so `stat` of that path looks for keys with two slashes.  What a listing calls a
directory is for `stat` not there, or a file if `mkdir` has made it, unless a key goes on with an
empty name; and what it calls a file is for `stat` a directory if keys go on behind it
(`stat_listed_iff`).
-/
import Racfs.S3Fs.Directory

namespace Racfs.S3Fs

variable {σ : Type*} {svc : BucketService σ} {fs : S3FS} {objects : σ → Objects}
  {marker : Bytes → List ℕ} {source : Bytes → ObjectId}

/-- A key goes on behind the text and a slash. -/
def HasKeys (objects : Objects) (bucket text : Bytes) : Prop :=
  ∃ key, text ++ [slash] <+: key ∧ (objects ⟨bucket, key⟩).isSome

/-- The text is that of the path behind the root. -/
structure IsKey (text : Bytes) : Prop where
  utf8 : isUtf8 text = true
  ne_nil : text ≠ []
  head_ne : text.head? ≠ some slash

lemma IsKey.keyToPath {text : Bytes} (h : IsKey text) : keyToPath text = ⟨slash :: text⟩ := by
  have hroot : text ≠ ascii "/" := by
    rintro rfl
    exact h.head_ne rfl
  have hrelative : (PathBuf.mk text).hasRoot = false := by
    simpa [PathBuf.hasRoot] using h.head_ne
  rw [S3Fs.keyToPath, if_neg (by simp [h.ne_nil, hroot]), PathBuf.push, hrelative]
  rfl

lemma IsKey.toStringLossy {text : Bytes} (h : IsKey text) :
    (S3Fs.keyToPath text).toStringLossy = slash :: text := by
  rw [h.keyToPath, PathBuf.toStringLossy, fromUtf8Lossy_cons text slash_lt,
    fromUtf8Lossy_of_isUtf8 h.utf8]

lemma IsKey.toStringLossy_ne {text : Bytes} (h : IsKey text) :
    (S3Fs.keyToPath text).toStringLossy ≠ ascii "/" := by
  rw [h.toStringLossy]
  intro heq
  exact h.ne_nil (List.cons.inj heq).2

lemma IsKey.pathToKey {text : Bytes} (h : IsKey text) :
    S3FS.pathToKey (S3Fs.keyToPath text) = text := by
  rw [S3FS.pathToKey, if_neg h.toStringLossy_ne, h.toStringLossy]
  rfl

/-! ### What `stat` finds -/

/-- Whether there are keys in the directory. -/
lemma isDirectory_cases (fs : S3FS) (hs : svc.Lawful objects marker source) {path : PathBuf}
    (hroot : path.toStringLossy ≠ ascii "/") (s : σ) :
    objects (fs.isDirectory svc path s).2 = objects s ∧
      ((∃ m, (fs.isDirectory svc path s).1 = .error (.Io m)) ∨
        ((fs.isDirectory svc path s).1 = .ok true ∧
          HasKeys (objects s) fs.config.bucket (S3FS.pathToKey path)) ∨
        ((fs.isDirectory svc path s).1 = .ok false ∧
          ¬ HasKeys (objects s) fs.config.bucket (S3FS.pathToKey path))) := by
  set req : ListRequest := ⟨fs.config.bucket, dirKey path, none, 1, none⟩ with hreq
  have hkept := hs.listObjectsV2 req s
  have hmem : ∀ i, i ∈ req.items (objects s) ↔ ∃ key, dirKey path <+: key ∧
      (objects s ⟨fs.config.bucket, key⟩).isSome ∧ i = .key key := fun i => Iff.rfl
  rw [S3FS.isDirectory, if_neg hroot]
  rcases hcall : svc.listObjectsV2 req s with ⟨e | resp, s'⟩
  · rw [hcall] at hkept
    exact ⟨hkept, Or.inl ⟨e, rfl⟩⟩
  · rw [hcall] at hkept
    have hanswers := hs.answers req s resp Nat.one_pos (by rw [hcall])
    refine ⟨hkept, Or.inr ?_⟩
    have hnone : resp.commonPrefixes = [] := by
      refine List.eq_nil_iff_forall_not_mem.2 fun p hp => ?_
      cases p with
      | none => exact hanswers.commonPrefixes none hp rfl
      | some text =>
        have hitem : Item.commonPrefix text ∈ resp.items :=
          List.mem_append_right _ (List.mem_filterMap.2 ⟨_, hp, rfl⟩)
        obtain ⟨key, -, -, heq⟩ := (hmem _).1 ((hanswers.piece.mem_iff _).1 hitem).1
        cases heq
    have hle : resp.items.length ≤ 1 := hanswers.length_le
    rcases Nat.le_one_iff_eq_zero_or_eq_one.1 hle with hlen | hlen
    · -- an empty answer is the last one, so there is no key
      refine Or.inr ⟨by simp [hanswers.keyCount, hlen, hnone], ?_⟩
      rintro ⟨key, hkey, hsome⟩
      have hnil := List.length_eq_zero_iff.1 hlen
      have hlast : resp.nextContinuationToken = none := by
        by_contra hne
        exact hanswers.ne_nil (Option.isSome_iff_ne_none.2 hne) hnil
      have hpiece := hanswers.piece
      rw [hlast, hnil] at hpiece
      have hin := (hpiece.mem_iff_of_all (.key key)).2 ((hmem _).2 ⟨key, hkey, hsome, rfl⟩)
      cases hin
    · refine Or.inl ⟨by simp [hanswers.keyCount, hlen, hnone], ?_⟩
      obtain ⟨i, hi⟩ := List.length_eq_one_iff.1 hlen
      obtain ⟨key, hkey, hsome, -⟩ := (hmem i).1
        ((hanswers.piece.mem_iff i).1 (by rw [hi]; exact List.mem_singleton_self i)).1
      exact ⟨key, hkey, hsome⟩

/-- What a `stat` can end with, by the keys that there are. -/
inductive StatEnds (objects : Objects) (bucket text : Bytes) (path : PathBuf) (now : DateTime) :
    Except FSError FileMetadata → Prop
  | directory (hkeys : HasKeys objects bucket text) :
    StatEnds objects bucket text path now (.ok (.directory path now))
  | file {obj : Object} (hkeys : ¬ HasKeys objects bucket text)
    (hobj : objects ⟨bucket, text⟩ = some obj) :
    StatEnds objects bucket text path now
      (.ok (fileWithTime path (some (Int64.ofNat obj.body.length)) (some obj.lastModified) now))
  | missing (hkeys : ¬ HasKeys objects bucket text) (hobj : objects ⟨bucket, text⟩ = none) :
    StatEnds objects bucket text path now (.error (.NotFound path))
  | failed (message : String) : StatEnds objects bucket text path now (.error (.Io message))

/-- `stat` leaves the objects as they are and finds what the keys say. -/
theorem stat_ends (hs : svc.Lawful objects marker source) (hvalid : fs.validateConfig = .ok ())
    {path : PathBuf} (hroot : path.toStringLossy ≠ ascii "/") (now : DateTime) (s : σ) :
    objects (fs.stat svc path now s).2 = objects s ∧
      StatEnds (objects s) fs.config.bucket (S3FS.pathToKey path) path now
        (fs.stat svc path now s).1 := by
  rw [S3FS.stat, hvalid]
  simp only [if_neg hroot]
  obtain ⟨hkept, hcases⟩ := isDirectory_cases fs hs hroot s
  rcases hdir : fs.isDirectory svc path s with ⟨e | b, s₁⟩
  · rw [hdir] at hkept hcases
    rcases hcases with ⟨m, hm⟩ | ⟨hok, -⟩ | ⟨hok, -⟩
    · cases hm
      exact ⟨hkept, .failed m⟩
    · cases hok
    · cases hok
  · rw [hdir] at hkept hcases
    rcases hcases with ⟨m, hm⟩ | ⟨hok, hkeys⟩ | ⟨hok, hkeys⟩
    · cases hm
    · cases hok
      exact ⟨hkept, .directory hkeys⟩
    · cases hok
      have hhead := hs.headObject (fs.object path) s₁
      have hfound := hs.head_ok (fs.object path) s₁
      have hmissing := hs.head_notFound (fs.object path) s₁
      dsimp only at hkept ⊢
      rcases hcall : svc.headObject (fs.object path) s₁ with ⟨(m | m) | head, s₂⟩
      · rw [hcall, hkept] at hhead
        obtain ⟨hkept', hcases'⟩ := isDirectory_cases fs hs hroot s₂
        rw [hhead] at hkept' hcases'
        have hnone := hmissing m (by rw [hcall])
        rw [hkept] at hnone
        dsimp only at hkept' ⊢
        rcases hagain : fs.isDirectory svc path s₂ with ⟨e | b, s₃⟩
        · rw [hagain] at hkept' hcases'
          rcases hcases' with ⟨m, hm⟩ | ⟨hok, -⟩ | ⟨hok, -⟩
          · cases hm
            exact ⟨hkept', .failed m⟩
          · cases hok
          · cases hok
        · rw [hagain] at hkept' hcases'
          rcases hcases' with ⟨m, hm⟩ | ⟨hok, hkeys'⟩ | ⟨hok, -⟩
          · cases hm
          · exact absurd hkeys' hkeys
          · cases hok
            exact ⟨hkept', .missing hkeys hnone⟩
      · rw [hcall, hkept] at hhead
        exact ⟨hhead, .failed m⟩
      · rw [hcall, hkept] at hhead
        obtain ⟨obj, hobj, hlength, htime⟩ := hfound head (by rw [hcall])
        rw [hkept] at hobj
        simp only [hlength, htime]
        exact ⟨hhead, .file hkeys hobj⟩

/-! ### What is listed -/

lemma isDirectory_fileWithTime (path : PathBuf) (size : Option Int64)
    (lastModified : Option Timestamp) (now : DateTime) :
    (fileWithTime path size lastModified now).isDirectory = false := by
  cases lastModified <;> exact FileMetadata.isDirectory_file path (size.getD 0).toUInt64 now

lemma path_fileWithTime (path : PathBuf) (size : Option Int64) (lastModified : Option Timestamp)
    (now : DateTime) : (fileWithTime path size lastModified now).path = path := by
  cases lastModified <;> rfl

/-- What keys have in common up to a slash is a key but for the name. -/
lemma IsKey.of_append {text rest : Bytes} (h : IsKey (text ++ slash :: rest)) (hne : text ≠ []) :
    IsKey text ∧ IsKey (text ++ [slash]) := by
  obtain ⟨hutf8, -, hhead⟩ := h
  obtain ⟨b, t, rfl⟩ := List.exists_cons_of_ne_nil hne
  rw [isUtf8_append _ _ slash_lt, Bool.and_eq_true] at hutf8
  have hslash : isUtf8 (b :: t ++ [slash]) = true := by
    rw [isUtf8_append _ _ slash_lt, hutf8.1]
    rfl
  exact ⟨⟨hutf8.1, hne, hhead⟩, ⟨hslash, by simp, hhead⟩⟩

section Listed

variable {bucket keyPrefix : Bytes} {now : DateTime} {entries : List FileMetadata}
  {items : List Item} {objs : Objects}

/-- The text of an item is a key, if those of the bucket are. -/
lemma ListsDir.isKey (h : ListsDir objs bucket keyPrefix now entries items)
    (hkeys : ∀ key, (objs ⟨bucket, key⟩).isSome → IsKey key) {item : Item} (hitem : item ∈ items) :
    IsKey item.text := by
  cases item with
  | key key => exact hkeys key ((h.key_iff key).1 hitem).1
  | commonPrefix text =>
    obtain ⟨name, rest, -, rfl, hsome⟩ := (h.commonPrefix_iff text).1 hitem
    have hkey := hkeys _ hsome
    rw [List.append_assoc, List.singleton_append] at hkey
    by_cases hne : keyPrefix ++ name = []
    · rw [hne] at hkey
      exact absurd rfl hkey.head_ne
    · exact (hkey.of_append hne).2

lemma ListsDir.exists_item (h : ListsDir objs bucket keyPrefix now entries items)
    {e : FileMetadata} (he : e ∈ entries) :
    ∃ item ∈ items, entryOf objs bucket now item = some e := by
  have hmem : some e ∈ items.map (entryOf objs bucket now) :=
    h.entries ▸ List.mem_map_of_mem he
  exact List.mem_map.1 hmem

/-- The path of the entry for an item. -/
lemma path_of_entryOf {item : Item} {e : FileMetadata}
    (he : entryOf objs bucket now item = some e) :
    e.path = keyToPath item.text := by
  cases item with
  | key key =>
    obtain ⟨obj, -, rfl⟩ := Option.map_eq_some_iff.1 he
    exact path_fileWithTime _ _ _ _
  | commonPrefix text =>
    cases he
    rfl

/-- What `stat` ends with for the path of an item, compared with the entry of the item. -/
lemma StatEnds.eq_entry_iff {item : Item} {e : FileMetadata} {r : Except FSError FileMetadata}
    (he : entryOf objs bucket now item = some e)
    (hends : StatEnds objs bucket item.text (keyToPath item.text) now r)
    (hanswer : ∀ m, r ≠ .error (.Io m)) :
    r = .ok e ↔ (e.isDirectory = true ↔ HasKeys objs bucket item.text) := by
  cases item with
  | key key =>
    obtain ⟨obj, hobj, rfl⟩ := Option.map_eq_some_iff.1 he
    have hfile := isDirectory_fileWithTime (keyToPath key)
      (some (Int64.ofNat obj.body.length)) (some obj.lastModified) now
    rw [hfile]
    cases hends with
    | directory hk =>
      refine iff_of_false (fun heq => ?_) (by simp [hk])
      have hdir := congrArg FileMetadata.isDirectory (Except.ok.inj heq)
      rw [FileMetadata.isDirectory_directory, hfile] at hdir
      cases hdir
    | @file obj' hk hobj' =>
      obtain rfl : obj' = obj := Option.some.inj (hobj'.symm.trans hobj)
      exact iff_of_true rfl (by simp [hk])
    | missing hk hnone => cases hnone.symm.trans hobj
    | failed m => exact absurd rfl (hanswer m)
  | commonPrefix text =>
    cases he
    have hdir := FileMetadata.isDirectory_directory (keyToPath text) now
    rw [hdir]
    cases hends with
    | directory hk => exact iff_of_true rfl (by simp [hk])
    | @file obj hk hobj =>
      refine iff_of_false (fun heq => ?_) (by simp [hk])
      rw [← Except.ok.inj heq, isDirectory_fileWithTime] at hdir
      cases hdir
    | missing hk hnone => exact iff_of_false (by simp) (by simp [hk])
    | failed m => exact absurd rfl (hanswer m)

/-- **Listing and `stat`.**  If the service answers, `stat` of the path that an entry has in a
listing gives this entry exactly if it is one of a directory and keys go on behind its text and
another slash, or one of a file behind which no keys go on. -/
theorem stat_listed_iff (hs : svc.Lawful objects marker source)
    (hvalid : fs.validateConfig = .ok ()) {s t : σ} (hsame : objects t = objects s)
    (hkeys : ∀ key, (objects s ⟨fs.config.bucket, key⟩).isSome → IsKey key) {keys : List Bytes}
    (hall : ∀ key, (objects s ⟨fs.config.bucket, key⟩).isSome → key ∈ keys) {n : ℕ}
    (hn : keys.length < n) {path : PathBuf}
    (hlist : (fs.readDir svc path now n s).map Prod.fst = some (.ok entries)) {e : FileMetadata}
    (he : e ∈ entries) (hanswer : ∀ m, (fs.stat svc e.path now t).1 ≠ .error (.Io m)) :
    (fs.stat svc e.path now t).1 = .ok e ↔
      (e.isDirectory = true ↔
        HasKeys (objects s) fs.config.bucket (S3FS.pathToKey e.path)) := by
  obtain ⟨items, hlists⟩ := lists_of_readDir hs hvalid hall hn hlist
  obtain ⟨item, hitem, hentry⟩ := hlists.exists_item he
  have hkey := hlists.isKey hkeys hitem
  have hpath := path_of_entryOf hentry
  have hends := (stat_ends hs hvalid (hpath ▸ hkey.toStringLossy_ne) now t).2
  rw [hsame, hpath, hkey.pathToKey] at hends
  rw [hpath] at hanswer ⊢
  rw [hkey.pathToKey]
  exact hends.eq_entry_iff hentry hanswer

/-- What is listed in the root. -/
def rootEntries : List FileMetadata :=
  [fileWithTime ⟨ascii "/a"⟩ (some 4) (some epoch) 0, .directory ⟨ascii "/d/"⟩ 0]

lemma mem_twoKeys {key : Bytes} (h : (twoKeys.get? ⟨ascii "bucket", key⟩).isSome) :
    key = ascii "a" ∨ key = ascii "d/b" := by
  have hkeys : twoKeys.bucketKeys (ascii "bucket") = [ascii "a", ascii "d/b"] := by decide
  simpa [hkeys] using Store.mem_bucketKeys.2 h

theorem stat_listed_d :
    (bucketFs.stat (BucketService.store fun _ => false) ⟨ascii "/d/"⟩ 0 twoKeys).1 =
      .ok (.directory ⟨ascii "/d/"⟩ 0) ↔
    ((FileMetadata.directory ⟨ascii "/d/"⟩ 0).isDirectory = true ↔
      HasKeys twoKeys.get? (ascii "bucket") (S3FS.pathToKey ⟨ascii "/d/"⟩)) := by
  have hkeys : ∀ key, (twoKeys.get? ⟨ascii "bucket", key⟩).isSome → IsKey key := by
    intro key hkey
    rcases mem_twoKeys hkey with rfl | rfl
    · exact ⟨by decide, by decide, by decide⟩
    · exact ⟨by decide, by decide, by decide⟩
  have hstat : (bucketFs.stat (BucketService.store fun _ => false) ⟨ascii "/d/"⟩ 0 twoKeys).1 =
      .error (.NotFound ⟨ascii "/d/"⟩) := rfl
  have hlist : (bucketFs.readDir (BucketService.store fun _ => false) ⟨ascii "/"⟩ 0 3
      twoKeys).map Prod.fst = some (.ok rootEntries) := rfl
  exact stat_listed_iff (BucketService.lawful_store _) rfl rfl hkeys
    (fun _ => Store.mem_bucketKeys.2) (by decide) hlist
    (List.mem_cons_of_mem _ (List.mem_singleton_self _)) (fun m h => by cases hstat.symm.trans h)

/-- A directory is found under its path without the slash, and always. -/
theorem stat_without_slash (hs : svc.Lawful objects marker source)
    (hvalid : fs.validateConfig = .ok ()) {s : σ}
    (hlists : ListsDir (objects s) fs.config.bucket keyPrefix now entries items)
    (hkeys : ∀ key, (objects s ⟨fs.config.bucket, key⟩).isSome → IsKey key) {text : Bytes}
    (hitem : .commonPrefix (text ++ [slash]) ∈ items) :
    (fs.stat svc (keyToPath text) now s).1 = .ok (.directory (keyToPath text) now) ∨
      ∃ m, (fs.stat svc (keyToPath text) now s).1 = .error (.Io m) := by
  obtain ⟨name, rest, -, -, hsome⟩ := (hlists.commonPrefix_iff _).1 hitem
  have hkey := hkeys _ hsome
  rw [List.append_assoc, List.singleton_append] at hkey
  have hne : text ≠ [] := by
    rintro rfl
    exact hkey.head_ne rfl
  have htext := (hkey.of_append hne).1
  have hhas : HasKeys (objects s) fs.config.bucket text :=
    ⟨_, List.prefix_append _ rest, hsome⟩
  have hends := (stat_ends hs hvalid htext.toStringLossy_ne now s).2
  rw [htext.pathToKey] at hends
  generalize (fs.stat svc (keyToPath text) now s).1 = r at hends
  cases hends with
  | directory _ => exact Or.inl rfl
  | file hk _ => exact absurd hhas hk
  | missing hk _ => exact absurd hhas hk
  | failed m => exact Or.inr ⟨m, rfl⟩

/-- **A directory that has been made is listed in itself**, as an empty file. -/
theorem readDir_mkdir (hs : svc.Lawful objects marker source)
    (hvalid : fs.validateConfig = .ok ()) {path : PathBuf} (hkey : S3FS.pathToKey path ≠ []) {s : σ}
    (hmade : (fs.mkdir svc path s).1 = .ok ()) {keys : List Bytes}
    (hall : ∀ key,
      (objects (fs.mkdir svc path s).2 ⟨fs.config.bucket, key⟩).isSome → key ∈ keys) {n : ℕ}
    (hn : keys.length < n)
    (hlist : (fs.readDir svc path now n (fs.mkdir svc path s).2).map Prod.fst =
      some (.ok entries)) :
    ∃ e ∈ entries, e.path = keyToPath (dirKey path) ∧ e.isDirectory = false ∧ e.size = 0 := by
  obtain ⟨items, hlists⟩ := lists_of_readDir hs hvalid hall hn hlist
  have hput := hs.putObject_ok ⟨fs.config.bucket, dirKey path⟩ [] s
  have hmkdir : fs.mkdir svc path s =
      S3FS.done (svc.putObject ⟨fs.config.bucket, dirKey path⟩ [] s) := by
    rw [S3FS.mkdir, hvalid]
    simp only [if_neg hkey]
  rw [hmkdir] at hmade hlists
  rcases hcall : svc.putObject ⟨fs.config.bucket, dirKey path⟩ [] s with ⟨e | ⟨⟩, s₁⟩
  · rw [hcall] at hmade
    cases hmade
  · rw [hcall] at hput hlists
    obtain ⟨t, ht⟩ := hput rfl
    have hobj : objects s₁ ⟨fs.config.bucket, dirKey path⟩ = some ⟨[], t⟩ := by
      rw [ht, Function.update_self]
    have hitem : .key (dirKey path) ∈ items := by
      refine (hlists.key_iff _).2 ⟨Option.isSome_iff_exists.2 ⟨_, hobj⟩, [], by simp, ?_⟩
      rw [dirPrefix, if_neg hkey, List.append_nil]
    have hmem : entryOf (objects s₁) fs.config.bucket now (.key (dirKey path)) ∈
        entries.map some := hlists.entries ▸ List.mem_map_of_mem hitem
    obtain ⟨e, he, hentry⟩ := List.mem_map.1 hmem
    refine ⟨e, he, path_of_entryOf hentry.symm, ?_⟩
    rw [entryOf, hobj] at hentry
    obtain rfl := Option.some.inj hentry
    exact ⟨isDirectory_fileWithTime _ _ _ _, rfl⟩

theorem readDir_mkdir_e : ∃ e ∈ [fileWithTime ⟨ascii "/e/"⟩ (some 0) (some epoch) 0],
    e.path = keyToPath (dirKey ⟨ascii "/e"⟩) ∧ e.isDirectory = false ∧ e.size = 0 :=
  @readDir_mkdir _ (BucketService.store fun _ => false) bucketFs (fun s => s.get?) order sourceOf
    0 _ (BucketService.lawful_store _) rfl ⟨ascii "/e"⟩ (by decide) twoKeys rfl _
    (fun _ => Store.mem_bucketKeys.2) 4 (by decide) rfl

end Listed

end Racfs.S3Fs
