/-
# Directories of the S3 filesystem

What `S3FS` (`racfs-plugin-s3fs/src/fs`) makes of the keys of a bucket: a key with slashes is a
path, and a directory is what keys continue with a slash.

A listing asks for the keys behind the slash, with the slash as delimiter, and goes on as long as
the answer has a token for the next piece.  The loop is not bounded, so `readDir` has a bound on
the number of pieces, and no result when it is reached.  For a lawful service that nobody else
changes, the number of the keys is enough, and a listing that succeeds has one entry for each key
directly behind the slash, with the size of the object, and one for each directory there
(`readDir_lists`).  The object that `mkdir` puts is one of these keys: a directory made so is listed
in itself, as a file.
-/
import Racfs.S3Fs.Model
import Racfs.S3Fs.Store

namespace Racfs.S3Fs

variable {σ : Type*} (svc : BucketService σ) (fs : S3FS)

/-- The path of a key. -/
def keyToPath (key : Bytes) : PathBuf :=
  if key = [] ∨ key = ascii "/" then ⟨ascii "/"⟩ else PathBuf.push ⟨ascii "/"⟩ ⟨key⟩

/-- The metadata of a file, with the time that the service has for it. -/
def fileWithTime (path : PathBuf) (size : Option Int64) (lastModified : Option Timestamp)
    (now : DateTime) : FileMetadata :=
  let m := FileMetadata.file path (size.getD 0).toUInt64 now
  match lastModified with
  | some t => { m with modified := fromTimestamp t, accessed := fromTimestamp t }
  | none => m

/-- The entry for an object in a listing. -/
def contentEntry (now : DateTime) (o : ListedObject) : FileMetadata :=
  fileWithTime (keyToPath (o.key.getD [])) o.size o.lastModified now

/-- The entry for a common prefix in a listing. -/
def prefixEntry (now : DateTime) : Option Bytes → Option FileMetadata
  | some p => if p = [] then none else some (.directory (keyToPath p) now)
  | none => none

/-- The entries for an answer. -/
def ListResponse.entries (resp : ListResponse) (now : DateTime) : List FileMetadata :=
  resp.contents.map (contentEntry now) ++ resp.commonPrefixes.filterMap (prefixEntry now)

/-- The text of a path that stands for the keys in a directory. -/
def dirKey (path : PathBuf) : Bytes := S3FS.pathToKey path ++ [slash]

namespace S3FS

/-- The loop over the pieces of a listing, the first `n` of them. -/
def listPieces (keyPrefix : Bytes) (delimiter : Option Bytes) (now : DateTime) :
    (n : ℕ) → (token : Option Bytes) → (results : List FileMetadata) → σ →
    Option (Except FSError (List FileMetadata) × σ)
  | 0, _, _, _ => none
  | n + 1, token, results, s =>
    match svc.listObjectsV2 ⟨fs.config.bucket, keyPrefix, delimiter, 1000, token⟩ s with
    | (.error e, s) => some (.error (.Io e), s)
    | (.ok resp, s) =>
      let results := results ++ resp.entries now
      if resp.isTruncated.getD false then
        match resp.nextContinuationToken with
        | some t => listPieces keyPrefix delimiter now n (some t) results s
        | none => some (.ok results, s)
      else some (.ok results, s)

/-- List the objects with a prefix. -/
def listObjectsV2 (keyPrefix : Bytes) (delimiter : Option Bytes) (now : DateTime) (n : ℕ) (s : σ) :
    Option (Except FSError (List FileMetadata) × σ) :=
  match fs.validateConfig with
  | .error e => some (.error e, s)
  | .ok () => fs.listPieces svc keyPrefix delimiter now n none [] s

/-- List a directory. -/
def readDir (path : PathBuf) (now : DateTime) (n : ℕ) (s : σ) :
    Option (Except FSError (List FileMetadata) × σ) :=
  match fs.validateConfig with
  | .error e => some (.error e, s)
  | .ok () =>
    if path.toStringLossy = ascii "/" then fs.listObjectsV2 svc [] (some [slash]) now n s
    else
      fs.listObjectsV2 svc (if pathToKey path = [] then [] else dirKey path) (some [slash]) now n s

/-- Whether there is an object for the path. -/
def pathExists (path : PathBuf) (s : σ) : Except FSError Bool × σ :=
  if pathToKey path = [] then (.ok true, s)
  else
    match svc.headObject (fs.object path) s with
    | (.ok _, s) => (.ok true, s)
    | (.error (.notFound _), s) => (.ok false, s)
    | (.error (.other m), s) => (.error (.Io m), s)

/-- Whether there are keys in the directory. -/
def isDirectory (path : PathBuf) (s : σ) : Except FSError Bool × σ :=
  if path.toStringLossy = ascii "/" then (.ok true, s)
  else
    match svc.listObjectsV2 ⟨fs.config.bucket, dirKey path, none, 1, none⟩ s with
    | (.error e, s) => (.error (.Io e), s)
    | (.ok resp, s) => (.ok (resp.keyCount.getD 0 > 0 || !resp.commonPrefixes.isEmpty), s)

/-- The metadata of a path. -/
def stat (path : PathBuf) (now : DateTime) (s : σ) : Except FSError FileMetadata × σ :=
  match fs.validateConfig with
  | .error e => (.error e, s)
  | .ok () =>
    if path.toStringLossy = ascii "/" then (.ok (.directory ⟨ascii "/"⟩ now), s)
    else
      match fs.isDirectory svc path s with
      | (.error e, s) => (.error e, s)
      | (.ok true, s) => (.ok (.directory path now), s)
      | (.ok false, s) =>
        match svc.headObject (fs.object path) s with
        | (.ok head, s) => (.ok (fileWithTime path head.contentLength head.lastModified now), s)
        | (.error (.notFound _), s) =>
          -- the keys in the directory are asked for once more
          match fs.isDirectory svc path s with
          | (.error e, s) => (.error e, s)
          | (.ok true, s) => (.ok (.directory path now), s)
          | (.ok false, s) => (.error (.NotFound path), s)
        | (.error (.other m), s) => (.error (.Io m), s)

/-- The result of a call without a value. -/
def done {A : Type} : Except String A × σ → Except FSError Unit × σ
  | (.ok _, s) => (.ok (), s)
  | (.error e, s) => (.error (.Io e), s)

/-- Make a directory: an empty object whose key ends with a slash. -/
def mkdir (path : PathBuf) (s : σ) : Except FSError Unit × σ :=
  match fs.validateConfig with
  | .error e => (.error e, s)
  | .ok () =>
    let key := if pathToKey path = [] then ascii "/" else dirKey path
    done (svc.putObject ⟨fs.config.bucket, key⟩ [] s)

end S3FS

/-! ### What a listing has -/

/-- The prefix of the keys in a directory. -/
def dirPrefix (path : PathBuf) : Bytes := if S3FS.pathToKey path = [] then [] else dirKey path

/-- The entry for an item of a listing. -/
def entryOf (objects : Objects) (bucket : Bytes) (now : DateTime) : Item → Option FileMetadata
  | .key key => (objects ⟨bucket, key⟩).map fun obj =>
    fileWithTime (keyToPath key) (some (Int64.ofNat obj.body.length)) (some obj.lastModified) now
  | .commonPrefix text => some (.directory (keyToPath text) now)

/-- The entries are those of the keys with the prefix in which no slash follows, and of what the
other ones have in common up to the next slash; each is there once. -/
structure ListsDir (objects : Objects) (bucket keyPrefix : Bytes) (now : DateTime)
    (entries : List FileMetadata) (items : List Item) : Prop where
  nodup : items.Nodup
  key_iff : ∀ key, .key key ∈ items ↔
    (objects ⟨bucket, key⟩).isSome ∧ ∃ name, slash ∉ name ∧ key = keyPrefix ++ name
  commonPrefix_iff : ∀ text, .commonPrefix text ∈ items ↔
    ∃ name rest, slash ∉ name ∧ text = keyPrefix ++ name ++ [slash] ∧
      (objects ⟨bucket, text ++ rest⟩).isSome
  entries : entries.map some = items.map (entryOf objects bucket now)

lemma upTo_slash_cons (b : UInt8) (bs : Bytes) : upTo [slash] (b :: bs) =
    if b = slash then some [slash] else (upTo [slash] bs).map (b :: ·) := by
  rw [upTo]
  by_cases hb : b = slash
  · simp [hb]
  · simp [hb, Ne.symm hb]

lemma upTo_slash_eq_some {bs common : Bytes} : upTo [slash] bs = some common ↔
    ∃ name rest, slash ∉ name ∧ common = name ++ [slash] ∧ bs = common ++ rest := by
  induction bs generalizing common with
  | nil => simp +contextual [upTo]
  | cons b bs ih =>
    rw [upTo_slash_cons]
    split_ifs with hb
    · subst hb
      constructor
      · intro h
        cases h
        exact ⟨[], bs, by simp, rfl, rfl⟩
      · rintro ⟨name, rest, hname, rfl, hbs⟩
        cases name with
        | nil => rfl
        | cons c name =>
          cases hbs
          simp at hname
    · rw [Option.map_eq_some_iff]
      constructor
      · rintro ⟨c, hc, rfl⟩
        obtain ⟨name, rest, hname, rfl, rfl⟩ := ih.1 hc
        exact ⟨b :: name, rest, by simp [hname, Ne.symm hb], rfl, rfl⟩
      · rintro ⟨name, rest, hname, rfl, hbs⟩
        cases name with
        | nil =>
          cases hbs
          exact absurd rfl hb
        | cons c name =>
          obtain ⟨rfl, rfl⟩ := List.cons.inj hbs
          have hrest : slash ∉ name := fun h => hname (List.mem_cons_of_mem _ h)
          exact ⟨name ++ [slash], ih.2 ⟨name, rest, hrest, rfl, rfl⟩, rfl⟩

lemma upTo_slash_eq_none {bs : Bytes} : upTo [slash] bs = none ↔ slash ∉ bs := by
  induction bs with
  | nil => simp [upTo]
  | cons b bs ih =>
    rw [upTo_slash_cons]
    split_ifs with hb
    · simp [hb]
    · simp [ih, Ne.symm hb]

section Items

variable {req : ListRequest} {objects : Objects}

lemma itemOf_append (hreq : req.delimiter = some [slash]) (name : Bytes) :
    req.itemOf (req.keyPrefix ++ name) =
      match upTo [slash] name with
      | some common => .commonPrefix (req.keyPrefix ++ common)
      | none => .key (req.keyPrefix ++ name) := by
  rw [ListRequest.itemOf, hreq, List.drop_left]
  rfl

lemma key_mem_items_iff (req : ListRequest) (hreq : req.delimiter = some [slash]) (key : Bytes) :
    .key key ∈ req.items objects ↔ (objects ⟨req.bucket, key⟩).isSome ∧
      ∃ name, slash ∉ name ∧ key = req.keyPrefix ++ name := by
  constructor
  · rintro ⟨key', ⟨name, rfl⟩, hsome, heq⟩
    rw [itemOf_append hreq] at heq
    cases hup : upTo [slash] name with
    | none =>
      rw [hup] at heq
      cases heq
      exact ⟨hsome, name, upTo_slash_eq_none.1 hup, rfl⟩
    | some common =>
      rw [hup] at heq
      cases heq
  · rintro ⟨hsome, name, hname, rfl⟩
    refine ⟨_, ⟨name, rfl⟩, hsome, ?_⟩
    rw [itemOf_append hreq, upTo_slash_eq_none.2 hname]

lemma commonPrefix_mem_items_iff (req : ListRequest) (hreq : req.delimiter = some [slash])
    (text : Bytes) :
    .commonPrefix text ∈ req.items objects ↔ ∃ name rest, slash ∉ name ∧
      text = req.keyPrefix ++ name ++ [slash] ∧ (objects ⟨req.bucket, text ++ rest⟩).isSome := by
  constructor
  · rintro ⟨key', ⟨tail, rfl⟩, hsome, heq⟩
    rw [itemOf_append hreq] at heq
    cases hup : upTo [slash] tail with
    | none =>
      rw [hup] at heq
      cases heq
    | some common =>
      rw [hup] at heq
      cases heq
      obtain ⟨name, rest, hname, rfl, rfl⟩ := upTo_slash_eq_some.1 hup
      exact ⟨name, rest, hname, by simp, by simpa using hsome⟩
  · rintro ⟨name, rest, hname, rfl, hsome⟩
    refine ⟨_, ⟨name ++ [slash] ++ rest, rfl⟩, by simpa using hsome, ?_⟩
    rw [itemOf_append hreq, upTo_slash_eq_some.2 ⟨name, rest, hname, rfl, rfl⟩]
    simp

/-- The items are those of keys. -/
lemma items_subset (req : ListRequest) {keys : List Bytes}
    (hkeys : ∀ key, (objects ⟨req.bucket, key⟩).isSome → key ∈ keys) :
    ∀ i ∈ req.items objects, i ∈ keys.map req.itemOf := by
  rintro i ⟨key, -, hsome, rfl⟩
  exact List.mem_map_of_mem (hkeys key hsome)

end Items

section Entries

variable {req : ListRequest} {resp : ListResponse} {objects : Objects}
  {marker : Bytes → List ℕ}

lemma contents_entries {contents : List ListedObject} {bucket : Bytes}
    (h : ∀ o ∈ contents, o.Describes bucket objects) (now : DateTime) :
    (contents.map (contentEntry now)).map some =
      (contents.filterMap fun o => o.key.map Item.key).map (entryOf objects bucket now) := by
  induction contents with
  | nil => rfl
  | cons o contents ih =>
    obtain ⟨key, obj, hkey, hobj, hsize, htime⟩ := h o List.mem_cons_self
    have hrest := ih fun o' ho' => h o' (List.mem_cons_of_mem _ ho')
    simp only [List.map_cons, List.filterMap_cons, hkey, Option.map_some, hrest]
    simp [entryOf, hobj, contentEntry, hkey, hsize, htime]

lemma commonPrefixes_entries {commonPrefixes : List (Option Bytes)}
    (h : ∀ p ∈ commonPrefixes, p ≠ none ∧ p ≠ some []) (bucket : Bytes) (now : DateTime) :
    (commonPrefixes.filterMap (prefixEntry now)).map some =
      (commonPrefixes.filterMap fun p => p.map Item.commonPrefix).map
        (entryOf objects bucket now) := by
  induction commonPrefixes with
  | nil => rfl
  | cons p commonPrefixes ih =>
    have hrest := ih fun p' hp' => h p' (List.mem_cons_of_mem _ hp')
    obtain ⟨hsome, hne⟩ := h p List.mem_cons_self
    cases p with
    | none => exact absurd rfl hsome
    | some text =>
      have htext : text ≠ [] := fun heq => hne (by rw [heq])
      simp [prefixEntry, htext, entryOf, hrest]

/-- The entries for an answer are those of its items. -/
lemma ListResponse.Answers.entries (h : resp.Answers req objects marker)
    (hreq : req.delimiter = some [slash]) (now : DateTime) :
    (resp.entries now).map some = resp.items.map (entryOf objects req.bucket now) := by
  have hprefixes : ∀ p ∈ resp.commonPrefixes, p ≠ none ∧ p ≠ some [] := by
    rintro p hp
    refine ⟨h.commonPrefixes p hp, fun heq => ?_⟩
    have hmem : Item.commonPrefix [] ∈ resp.items :=
      List.mem_append_right _ (List.mem_filterMap.2 ⟨p, hp, by rw [heq]; rfl⟩)
    obtain ⟨name, rest, -, htext, -⟩ :=
      (commonPrefix_mem_items_iff req hreq []).1 ((h.piece.mem_iff _).1 hmem).1
    simp at htext
  rw [ListResponse.entries, ListResponse.items, List.map_append, List.map_append,
    contents_entries h.describes, commonPrefixes_entries hprefixes]

end Entries

/-! ### The loop -/

section Loop

variable {svc : BucketService σ} {fs : S3FS} {objects : σ → Objects} {marker : Bytes → List ℕ}
  {source : Bytes → ObjectId}

/-- From any turn on, the loop ends with an error of the service or with the entries of all
items, and before it has asked for more pieces than there are keys. -/
lemma listPieces_lists (hs : svc.Lawful objects marker source) {keyPrefix : Bytes} {now : DateTime}
    {all : List Item} {n : ℕ} :
    ∀ {token : Option Bytes} {items : List Item} {results : List FileMetadata} {s : σ},
    let req : ListRequest := ⟨fs.config.bucket, keyPrefix, some [slash], 1000, token⟩
    (∀ i ∈ req.items (objects s), i ∈ all) → all.length < items.length + n →
    Pages.ReadTo Item.position (req.items (objects s)) items (token.map marker) →
    results.map some = items.map (entryOf (objects s) fs.config.bucket now) →
    ∃ r s', fs.listPieces svc keyPrefix (some [slash]) now n token results s = some (r, s') ∧
      objects s' = objects s ∧
      ((∃ m, r = .error (.Io m)) ∨ ∃ items entries, r = .ok entries ∧
        Pages.Piece Item.position (req.items (objects s)) none items none ∧
        entries.map some = items.map (entryOf (objects s) fs.config.bucket now)) := by
  induction n with
  | zero =>
    intro token items results s req hall hlen hread _
    exact absurd (hread.length_le hall) (by omega)
  | succ n ih =>
    intro token items results s req hall hlen hread hresults
    have hkept := hs.listObjectsV2 req s
    rw [S3FS.listPieces]
    rcases hcall : svc.listObjectsV2 req s with ⟨e | resp, s'⟩
    · rw [hcall] at hkept
      exact ⟨_, _, rfl, hkept, Or.inl ⟨e, rfl⟩⟩
    · rw [hcall] at hkept
      have hanswers : resp.Answers req (objects s) marker :=
        hs.answers req s resp (show 0 < 1000 by decide) (by rw [hcall])
      have hpiece := hread.append hanswers.piece fun i _ => Iff.rfl
      have hentries : (results ++ resp.entries now).map some =
          (items ++ resp.items).map (entryOf (objects s) fs.config.bucket now) := by
        rw [List.map_append, List.map_append, hresults, hanswers.entries rfl]
      cases htoken : resp.nextContinuationToken with
      | none =>
        rw [htoken] at hpiece
        have htruncated : resp.isTruncated = some false := by
          rw [hanswers.isTruncated, htoken]
          rfl
        simp only [htruncated]
        exact ⟨_, _, rfl, hkept, Or.inr ⟨_, _, rfl, hpiece, hentries⟩⟩
      | some t =>
        rw [htoken] at hpiece
        have htruncated : resp.isTruncated = some true := by
          rw [hanswers.isTruncated, htoken]
          rfl
        have hpos : 0 < resp.items.length :=
          List.length_pos_of_ne_nil (hanswers.ne_nil (by rw [htoken]; rfl))
        simp only [htruncated, htoken, Option.getD_some, if_true]
        have hgo := @ih (some t) (items ++ resp.items) (results ++ resp.entries now) s'
        rw [hkept] at hgo
        exact hgo hall (by rw [List.length_append]; omega) hpiece hentries

/-- A listing of a directory is the loop at the directory's prefix. -/
lemma readDir_eq_listPieces (svc : BucketService σ) (hvalid : fs.validateConfig = .ok ())
    (path : PathBuf) (now : DateTime) (n : ℕ) (s : σ) :
    fs.readDir svc path now n s =
      fs.listPieces svc (dirPrefix path) (some [slash]) now n none [] s := by
  have hroot : path.toStringLossy = ascii "/" → S3FS.pathToKey path = [] := by
    intro h
    rw [S3FS.pathToKey, if_pos h]
  rw [S3FS.readDir, hvalid, dirPrefix]
  simp only [S3FS.listObjectsV2, hvalid]
  split_ifs with h hkey hkey
  · rfl
  · exact absurd (hroot h) hkey
  · rfl
  · rfl

/-- All items of a directory, each with its entry, list the directory. -/
lemma listsDir_of_piece {objects : Objects} {bucket keyPrefix : Bytes} {now : DateTime}
    {entries : List FileMetadata} {items : List Item}
    (hpiece : Pages.Piece Item.position
      ((⟨bucket, keyPrefix, some [slash], 1000, none⟩ : ListRequest).items objects) none items none)
    (hentries : entries.map some = items.map (entryOf objects bucket now)) :
    ListsDir objects bucket keyPrefix now entries items := by
  refine ⟨hpiece.nodup, fun key => ?_, fun text => ?_, hentries⟩
  · rw [hpiece.mem_iff_of_all]
    exact key_mem_items_iff _ rfl key
  · rw [hpiece.mem_iff_of_all]
    exact commonPrefix_mem_items_iff _ rfl text

/-- The loop from its start ends with an error of the service or with the directory's listing. -/
lemma listPieces_listsDir (hs : svc.Lawful objects marker source) (keyPrefix : Bytes)
    (now : DateTime) (s : σ) {keys : List Bytes}
    (hkeys : ∀ key, (objects s ⟨fs.config.bucket, key⟩).isSome → key ∈ keys)
    {n : ℕ} (hn : keys.length < n) :
    ∃ r s', fs.listPieces svc keyPrefix (some [slash]) now n none [] s = some (r, s') ∧
      objects s' = objects s ∧
      ((∃ m, r = .error (.Io m)) ∨ ∃ entries items, r = .ok entries ∧
        ListsDir (objects s) fs.config.bucket keyPrefix now entries items) := by
  set req : ListRequest := ⟨fs.config.bucket, keyPrefix, some [slash], 1000, none⟩ with hreq
  obtain ⟨r, s', hrun, hkept, hend⟩ := @listPieces_lists σ svc fs objects marker source hs
    keyPrefix now (keys.map req.itemOf) n none [] [] s (items_subset req hkeys)
    (by simpa using hn) rfl rfl
  refine ⟨r, s', hrun, hkept, ?_⟩
  rcases hend with herror | ⟨items, entries, hok, hpiece, hentries⟩
  · exact Or.inl herror
  · exact Or.inr ⟨entries, items, hok, listsDir_of_piece hpiece hentries⟩

/-- A listing ends when it may ask for more pieces than there are keys.  It leaves the objects as
they are, and has an error of the service or an entry for each item of the directory. -/
theorem readDir_lists (hs : svc.Lawful objects marker source)
    (hvalid : fs.validateConfig = .ok ()) (path : PathBuf) (now : DateTime) (s : σ)
    {keys : List Bytes} (hkeys : ∀ key, (objects s ⟨fs.config.bucket, key⟩).isSome → key ∈ keys)
    {n : ℕ} (hn : keys.length < n) :
    ∃ r s', fs.readDir svc path now n s = some (r, s') ∧ objects s' = objects s ∧
      ((∃ m, r = .error (.Io m)) ∨ ∃ entries items, r = .ok entries ∧
        ListsDir (objects s) fs.config.bucket (dirPrefix path) now entries items) := by
  rw [readDir_eq_listPieces svc hvalid]
  exact listPieces_listsDir hs (dirPrefix path) now s hkeys hn

/-- A filesystem over a bucket. -/
def bucketFs : S3FS :=
  ⟨⟨ascii "bucket", ascii "us-east-1", ascii "key", ascii "secret", 5242880, 5242880⟩⟩

/-- A file, and a file in a directory. -/
def twoKeys : Store :=
  ((∅ : Store).insert ⟨ascii "bucket", ascii "a"⟩ ⟨ascii "text", epoch⟩).insert
    ⟨ascii "bucket", ascii "d/b"⟩ ⟨[], epoch⟩

theorem readDir_lists_twoKeys : ∃ r s',
    bucketFs.readDir (BucketService.store fun _ => false) ⟨ascii "/"⟩ 0 3 twoKeys = some (r, s') ∧
      s'.get? = twoKeys.get? ∧
      ((∃ m, r = .error (.Io m)) ∨ ∃ entries items, r = .ok entries ∧
        ListsDir twoKeys.get? (ascii "bucket") (dirPrefix ⟨ascii "/"⟩) 0 entries items) :=
  readDir_lists (BucketService.lawful_store _) rfl ⟨ascii "/"⟩ 0 twoKeys
    (fun _ => Store.mem_bucketKeys.2) (by decide)

/-- The entries of a listing without an error. -/
lemma lists_of_readDir (hs : svc.Lawful objects marker source)
    (hvalid : fs.validateConfig = .ok ()) {path : PathBuf} {now : DateTime} {s : σ}
    {keys : List Bytes} (hkeys : ∀ key, (objects s ⟨fs.config.bucket, key⟩).isSome → key ∈ keys)
    {n : ℕ} (hn : keys.length < n) {entries : List FileMetadata}
    (hlist : (fs.readDir svc path now n s).map Prod.fst = some (.ok entries)) :
    ∃ items, ListsDir (objects s) fs.config.bucket (dirPrefix path) now entries items := by
  obtain ⟨r, s', hrun, -, hend⟩ := listPieces_listsDir hs (dirPrefix path) now s hkeys hn
  rw [readDir_eq_listPieces svc hvalid, hrun] at hlist
  obtain rfl : r = .ok entries := Option.some.inj hlist
  rcases hend with ⟨m, hm⟩ | ⟨entries', items, hok, hlists⟩
  · cases hm
  · cases hok
    exact ⟨items, hlists⟩

end Loop

end Racfs.S3Fs
