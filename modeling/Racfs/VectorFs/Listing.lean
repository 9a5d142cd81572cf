/-
# The listing of documents

A listing of `/documents` has the entries of the metadata map that are right below it, and then one
entry more for each row of the table, as a file of size zero.  So a document is in it twice, and the
entry for its row has not the type that `stat` returns: `stat` takes the mode of the row, which has
no type (`create` stores `0o644`).

For the states that operations on documents lead to (`Listed`), listing and `stat` agree exactly if
there is no document at all (`documents_agree_iff`).
-/
import Racfs.Lib.Run
import Racfs.MemFs.Listing
import Racfs.VectorFs.Index

namespace Racfs.VectorFs

open MemFs (ChildOf)
open StreamFs (trimEndMatches)
open VectorFS

variable {V : Type*} {e : Embedding V} {fs : VectorFS V}

/-- The directory of the documents. -/
def documents : PathBuf := ⟨ascii "/documents"⟩

/-- What a listing takes from the metadata map. -/
def VectorFS.metadataEntries (fs : VectorFS V) (text : Bytes) : List FileMetadata :=
  let pre := if text = [slash] then [] else text
  (fs.metadata.entries.filter fun x =>
    pre.isPrefixOf x.1.toStringLossy && x.1.toStringLossy != pre).filterMap fun x =>
      let relative := if pre = [] then x.1 else (x.1.stripPrefix ⟨pre⟩).getD x.1
      let components := relative.components
      if relative.bytes = [slash] then none
      else if components.length = 1 ∨
          components.length = 2 ∧ components.head? = some .rootDir then some x.2
      else none

/-- List a directory. -/
def VectorFS.readDir (faults : Faults) (fs : VectorFS V) (path : PathBuf) (now : DateTime) :
    Outcome (List FileMetadata) :=
  let text := path.toStringLossy
  let entries := fs.metadataEntries text
  if text = ascii "/documents" then
    (fs.listDocumentPaths faults).map fun docPaths =>
      entries ++ (docPaths.filter fun p => p.parent.any (· == documents)).map fun p =>
        .file p 0 now
  else .ok entries

/-- Whether a path is that of a file of a search with this name. -/
def isFileOfSearch (text : Bytes) (name : String) : Bool :=
  decide (ascii "/search/" <:+: text ∧ ascii name <:+ text)

/-- The metadata of a path. -/
def VectorFS.stat (faults : Faults) (fs : VectorFS V) (path : PathBuf) : Outcome FileMetadata :=
  let text := path.toStringLossy
  let found := fs.metadata.get? path
  let stored : Outcome FileMetadata :=
    match found with
    | some m => .ok m
    | none => .err (.NotFound path)
  if text = ascii "/index/count" then
    stored.bind fun m =>
      (fs.documentCount faults).map fun count => { m with size := count.toUInt64 }
  else if text = ascii "/index/status" ∨ text = ascii "/index/dimension" then stored
  else
    match if isFileOfSearch text "/query.txt" then found else none with
    | some m =>
      let size := ((fs.searchQueries.get? (queryId text)).map List.length).getD 0
      .ok { m with size := size.toUInt64 }
    | none =>
      match if isFileOfSearch text "/matches.txt" then found else none with
      | some m => .ok { m with size := 0 }
      | none =>
        if isDocument path then
          (fs.getDocument faults .get path).bind fun
            | some d =>
              let modified := some (fromTimestampMillis d.modifiedAt)
              .ok ⟨path, d.data.length.toUInt64, d.mode, some (fromTimestampMillis d.createdAt),
                modified, modified, false, none⟩
            | none => stored
        else stored

/-- The listing has exactly one entry for each row right below the directory, and the type and the
size of such an entry are those that `stat` returns. -/
def Agrees (fs : VectorFS V) (now : DateTime) : Prop :=
  ∃ entries, fs.readDir noFaults documents now = .ok entries ∧
    ∀ key, fs.table.contains key = true → ChildOf documents ⟨key⟩ →
      entries.countP (fun m => m.path == ⟨key⟩) = 1 ∧
      ∀ m ∈ entries, (m.path == ⟨key⟩) = true →
        ∃ m', fs.stat noFaults ⟨key⟩ = .ok m' ∧
          m.mode &&& S_IFMT = m'.mode &&& S_IFMT ∧ m.size = m'.size

/-- An operation on documents right below the directory. -/
def Op.OnDocuments : Op → Prop
  | .create _ path _ => ChildOf documents path
  | .write _ path _ _ _ _ => ChildOf documents path
  | .truncate _ path _ _ => ChildOf documents path
  | .remove _ path => ChildOf documents path
  | .rename _ oldPath newPath _ => ChildOf documents oldPath ∧ ChildOf documents newPath
  | _ => False

instance : DecidablePred Op.OnDocuments
  | .create _ path _ => inferInstanceAs (Decidable (ChildOf documents path))
  | .write _ path _ _ _ _ => inferInstanceAs (Decidable (ChildOf documents path))
  | .truncate _ path _ _ => inferInstanceAs (Decidable (ChildOf documents path))
  | .remove _ path => inferInstanceAs (Decidable (ChildOf documents path))
  | .rename _ oldPath newPath _ =>
    inferInstanceAs (Decidable (ChildOf documents oldPath ∧ ChildOf documents newPath))
  | .touch .. | .chmod .. | .mkdir .. | .removeAll .. | .setXattr .. | .removeXattr .. =>
    .isFalse id

/-- One operation on documents. -/
def documentStep (e : Embedding V) (fs : VectorFS V) (op : Op) : Option (VectorFS V) :=
  if op.OnDocuments then some (fs.exec e op) else none

/-- All metadata are those of their own paths, and the paths right below the directory are those of
documents. -/
structure WellNamed (m : AssocMap PathBuf FileMetadata) : Prop where
  path : ∀ p x, m.get? p = some x → (x.path == p) = true
  key : ∀ p ∈ m.keys, ChildOf documents p → isDocument p = true

/-- What the operations keep: the rows have modes without a type and lie right below the
directory. -/
structure Listed (fs : VectorFS V) : Prop where
  row : ∀ key d, fs.table.get? key = some d → d.mode = 0o644 ∧ ChildOf documents ⟨key⟩
  names : WellNamed fs.metadata

/-! ### The metadata -/

namespace WellNamed

variable {m : AssocMap PathBuf FileMetadata}

lemma empty : WellNamed ∅ := ⟨nofun, nofun⟩

lemma insert (h : WellNamed m) {p : PathBuf} {x : FileMetadata} (hx : (x.path == p) = true)
    (hp : ChildOf documents p → isDocument p = true) : WellNamed (m.insert p x) where
  path q y hy := by
    rw [AssocMap.get?_insert] at hy
    split_ifs at hy with hpq
    · obtain rfl := Option.some.inj hy
      exact BEq.trans hx hpq
    · exact h.path q y hy
  key := AssocMap.forall_keys_insert h.key hp x

lemma erase (h : WellNamed m) (p : PathBuf) : WellNamed (m.erase p) where
  path q y hy := h.path q y (AssocMap.get?_of_get?_erase hy)
  key := AssocMap.forall_keys_retain h.key _

lemma modify (h : WellNamed m) (p : PathBuf) {f : FileMetadata → FileMetadata}
    (hf : ∀ x, (f x).path = x.path) : WellNamed (m.modify p f) where
  path q y hy := by
    rw [AssocMap.get?_modify] at hy
    split_ifs at hy
    · obtain ⟨x, hx, rfl⟩ := Option.map_eq_some_iff.mp hy
      rw [hf]
      exact h.path q x hx
    · exact h.path q y hy
  key := by
    rw [AssocMap.keys_modify]
    exact h.key

end WellNamed

lemma listed_new (dimension : ℕ) (now : DateTime) : Listed (new dimension now : VectorFS V) where
  row := nofun
  names := by
    have hroot (p : String) (hp : ¬ ChildOf documents ⟨ascii p⟩) :
        ChildOf documents ⟨ascii p⟩ → isDocument ⟨ascii p⟩ = true := fun h => absurd h hp
    refine .insert (.insert (.insert (.insert (.insert (.insert (.insert .empty
      ?_ ?_) ?_ ?_) ?_ ?_) ?_ ?_) ?_ ?_) ?_ ?_) ?_ ?_
    all_goals first | exact BEq.rfl | exact hroot _ (by decide)

/-! ### The calls -/

lemma childOf_toStringLossy {path : PathBuf} (h : ChildOf documents path) :
    ChildOf documents ⟨path.toStringLossy⟩ := by
  obtain ⟨c, hc, hcomps⟩ := MemFs.childOf_iff.mp h
  refine MemFs.childOf_iff.mpr ⟨c.lossy, ?_, ?_⟩
  · cases c with
    | rootDir => exact absurd rfl hc
    | _ => exact nofun
  · rw [PathBuf.components_toStringLossy, hcomps, List.map_append]
    congr 1

lemma Listed.of_eq {fs' : VectorFS V} (h : Listed fs) (htable : fs'.table = fs.table)
    (hmetadata : fs'.metadata = fs.metadata) : Listed fs' := by
  refine ⟨?_, ?_⟩
  · rw [htable]
    exact h.row
  · rw [hmetadata]
    exact h.names

lemma Listed.withMetadata (h : Listed fs) {m : AssocMap PathBuf FileMetadata} (hm : WellNamed m) :
    Listed { fs with metadata := m } := ⟨h.row, hm⟩

lemma Listed.persistDocument (h : Listed fs) (faults : Faults) {path : PathBuf}
    (hpath : ChildOf documents path) {d : Document V} (hd : d.mode = 0o644) :
    Listed (fs.persistDocument faults path d).2 := by
  rw [VectorFS.persistDocument]
  split
  · refine ⟨fun key d' hd' => ?_, h.names⟩
    rw [AssocMap.get?_insert] at hd'
    split_ifs at hd' with hkey
    · obtain rfl := Option.some.inj hd'
      rw [← beq_iff_eq.mp hkey]
      exact ⟨hd, childOf_toStringLossy hpath⟩
    · exact h.row key d' hd'
  · exact h

lemma Listed.deleteFromDb (h : Listed fs) (faults : Faults) (call : DbCall) (path : PathBuf) :
    Listed (fs.deleteFromDb faults call path).2 := by
  rw [VectorFS.deleteFromDb]
  split
  · exact ⟨fun key d hd => h.row key d (AssocMap.get?_of_get?_erase hd), h.names⟩
  · exact h

lemma Listed.getDocument (h : Listed fs) {faults : Faults} {call : DbCall} {path : PathBuf}
    {d : Document V} (hd : fs.getDocument faults call path = .ok (some d)) : d.mode = 0o644 := by
  rw [VectorFS.getDocument] at hd
  cases hdb : db faults call "query by path" with
  | ok _ =>
    rw [hdb, Outcome.map_ok] at hd
    exact (h.row _ d (Outcome.ok.inj hd)).1
  | err _ =>
    rw [hdb] at hd
    cases hd
  | panic =>
    rw [hdb] at hd
    cases hd

/-! ### The operations -/

lemma Listed.create (h : Listed fs) (faults : Faults) {path : PathBuf}
    (hpath : ChildOf documents path) (now : DateTime) :
    Listed (fs.create e faults path now).2 := by
  rw [VectorFS.create]
  refine ite_keeps h ?_
  by_cases hdocument : isDocument path = true
  · rw [if_neg (not_not.mpr hdocument)]
    refine andThen_keeps h fun found _ => ite_keeps h ?_
    have hpersist := h.persistDocument faults hpath
      (d := ⟨[], e.contentToVector [], 0o644, timestampMillis now, timestampMillis now⟩) rfl
    refine andThen_keeps hpersist fun _ _ => hpersist.withMetadata ?_
    exact hpersist.names.insert BEq.rfl fun _ => hdocument
  · rw [if_pos hdocument]
    exact h

lemma Listed.write (h : Listed fs) (faults : Faults) {path : PathBuf}
    (hpath : ChildOf documents path) (data : Bytes) (offset : Int64) (flags : WriteFlags)
    (now : DateTime) : Listed (fs.write e faults path data offset flags now).2 := by
  rw [VectorFS.write]
  refine ite_keeps ?_ (ite_keeps h (ite_keeps h (andThen_keeps h fun found hfound => ?_)))
  · rw [VectorFS.writeQuery]
    refine ite_keeps h ?_
    split
    · exact h
    · have hnames (size : UInt64) :
          WellNamed (fs.metadata.modify path fun m => { m with size := size }) :=
        h.names.modify path fun _ => rfl
      exact ⟨h.row, hnames _⟩
  · cases found with
    | none => exact h
    | some d =>
      have hmode : d.mode = 0o644 := h.getDocument hfound
      refine andThen_keeps h fun vector _ => ?_
      have hpersist := h.persistDocument faults hpath
        (d := ⟨writeData d.data data offset flags, vector, d.mode, d.createdAt,
          timestampMillis now⟩) hmode
      refine andThen_keeps hpersist fun _ _ => ?_
      extract_lets fs'
      have hmeta : Listed fs' := hpersist.withMetadata (hpersist.names.modify path fun _ => rfl)
      exact andThen_keeps hmeta fun count _ =>
        hmeta.withMetadata (hmeta.names.modify _ fun _ => rfl)

lemma Listed.truncate (h : Listed fs) (faults : Faults) {path : PathBuf}
    (hpath : ChildOf documents path) (size : UInt64) (now : DateTime) :
    Listed (fs.truncate faults path size now).2 := by
  rw [VectorFS.truncate]
  refine ite_keeps h (ite_keeps h (andThen_keeps h fun found hfound => ?_))
  cases found with
  | none => exact h
  | some d =>
    have hmode : d.mode = 0o644 := h.getDocument hfound
    have hpersist := h.persistDocument faults hpath
      (d := ⟨resize d.data size.toNat, d.vector, d.mode, d.createdAt, timestampMillis now⟩) hmode
    exact andThen_keeps hpersist fun _ _ =>
      hpersist.withMetadata (hpersist.names.modify path fun _ => rfl)

lemma Listed.remove (h : Listed fs) (faults : Faults) (path : PathBuf) :
    Listed (fs.remove faults path).2 := by
  rw [VectorFS.remove]
  have hdelete := h.deleteFromDb faults (.delete 0) path
  have hsearch : Listed (fs.removeSearch path).2 := by
    rw [removeSearch]
    dsimp only
    split_ifs
    · exact h.withMetadata (h.names.erase path)
    · exact ⟨h.row, ((h.names.erase path).erase _).erase _⟩
  refine ite_keeps h (ite_keeps (andThen_keeps h fun found _ => ?_) (ite_keeps (ite_keeps h ?_) h))
  · refine ite_keeps (andThen_keeps hdelete fun _ _ => ?_) (h.of_eq rfl rfl)
    exact ⟨hdelete.row, hdelete.names.erase path⟩
  · generalize fs.removeSearch path = r at hsearch ⊢
    obtain ⟨_ | _, fs'⟩ := r <;> exact hsearch

lemma Listed.renameRow (h : Listed fs) (faults : Faults) (oldPath : PathBuf) {newPath : PathBuf}
    (hpath : ChildOf documents newPath) (hdocument : isDocument newPath = true) (now : DateTime) :
    Listed (fs.renameRow faults oldPath newPath now).2 := by
  rw [VectorFS.renameRow]
  refine andThen_keeps h fun found hfound => ?_
  cases found with
  | none => exact h
  | some d =>
    have hmode : d.mode = 0o644 := h.getDocument hfound
    refine andThen_keeps h fun target _ => ?_
    have htarget : Listed (if target.isSome then fs.deleteFromDb faults .deleteNew newPath
        else (.ok (), fs)).2 := ite_keeps (h.deleteFromDb faults .deleteNew newPath) h
    refine andThen_keeps htarget fun _ _ => ?_
    have hdelete := htarget.deleteFromDb faults (.delete 0) oldPath
    refine andThen_keeps hdelete fun _ _ => ?_
    have hpersist := hdelete.persistDocument faults hpath
      (d := ⟨d.data, d.vector, d.mode, d.createdAt, timestampMillis now⟩) hmode
    refine andThen_keeps hpersist fun _ _ => hpersist.withMetadata ?_
    exact (hpersist.names.erase oldPath).insert BEq.rfl fun _ => hdocument

/-- A path right below the directory is none of a search. -/
lemma startsWith_search_of_childOf {path : PathBuf} (h : ChildOf documents path) :
    startsWith path.toStringLossy "/search/" = false := by
  obtain ⟨c, -, hcomps⟩ := MemFs.childOf_iff.mp (childOf_toStringLossy h)
  rw [Bool.eq_false_iff, startsWith, Ne, List.isPrefixOf_iff_prefix]
  rintro ⟨t, ht⟩
  have hsplit : (ascii "search" ++ slash :: t).splitOn slash = ascii "search" :: t.splitOn slash :=
    List.splitOn_append_cons_self_of_not_mem (by decide) t
  have hbytes : ascii "/search/" ++ t = slash :: (ascii "search" ++ slash :: t) := rfl
  have hparse : Component.parse (ascii "search") = some (.normal (ascii "search")) := by decide
  have hdocuments : documents.components = [.rootDir, .normal (ascii "documents")] := by decide
  rw [← ht, hbytes, PathBuf.components_cons_slash, hsplit, List.filterMap_cons_some hparse,
    hdocuments] at hcomps
  exact absurd (Component.normal.inj (List.cons.inj (List.cons.inj hcomps).2).1) (by decide)

lemma Listed.rename (h : Listed fs) (faults : Faults) {oldPath newPath : PathBuf}
    (hold : ChildOf documents oldPath) (hnew : ChildOf documents newPath) (now : DateTime) :
    Listed (fs.rename faults oldPath newPath now).2 := by
  rw [VectorFS.rename]
  dsimp only
  split_ifs with hindex hdocuments hsame hsearch hsame
  · exact h
  · exact h
  · have hrow := h.renameRow faults oldPath hnew hdocuments.2 now
    generalize fs.renameRow faults oldPath newPath now = r at hrow ⊢
    obtain ⟨x, fs'⟩ := r
    cases x with
    | ok _ =>
      dsimp only
      split_ifs
      · exact hrow.of_eq rfl rfl
      · exact hrow
    | err _ => exact hrow
    | panic => exact hrow
  · exact h
  · rw [startsWith_search_of_childOf hold] at hsearch
    exact absurd hsearch.1 Bool.false_ne_true
  · exact h

lemma listed_of_reachable {dimension : ℕ} {start : DateTime}
    (h : Reachable (documentStep e) (new dimension start) fs) : Listed fs := by
  refine h.invariant (listed_new dimension start) fun s op s' hs hstep => ?_
  rw [documentStep] at hstep
  split_ifs at hstep with hop
  obtain rfl := Option.some.inj hstep
  cases op with
  | create faults path now => exact hs.create faults hop now
  | write faults path data offset flags now => exact hs.write faults hop data offset flags now
  | truncate faults path size now => exact hs.truncate faults hop size now
  | remove faults path => exact hs.remove faults path
  | rename faults oldPath newPath now => exact hs.rename faults hop.1 hop.2 now
  | _ => exact hop.elim

/-! ### The two entries of a document -/

lemma childOf_congr {p q : PathBuf} (hpq : (p == q) = true) (h : ChildOf documents q) :
    ChildOf documents p := by
  obtain ⟨c, hc, hcomps⟩ := MemFs.childOf_iff.mp h
  exact MemFs.childOf_iff.mpr ⟨c, hc, (PathBuf.beq_iff.mp hpq).trans hcomps⟩

/-- The metadata of a document are listed. -/
lemma Listed.mem_metadataEntries (h : Listed fs) {p : PathBuf} (hp : ChildOf documents p)
    {m : FileMetadata} (hm : fs.metadata.get? p = some m) :
    m ∈ fs.metadataEntries (ascii "/documents") := by
  obtain ⟨q, hq, hqp⟩ := AssocMap.mem_of_get? hm
  have hchild := childOf_congr hqp hp
  have hdocument := h.names.key q (List.mem_map.mpr ⟨(q, m), hq, rfl⟩) hchild
  rw [isDocument, startsWith, List.isPrefixOf_iff_prefix] at hdocument
  have hbelow : (ascii "/documents").isPrefixOf q.toStringLossy = true ∧
      (q.toStringLossy != ascii "/documents") = true := by
    rw [List.isPrefixOf_iff_prefix, bne_iff_ne]
    refine ⟨List.IsPrefix.trans (by decide) hdocument, fun heq => ?_⟩
    rw [heq] at hdocument
    exact absurd hdocument (by decide)
  have hstarts : q.startsWith ⟨ascii "/documents"⟩ = true := by
    obtain ⟨c, -, hcomps⟩ := MemFs.childOf_iff.mp hchild
    exact PathBuf.startsWith_iff.mpr ⟨[c], hcomps.symm⟩
  obtain ⟨hslash, hone⟩ := (MemFs.oneName_relative_iff (by decide) hstarts).mpr hchild
  rw [MemFs.relative] at hslash hone
  rw [metadataEntries, List.mem_filterMap]
  refine ⟨(q, m), List.mem_filter.mpr ⟨hq, ?_⟩, ?_⟩
  · rw [if_neg (by decide), Bool.and_eq_true]
    exact hbelow
  · simp only
    rw [if_neg (c := ascii "/documents" = [slash]) (by decide), if_neg hslash, if_pos hone]

/-- Without metadata `stat` has only the row to look at. -/
lemma Listed.mode_of_stat (h : Listed fs) {p : PathBuf} (hnone : fs.metadata.get? p = none)
    {m : FileMetadata} (hstat : fs.stat noFaults p = .ok m) : m.mode = 0o644 := by
  rw [VectorFS.stat] at hstat
  simp only [hnone, ite_self] at hstat
  split_ifs at hstat with hcount hstatus hdocument
  · nomatch hstat
  · cases hget : fs.getDocument noFaults .get p with
    | ok found =>
      rw [hget, Outcome.ok_bind] at hstat
      cases found with
      | none => nomatch hstat
      | some d =>
        obtain rfl := Outcome.ok.inj hstat
        exact h.getDocument hget
    | err _ =>
      rw [hget] at hstat
      nomatch hstat
    | panic =>
      rw [hget] at hstat
      nomatch hstat

/-- The entry for a row. -/
lemma readDir_documents (fs : VectorFS V) (now : DateTime) :
    fs.readDir noFaults documents now =
      .ok (fs.metadataEntries (ascii "/documents") ++
        ((fs.table.keys.map PathBuf.mk).filter fun p => p.parent.any (· == documents)).map
          fun p => .file p 0 now) := by
  have htext : documents.toStringLossy = ascii "/documents" := by decide
  rw [VectorFS.readDir, htext]
  simp only
  rw [if_pos trivial, listDocumentPaths, db, noFaults, Outcome.map_ok, Outcome.map_ok]

/-- The listing does not agree if there is a row. -/
lemma Listed.not_agrees (h : Listed fs) {key : Bytes} (hkey : fs.table.contains key = true)
    (now : DateTime) : ¬ Agrees fs now := by
  rintro ⟨entries, hentries, hagrees⟩
  obtain ⟨d, hd⟩ := AssocMap.contains_iff.mp hkey
  have hchild := (h.row key d hd).2
  obtain ⟨honce, hsame⟩ := hagrees key hkey hchild
  rw [readDir_documents] at hentries
  obtain rfl := Outcome.ok.inj hentries
  have hrow : FileMetadata.file ⟨key⟩ 0 now ∈
      ((fs.table.keys.map PathBuf.mk).filter fun p => p.parent.any (· == documents)).map
        fun p => .file p 0 now := by
    refine List.mem_map_of_mem (List.mem_filter.mpr ⟨?_, ?_⟩)
    · exact List.mem_map_of_mem (AssocMap.mem_keys.mpr ⟨d, hd⟩)
    · obtain ⟨q, hq, hqd⟩ := hchild
      rw [hq]
      exact hqd
  cases hmeta : fs.metadata.get? ⟨key⟩ with
  | some m =>
    -- the document is listed twice
    rw [List.countP_append] at honce
    have hfirst := List.countP_pos_iff (p := fun m => m.path == ⟨key⟩).mpr
      ⟨m, h.mem_metadataEntries hchild hmeta, h.names.path _ m hmeta⟩
    have hsecond := List.countP_pos_iff (p := fun m => m.path == ⟨key⟩).mpr
      ⟨_, hrow, BEq.rfl⟩
    omega
  | none =>
    obtain ⟨m', hstat, htype, -⟩ := hsame _ (List.mem_append_right _ hrow) BEq.rfl
    have hmode : (FileMetadata.file ⟨key⟩ 0 now).mode = FileMetadata.fileMode := rfl
    rw [h.mode_of_stat hmeta hstat, hmode] at htype
    exact absurd htype (by decide)

/-- **Listing and `stat`.**  In the states that operations on documents lead to they agree if and
only if there is no document. -/
theorem documents_agree_iff {dimension : ℕ} {start : DateTime}
    (h : Reachable (documentStep e) (new dimension start) fs) (now : DateTime) :
    Agrees fs now ↔ ∀ key, fs.table.contains key = false := by
  constructor
  · intro hagrees key
    rw [← Bool.not_eq_true]
    exact fun hkey => (listed_of_reachable h).not_agrees hkey now hagrees
  · intro hnone
    refine ⟨_, readDir_documents fs now, fun key hkey => ?_⟩
    rw [hnone key] at hkey
    nomatch hkey

/-- A new document. -/
def createA : Op := .create noFaults ⟨ascii "/documents/a"⟩ 0

/-- The state after it has been created. -/
def createdA : VectorFS Bytes := (new 1 0).exec plainEmbedding createA

lemma reachable_createdA : Reachable (documentStep plainEmbedding) (new 1 0) createdA := by
  refine ⟨[createA], ?_⟩
  rw [run, documentStep, if_pos (by decide)]
  rfl

theorem documents_agree_iff_createdA :
    Agrees createdA 0 ↔ ∀ key, createdA.table.contains key = false :=
  documents_agree_iff reachable_createdA 0

/-- It is listed twice, each time as a regular file, and `stat` returns no type. -/
theorem not_agrees_createdA :
    (∃ entries, createdA.readDir noFaults documents 0 = .ok entries ∧
      entries.map (fun m => (m.path.bytes, m.mode &&& S_IFMT)) =
        [(ascii "/documents/a", S_IFREG), (ascii "/documents/a", S_IFREG)]) ∧
    (∃ m, createdA.stat noFaults ⟨ascii "/documents/a"⟩ = .ok m ∧ m.mode &&& S_IFMT = 0) ∧
    ¬ Agrees createdA 0 := by
  have hkey : createdA.table.contains (ascii "/documents/a") = true := by decide +kernel
  have hmode : ((createdA.stat noFaults ⟨ascii "/documents/a"⟩).bind fun m =>
      if m.mode &&& S_IFMT = 0 then .ok () else .panic).isOk = true := by decide +kernel
  refine ⟨⟨_, readDir_documents createdA 0, by decide +kernel⟩, ?_,
    (listed_of_reachable reachable_createdA).not_agrees hkey 0⟩
  cases hstat : createdA.stat noFaults ⟨ascii "/documents/a"⟩ with
  | ok m =>
    rw [hstat, Outcome.ok_bind] at hmode
    split_ifs at hmode with hzero
    · exact ⟨m, rfl, hzero⟩
    · cases hmode
  | err _ =>
    rw [hstat] at hmode
    cases hmode
  | panic =>
    rw [hstat] at hmode
    cases hmode

end Racfs.VectorFs
