/-
# The vector filesystem

`VectorFS` (`racfs-plugin-vectorfs/src/fs`) keeps documents as rows of a LanceDB table, each with
the vector by which searches find it, and the metadata of all paths, the queries of searches and
extended attributes in three maps of its own.

The table is a map from the texts of paths to rows.  A row is looked up by a predicate, which is a
string literal of SQL and so goes through an escape function (`sqlLiteral`); `merge_insert` takes
the text as it is.  A call to the database may fail (`Faults`).  Vectors are of any type: the
function from contents to vectors, the embedding service and the parser of the attribute
`racfs.vector` are parameters.

An operation returns nothing if it waits for a lock forever; `rename` is the only one that does.
-/
import Racfs.StreamFs.Model

namespace Racfs.VectorFs

open StreamFs (trimEndMatches)

/-- A row of the table. -/
structure Document (V : Type*) where
  data : Bytes
  vector : V
  mode : UInt32
  createdAt : Int64
  modifiedAt : Int64

/-- Where vectors come from. -/
structure Embedding (V : Type*) where
  contentToVector : Bytes → V
  /-- The embedding service, if one is set. -/
  api : Option (Bytes → Except String V)
  /-- A vector of the right dimension as JSON. -/
  parseVectorXattr : Bytes → Option V

/-- The table and the three maps. -/
structure VectorFS (V : Type*) where
  table : AssocMap Bytes (Document V)
  metadata : AssocMap PathBuf FileMetadata
  searchQueries : AssocMap Bytes Bytes
  /-- From paths to names to values. -/
  xattrs : AssocMap PathBuf (AssocMap Bytes Bytes)

/-- An embedding by the content itself. -/
def plainEmbedding : Embedding Bytes := ⟨id, none, fun _ => none⟩

/-- The calls to the database that an operation makes. -/
inductive DbCall
  | get
  | getNew
  | deleteNew
  | delete (i : ℕ)
  | persist
  | count
  | list

/-- The errors of the calls that fail. -/
abbrev Faults := DbCall → Option String

/-- The names of the attribute. -/
def vectorXattr : Bytes := ascii "racfs.vector"

/-- `str::trim_start_matches`. -/
def trimStartMatches (pattern s : Bytes) : Bytes := dropPieces [pattern] s.length s

/-- Whether a text begins with another one. -/
def startsWith (s : Bytes) (pattern : String) : Bool := (ascii pattern).isPrefixOf s

/-- A text for a string literal. -/
def escapeSqlString (s : Bytes) : Bytes :=
  s.flatMap fun b => if b = 92 then [92, 92] else if b = 39 then [39, 39] else [b]

/-- The value of a string literal: a doubled quote stands for one quote. -/
def sqlLiteral : Bytes → Bytes
  | 39 :: 39 :: s => 39 :: sqlLiteral s
  | b :: s => b :: sqlLiteral s
  | [] => []

/-- The row that the predicate for a path is true of. -/
def rowKey (text : Bytes) : Bytes := sqlLiteral (escapeSqlString text)

/-- Unix time in milliseconds. -/
def timestampMillis (t : DateTime) : Int64 := Int64.ofInt (t / 1000000)

/-- The time for a number of milliseconds that a clock has shown. -/
def fromTimestampMillis (t : Int64) : DateTime := t.toInt * 1000000

/-- The result of a call to the database. -/
def db (faults : Faults) (call : DbCall) (what : String) : Outcome Unit :=
  match faults call with
  | none => .ok ()
  | some e => .err (.Io ("LanceDB " ++ what ++ ": " ++ e))

variable {V : Type*}

/-- The vector for a content. -/
def Embedding.embedContent (e : Embedding V) (content : Bytes) : Outcome V :=
  match e.api with
  | none => .ok (e.contentToVector content)
  | some request =>
    if isUtf8 content then
      match request content with
      | .ok v => .ok v
      | .error message => .err (.InvalidInput message)
    else .err (.InvalidInput "Content must be valid UTF-8 when using embedding API")

namespace VectorFS

/-- Go on with the value of a call, in the state that it leaves. -/
def andThen {A B : Type*} (r : Outcome A × VectorFS V)
    (f : A → VectorFS V → Outcome B × VectorFS V) : Outcome B × VectorFS V :=
  match r with
  | (.ok a, fs) => f a fs
  | (.err e, fs) => (.err e, fs)
  | (.panic, fs) => (.panic, fs)

/-- Whether a path is one of the files that are not documents. -/
def isVirtualPath (path : PathBuf) : Bool :=
  startsWith path.toStringLossy "/index/" || startsWith path.toStringLossy "/search/"

/-- Whether a path is that of a document. -/
def isDocument (path : PathBuf) : Bool := startsWith path.toStringLossy "/documents/"

/-- The row of a document. -/
def getDocument (faults : Faults) (call : DbCall) (fs : VectorFS V) (path : PathBuf) :
    Outcome (Option (Document V)) :=
  (db faults call "query by path").map fun _ => fs.table.get? (rowKey path.toStringLossy)

/-- Insert or replace the row of a document. -/
def persistDocument (faults : Faults) (fs : VectorFS V) (path : PathBuf) (d : Document V) :
    Outcome Unit × VectorFS V :=
  match db faults .persist "merge_insert" with
  | .ok () => (.ok (), { fs with table := fs.table.insert path.toStringLossy d })
  | r => (r, fs)

/-- Delete the row of a document. -/
def deleteFromDb (faults : Faults) (call : DbCall) (fs : VectorFS V) (path : PathBuf) :
    Outcome Unit × VectorFS V :=
  match db faults call "delete" with
  | .ok () => (.ok (), { fs with table := fs.table.erase (rowKey path.toStringLossy) })
  | r => (r, fs)

/-- The number of rows. -/
def documentCount (faults : Faults) (fs : VectorFS V) : Outcome ℕ :=
  (db faults .count "count_rows").map fun _ => fs.table.size

/-- The paths of the rows. -/
def listDocumentPaths (faults : Faults) (fs : VectorFS V) : Outcome (List PathBuf) :=
  (db faults .list "list paths").map fun _ => fs.table.keys.map PathBuf.mk

/-- Change the metadata of a path, if there are any. -/
def updateMetadata (fs : VectorFS V) (path : PathBuf) (f : FileMetadata → FileMetadata) :
    VectorFS V :=
  { fs with metadata := fs.metadata.modify path f }

/-- The vector for the new content of a document: that of its attribute, if there is one and it is
a vector. -/
def vectorFor (e : Embedding V) (fs : VectorFS V) (path : PathBuf) (content : Bytes) : Outcome V :=
  match (fs.xattrs.get? path).bind fun attrs => attrs.get? vectorXattr with
  | some value =>
    match e.parseVectorXattr value with
    | some v => .ok v
    | none => e.embedContent content
  | none => e.embedContent content

/-! ### Documents -/

/-- Create an empty document. -/
def create (e : Embedding V) (faults : Faults) (fs : VectorFS V) (path : PathBuf)
    (now : DateTime) : Outcome Reply × VectorFS V :=
  if isVirtualPath path then (.err (.PermissionDenied path), fs)
  else if ¬ isDocument path then
    (.err (.NotSupported "Can only create files in /documents/"), fs)
  else
    andThen (fs.getDocument faults .get path, fs) fun found fs =>
      if found.isSome then (.err (.AlreadyExists path), fs)
      else
        let t := timestampMillis now
        andThen (fs.persistDocument faults path ⟨[], e.contentToVector [], 0o644, t, t⟩)
          fun _ fs =>
            (.ok .unit, { fs with metadata := fs.metadata.insert path (.file path 0 now) })

/-- The content of a query after a write. -/
def queryData (old data : Bytes) (offset : Int64) (flags : WriteFlags) : Bytes :=
  if offset ≤ 0 ∧ flags.containsAppend = false then data
  else if flags.containsAppend ∨ offset.toUInt64.toNat ≥ old.length then old ++ data
  else
    let start := offset.toUInt64.toNat
    let stop := start + data.length
    copyFromSlice (if stop > old.length then resize old stop else old) start data

/-- The content of a document after a write.  The flag for truncation is not one of those that
there are, so nothing is left of it, and every write that does not append replaces the content. -/
def writeData (old data : Bytes) (offset : Int64) (flags : WriteFlags) : Bytes :=
  if flags.containsAppend ∨ offset.toUInt64.toNat ≥ old.length then
    let start := (max offset 0).toUInt64.toNat
    (if start > old.length then resize old start else old) ++ data
  else if offset ≤ 0 ∨ flags.contains (.fromBitsTruncate 0x0020) then data
  else
    let start := offset.toUInt64.toNat
    let padded := if start > old.length then resize old start else old
    let stop := start + data.length
    copyFromSlice (if stop > padded.length then resize padded stop else padded) start data

/-- The name of a search, from the path of its query. -/
def queryId (text : Bytes) : Bytes :=
  trimEndMatches (ascii "/") (trimEndMatches (ascii "/query.txt")
    (trimStartMatches (ascii "/search/") text))

/-- Write the query of a search. -/
def writeQuery (fs : VectorFS V) (path : PathBuf) (data : Bytes) (offset : Int64)
    (flags : WriteFlags) : Outcome Reply × VectorFS V :=
  let id := queryId path.toStringLossy
  if id = [] ∨ slash ∈ id then (.err (.PermissionDenied path), fs)
  else
    match fs.searchQueries.get? id with
    | none => (.err (.NotFound path), fs)
    | some stored =>
      let new := queryData stored data offset flags
      let fs := { fs with searchQueries := fs.searchQueries.modify id fun _ => new }
      (.ok (.written data.length.toUInt64),
        fs.updateMetadata path fun m => { m with size := new.length.toUInt64 })

/-- Write to a document or to the query of a search. -/
def write (e : Embedding V) (faults : Faults) (fs : VectorFS V) (path : PathBuf) (data : Bytes)
    (offset : Int64) (flags : WriteFlags) (now : DateTime) : Outcome Reply × VectorFS V :=
  let text := path.toStringLossy
  if ascii "/search/" <:+: text ∧ ascii "/query.txt" <:+ text then
    fs.writeQuery path data offset flags
  else if isVirtualPath path then (.err (.PermissionDenied path), fs)
  else if ¬ isDocument path then
    (.err (.NotSupported "Can only write to files in /documents/"), fs)
  else
    andThen (fs.getDocument faults .get path, fs) fun found fs =>
      match found with
      | none => (.err (.NotFound path), fs)
      | some d =>
        let new := writeData d.data data offset flags
        andThen (fs.vectorFor e path new, fs) fun vector fs =>
          let t := timestampMillis now
          andThen (fs.persistDocument faults path ⟨new, vector, d.mode, d.createdAt, t⟩)
            fun _ fs =>
              let fs := fs.updateMetadata path fun m =>
                { m with size := new.length.toUInt64, modified := some (fromTimestampMillis t) }
              andThen (fs.documentCount faults, fs) fun count fs =>
                (.ok (.written data.length.toUInt64), fs.updateMetadata ⟨ascii "/index/count"⟩
                  fun m => { m with size := count.toUInt64 })

/-- Set the length of a document. -/
def truncate (faults : Faults) (fs : VectorFS V) (path : PathBuf) (size : UInt64)
    (now : DateTime) : Outcome Reply × VectorFS V :=
  if isVirtualPath path then (.err (.PermissionDenied path), fs)
  else if ¬ isDocument path then
    (.err (.NotSupported "Can only truncate files in /documents/"), fs)
  else
    andThen (fs.getDocument faults .get path, fs) fun found fs =>
      match found with
      | none => (.err (.NotFound path), fs)
      | some d =>
        let t := timestampMillis now
        -- the vector is the one that was read
        andThen (fs.persistDocument faults path
          ⟨resize d.data size.toNat, d.vector, d.mode, d.createdAt, t⟩) fun _ fs =>
            (.ok .unit, fs.updateMetadata path fun m =>
              { m with size := size, modified := some (fromTimestampMillis t) })

/-- Set the times of a document, or create an empty one. -/
def touch (e : Embedding V) (faults : Faults) (fs : VectorFS V) (path : PathBuf)
    (now : DateTime) : Outcome Reply × VectorFS V :=
  if isVirtualPath path ∧ startsWith path.toStringLossy "/index/" then
    (.err (.PermissionDenied path), fs)
  else if ¬ isDocument path then
    (.err (.NotSupported "Can only touch files in /documents/"), fs)
  else
    andThen (fs.getDocument faults .get path, fs) fun found fs =>
      match found with
      | some d =>
        let t := timestampMillis now
        andThen (fs.persistDocument faults path ⟨d.data, d.vector, d.mode, d.createdAt, t⟩)
          fun _ fs =>
            let time := some (fromTimestampMillis t)
            (.ok .unit, fs.updateMetadata path fun m =>
              { m with accessed := time, modified := time })
      | none =>
        andThen (fs.create e faults path now) fun _ fs =>
          (.ok .unit, fs.updateMetadata path fun m =>
            { m with accessed := some now, modified := some now })

/-- Set the permission bits. -/
def chmod (faults : Faults) (fs : VectorFS V) (path : PathBuf) (mode : UInt32) (now : DateTime) :
    Outcome Reply × VectorFS V :=
  if isVirtualPath path ∧ startsWith path.toStringLossy "/index/" then
    (.err (.PermissionDenied path), fs)
  else if fs.metadata.contains path = false then (.err (.NotFound path), fs)
  else
    let set := fun fs : VectorFS V => fs.updateMetadata path fun m =>
      { m.setPermissions mode with modified := some now }
    let fs := set fs
    if isDocument path then
      andThen (fs.getDocument faults .get path, fs) fun found fs =>
        match found with
        | some d =>
          andThen (fs.persistDocument faults path
            ⟨d.data, d.vector, mode, d.createdAt, timestampMillis now⟩)
              fun _ fs => (.ok .unit, set fs)
        | none => (.ok .unit, set fs)
    else (.ok .unit, set fs)

/-! ### Directories -/

/-- The name of a search, from its own path. -/
def searchId (text : Bytes) : Bytes :=
  trimEndMatches (ascii "/") (trimStartMatches (ascii "/search/") text)

/-- Create a search. -/
def mkdir (fs : VectorFS V) (path : PathBuf) (now : DateTime) : Outcome Reply × VectorFS V :=
  if startsWith path.toStringLossy "/search/" = false then
    (.err (.NotSupported "Can only create directories under /search/"), fs)
  else if fs.metadata.contains path then (.err (.AlreadyExists path), fs)
  else
    let queryPath := path.push ⟨ascii "query.txt"⟩
    let matchesPath := path.push ⟨ascii "matches.txt"⟩
    let metadata := ((fs.metadata.insert path (.directory path now)).insert queryPath
      (.file queryPath 0 now)).insert matchesPath (.file matchesPath 0 now)
    let id := searchId path.toStringLossy
    (.ok .unit,
      { fs with
        metadata
        searchQueries :=
          if id ≠ [] ∧ slash ∉ id then fs.searchQueries.insert id [] else fs.searchQueries })

/-- Remove what belongs to a search; whether there was anything. -/
def removeSearch (fs : VectorFS V) (path : PathBuf) : Bool × VectorFS V :=
  let metadata := fs.metadata.erase path
  let id := searchId path.toStringLossy
  (fs.metadata.contains path,
    if id = [] then { fs with metadata }
    else
      { fs with
        metadata := (metadata.erase (path.push ⟨ascii "query.txt"⟩)).erase
          (path.push ⟨ascii "matches.txt"⟩)
        searchQueries := fs.searchQueries.erase id })

/-- Remove a document or a search. -/
def remove (faults : Faults) (fs : VectorFS V) (path : PathBuf) : Outcome Reply × VectorFS V :=
  if isVirtualPath path ∧ startsWith path.toStringLossy "/index/" then
    (.err (.PermissionDenied path), fs)
  else if isDocument path then
    andThen (fs.getDocument faults .get path, fs) fun found fs =>
      let dropXattrs := fun fs : VectorFS V => { fs with xattrs := fs.xattrs.erase path }
      if found.isSome then
        andThen (fs.deleteFromDb faults (.delete 0) path) fun _ fs =>
          let fs := dropXattrs fs
          (.ok .unit, { fs with metadata := fs.metadata.erase path })
      else (.err (.NotFound path), dropXattrs fs)
  else if startsWith path.toStringLossy "/search/" then
    if fs.metadata.keys.any fun p => p != path && p.startsWith path then
      (.err .DirectoryNotEmpty, fs)
    else
      match fs.removeSearch path with
      | (true, fs) => (.ok .unit, fs)
      | (false, fs) => (.err (.NotFound path), fs)
  else (.err (.NotFound path), fs)

/-- Remove documents one after the other. -/
def removeDocuments (faults : Faults) : ℕ → List PathBuf → VectorFS V → Outcome Unit × VectorFS V
  | _, [], fs => (.ok (), fs)
  | i, p :: ps, fs =>
    andThen (fs.deleteFromDb faults (.delete i) p) fun _ fs =>
      removeDocuments faults (i + 1) ps
        { fs with metadata := fs.metadata.erase p, xattrs := fs.xattrs.erase p }

/-- Remove a path and what is below it. -/
def removeAll (faults : Faults) (fs : VectorFS V) (path : PathBuf) : Outcome Reply × VectorFS V :=
  if isVirtualPath path ∧ startsWith path.toStringLossy "/index/" then
    (.err (.PermissionDenied path), fs)
  else if isDocument path then
    let hadMeta := fs.metadata.contains path
    andThen (fs.listDocumentPaths faults, fs) fun paths fs =>
      let toRemove := paths.filter fun p => p.startsWith path
      andThen (removeDocuments faults 0 toRemove fs) fun _ fs =>
        let fs := { fs with metadata := fs.metadata.erase path }
        if toRemove = [] ∧ hadMeta = false then (.err (.NotFound path), fs) else (.ok .unit, fs)
  else if fs.metadata.contains path = false then (.err (.NotFound path), fs)
  else
    (.ok .unit,
      { fs with metadata := fs.metadata.retain fun p _ => !p.startsWith path || p == path })

/-- Move the row of a document and its metadata. -/
def renameRow (faults : Faults) (fs : VectorFS V) (oldPath newPath : PathBuf) (now : DateTime) :
    Outcome Unit × VectorFS V :=
  andThen (fs.getDocument faults .get oldPath, fs) fun found fs =>
    match found with
    | none => (.err (.NotFound oldPath), fs)
    | some d =>
      andThen (fs.getDocument faults .getNew newPath, fs) fun target fs =>
        andThen (if target.isSome then fs.deleteFromDb faults .deleteNew newPath else (.ok (), fs))
          fun _ fs =>
            andThen (fs.deleteFromDb faults (.delete 0) oldPath) fun _ fs =>
              let t := timestampMillis now
              andThen (fs.persistDocument faults newPath
                ⟨d.data, d.vector, d.mode, d.createdAt, t⟩) fun _ fs =>
                  let time := some (fromTimestampMillis t)
                  let m : FileMetadata :=
                    { FileMetadata.file newPath d.data.length.toUInt64 now with
                      mode := d.mode
                      created := some (fromTimestampMillis d.createdAt)
                      modified := time
                      accessed := time }
                  (.ok (), { fs with metadata := (fs.metadata.erase oldPath).insert newPath m })

/-- Rename a search. -/
def renameSearch (fs : VectorFS V) (oldPath newPath : PathBuf) : Outcome Reply × VectorFS V :=
  match fs.metadata.get? oldPath with
  | none => (.err (.NotFound oldPath), fs)
  | some m =>
    let text := newPath.toStringLossy
    let newPrefix := if text.getLast? = some slash then text else text ++ [slash]
    if fs.metadata.keys.any fun p =>
        newPrefix.isPrefixOf p.toStringLossy && p.toStringLossy != newPrefix then
      (.err .DirectoryNotEmpty, fs)
    else
      (.ok .unit,
        { fs with
          metadata := (fs.metadata.erase oldPath).insert newPath { m with path := newPath } })

/-- Rename a document or a search.  The attributes of a document are taken out under a lock that
is still held when they are to be put back, so if there are any the call does not return. -/
def rename (faults : Faults) (fs : VectorFS V) (oldPath newPath : PathBuf) (now : DateTime) :
    Option (Outcome Reply) × VectorFS V :=
  let oldText := oldPath.toStringLossy
  let newText := newPath.toStringLossy
  if startsWith oldText "/index/" ∨ startsWith newText "/index/" then
    (some (.err (.PermissionDenied oldPath)), fs)
  else if isDocument oldPath ∧ isDocument newPath then
    if oldPath == newPath then (some (.ok .unit), fs)
    else
      match fs.renameRow faults oldPath newPath now with
      | (.ok (), fs) =>
        if fs.xattrs.contains oldPath then (none, { fs with xattrs := fs.xattrs.erase oldPath })
        else (some (.ok .unit), fs)
      | (.err e, fs) => (some (.err e), fs)
      | (.panic, fs) => (some .panic, fs)
  else if startsWith oldText "/search/" ∧ startsWith newText "/search/" then
    if oldPath == newPath then (some (.ok .unit), fs)
    else
      let r := fs.renameSearch oldPath newPath
      (some r.1, r.2)
  else (some (.err (.NotSupported "rename only supported within /documents/ or within /search/")),
    fs)

/-! ### Extended attributes -/

/-- The error for an attribute that is not there. -/
def xattrNotFound : FSError := .InvalidInput "extended attribute not found"

/-- Go on with an existing document. -/
def onDocument (faults : Faults) (fs : VectorFS V) (path : PathBuf)
    (f : VectorFS V → Outcome Reply × VectorFS V) : Outcome Reply × VectorFS V :=
  if ¬ isDocument path then (.err (.NotSupported "xattr only supported on document paths"), fs)
  else
    andThen (fs.getDocument faults .get path, fs) fun found fs =>
      if found.isSome then f fs else (.err (.NotFound path), fs)

/-- Set an extended attribute. -/
def setXattr (faults : Faults) (fs : VectorFS V) (path : PathBuf) (name value : Bytes) :
    Outcome Reply × VectorFS V :=
  fs.onDocument faults path fun fs =>
    let attrs := ((fs.xattrs.get? path).getD ∅).insert name value
    (.ok .unit, { fs with xattrs := fs.xattrs.insert path attrs })

/-- Remove an extended attribute.  The map of a path stays when it gets empty. -/
def removeXattr (faults : Faults) (fs : VectorFS V) (path : PathBuf) (name : Bytes) :
    Outcome Reply × VectorFS V :=
  fs.onDocument faults path fun fs =>
    match fs.xattrs.get? path with
    | none => (.err xattrNotFound, fs)
    | some attrs =>
      if attrs.contains name then
        (.ok .unit, { fs with xattrs := fs.xattrs.modify path fun attrs => attrs.erase name })
      else (.err xattrNotFound, fs)

end VectorFS

/-- An operation that may change the state, with the faults of the database. -/
inductive Op
  | create (faults : Faults) (path : PathBuf) (now : DateTime)
  | write (faults : Faults) (path : PathBuf) (data : Bytes) (offset : Int64) (flags : WriteFlags)
      (now : DateTime)
  | truncate (faults : Faults) (path : PathBuf) (size : UInt64) (now : DateTime)
  | touch (faults : Faults) (path : PathBuf) (now : DateTime)
  | chmod (faults : Faults) (path : PathBuf) (mode : UInt32) (now : DateTime)
  | mkdir (path : PathBuf) (now : DateTime)
  | remove (faults : Faults) (path : PathBuf)
  | removeAll (faults : Faults) (path : PathBuf)
  | rename (faults : Faults) (oldPath newPath : PathBuf) (now : DateTime)
  | setXattr (faults : Faults) (path : PathBuf) (name value : Bytes)
  | removeXattr (faults : Faults) (path : PathBuf) (name : Bytes)

/-- The state after an operation. -/
def VectorFS.exec (e : Embedding V) (fs : VectorFS V) : Op → VectorFS V
  | .create faults path now => (fs.create e faults path now).2
  | .write faults path data offset flags now => (fs.write e faults path data offset flags now).2
  | .truncate faults path size now => (fs.truncate faults path size now).2
  | .touch faults path now => (fs.touch e faults path now).2
  | .chmod faults path mode now => (fs.chmod faults path mode now).2
  | .mkdir path now => (fs.mkdir path now).2
  | .remove faults path => (fs.remove faults path).2
  | .removeAll faults path => (fs.removeAll faults path).2
  | .rename faults oldPath newPath now => (fs.rename faults oldPath newPath now).2
  | .setXattr faults path name value => (fs.setXattr faults path name value).2
  | .removeXattr faults path name => (fs.removeXattr faults path name).2

/-- A filesystem with an empty table; the sizes of the files that say what the index is are those
of their texts. -/
def VectorFS.new (dimension : ℕ) (now : DateTime) : VectorFS V where
  table := ∅
  metadata :=
    let directory (m : AssocMap PathBuf FileMetadata) (path : String) :=
      m.insert ⟨ascii path⟩ (.directory ⟨ascii path⟩ now)
    let file (m : AssocMap PathBuf FileMetadata) (path : String) (size : ℕ) :=
      m.insert ⟨ascii path⟩ (.file ⟨ascii path⟩ size.toUInt64 now)
    let m := directory (directory (directory ∅ "/") "/documents") "/index"
    let m := file (file (file m "/index/count" 0) "/index/dimension"
      (ascii (toString dimension)).length) "/index/status" 5
    directory m "/search"
  searchQueries := ∅
  xattrs := ∅

end Racfs.VectorFs
