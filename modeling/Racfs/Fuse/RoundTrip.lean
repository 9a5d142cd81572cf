/-
# A file written through the buffer and read back

What the FUSE client does with the bytes of a file: `flush_write_back`
(`racfs-fuse/src/async_fs.rs`) turns each run of buffered writes into a text and sends it, and
`read_async` asks for the file and turns the text that it gets into bytes.  The calls here run
one after the other.

The bytes that come back are never those that were written (`roundTrip_ne`): the server sends
the content of a file as a JSON string, and the client takes the body of the response as the
content, with the quotation marks around it.
-/
import Racfs.Client
import Racfs.Fuse.Cache
import Racfs.Fuse.Merge

namespace Racfs.Fuse

open Server MemFs Errno

section Calls

variable {ι M L : Type*} [DecidableEq ι] (json : Client.JsonString)

/-- Send the runs one after the other; the first failure ends it. -/
def sendRuns (path : Bytes) (now : DateTime) : List Run → AppState ι →
    Except Errno Unit × AppState ι
  | [], server => (.ok (), server)
  | (offset, data) :: rest, server =>
    match Client.writeFile server path (fromUtf8Lossy data) (some offset.toInt64) now with
    | (.ok _, server) => sendRuns path now rest server
    | (.error _, server) => (.error EIO, server)

/-- Merge the buffered writes of a path and send them. -/
def flushWriteBack (cache : FuseCache M L) (server : AppState ι) (path : PathBuf)
    (now : DateTime) : Except Errno Unit × FuseCache M L × AppState ι :=
  let r := cache.takePendingWrites path
  if r.1.isEmpty then (.ok (), r.2, server)
  else
    match sendRuns path.toStringLossy now (mergeWriteSegments (r.1.map Segment.pair)) server with
    | (.ok _, server) => (.ok (), r.2.invalidate path, server)
    | (.error e, server) => (.error e, r.2, server)

/-- The content of a file that is not cached, as `read_async` gets it. -/
def fetchContent (server : AppState ι) (path : PathBuf) : Except Errno Bytes :=
  match Client.readFile json server path.toStringLossy with
  | .ok content => .ok content
  | .error _ => .error EIO

/-- Create a file, write `d` at its start through the buffer, and read it. -/
def roundTrip (server : AppState ι) (path : PathBuf) (now : DateTime) (d : Bytes) :
    Except Errno Bytes :=
  match Client.createFile server path.toStringLossy now with
  | (.error _, _) => .error EIO
  | (.ok _, server) =>
    let cache := ((FuseCache.new : FuseCache Unit Unit).pushWriteBack path ⟨0, d, 0⟩).2
    match flushWriteBack cache server path now with
    | (.error e, _) => .error e
    | (.ok _, _, server) => fetchContent json server path

end Calls

/-! ### The content of a file on the server -/

section Content

variable {ι : Type*} [DecidableEq ι] {s : AppState ι} {path data : Bytes} {now : DateTime}

/-- The entry is a regular file with the given content. -/
structure IsFile (e : FileEntry) (data : Bytes) : Prop where
  notDir : e.metadata.isDirectory = false
  notLink : e.isSymlink = false
  data_eq : e.data = data

/-- The path is accepted and routed to a regular file with the given content. -/
def HasFile (s : AppState ι) (path data : Bytes) : Prop :=
  validatePath path = none ∧ ∃ i relative e, s.vfs.resolveFs ⟨path⟩ = .ok (i, relative) ∧
    (s.backend i).files.get? relative = some e ∧ IsFile e data

lemma isFile_fileEntry (p : PathBuf) (now : DateTime) : IsFile (MemFS.fileEntry p now) [] where
  notDir := by
    show (FileMetadata.fileMode &&& S_IFMT == S_IFDIR) = false
    decide
  notLink := rfl
  data_eq := rfl

lemma get?_create {fs : MemFS} {p : PathBuf} {r : Reply} (h : (fs.create p now).1 = .ok r) :
    (fs.create p now).2.files.get? p = some (MemFS.fileEntry p now) := by
  rw [MemFS.create] at h ⊢
  cases hparent : fs.ensureParentExists p with
  | err e => simp [hparent, MemFS.check] at h
  | panic => simp [hparent, MemFS.check] at h
  | ok a =>
    rw [MemFS.check_of_ok hparent] at h
    rw [MemFS.check_of_ok rfl]
    cases hp : fs.files.contains p with
    | true => simp [MemFS.addEntry_of_contains hp] at h
    | false =>
      rw [MemFS.addEntry_of_not_contains hp]
      exact AssocMap.get?_insert_self _ _ _

/-- A write at the start of an empty file. -/
lemma get?_write {fs : MemFS} {p : PathBuf} {e : FileEntry} (hget : fs.files.get? p = some e)
    (he : IsFile e []) (data : Bytes) (now : DateTime) :
    ∃ e', (fs.write p data 0 .NONE now).2.files.get? p = some e' ∧ IsFile e' data := by
  have hnew : MemFS.writeData e.data data 0 .NONE = data := by
    rw [he.data_eq]
    rfl
  have hwrite : (fs.write p data 0 .NONE now).2.files = fs.files.modify p fun _ =>
      { e with
        data := data
        metadata := { e.metadata with size := data.length.toUInt64, modified := some now } } := by
    simp [MemFS.write, MemFS.updateEntry, MemFS.getEntry, hget, MemFS.check, he.notDir, hnew]
  rw [hwrite, AssocMap.get?_modify, hget, if_pos (by simp)]
  exact ⟨_, rfl, he.notDir, he.notLink, rfl⟩

/-- A read of a whole regular file. -/
lemma read_of_isFile {fs : MemFS} {p : PathBuf} {e : FileEntry} (hget : fs.files.get? p = some e)
    (he : IsFile e data) : fs.read p 0 (-1) = .ok data := by
  simp only [MemFS.read, MemFS.readAux, MemFS.getEntry, hget, Outcome.ok_bind, he.notDir,
    he.notLink, he.data_eq, MemFS.readData_whole]
  rfl

lemma hasFile_createFile {m : Bytes} (h : (Server.createFile s path now).1 = .ok m) :
    HasFile (Server.createFile s path now).2 path [] := by
  rw [Server.createFile] at h ⊢
  cases hvalid : validatePath path with
  | some e => simp [hvalid] at h
  | none =>
    simp only [hvalid] at h ⊢
    cases hroute : s.vfs.resolveFs ⟨path⟩ with
    | err e => simp [AppState.mutate, hroute, respond] at h
    | panic => simp [AppState.mutate, hroute, respond] at h
    | ok r =>
      obtain ⟨i, relative⟩ := r
      simp only [AppState.mutate, hroute] at h ⊢
      refine ⟨hvalid, i, relative, _, hroute, ?_, isFile_fileEntry relative now⟩
      simp only [Function.update_self]
      cases hcreate : ((s.backend i).create relative now).1 with
      | ok r => exact get?_create hcreate
      | err e => simp [hcreate, respond] at h
      | panic => simp [hcreate, respond] at h

lemma hasFile_writeFile (hfile : HasFile s path []) {m : Bytes}
    (h : (Server.writeFile s ⟨path, data, some 0⟩ now).1 = .ok m) :
    HasFile (Server.writeFile s ⟨path, data, some 0⟩ now).2 path data := by
  obtain ⟨hvalid, i, relative, e, hroute, hget, he⟩ := hfile
  obtain ⟨e', hget', he'⟩ := get?_write hget he data now
  rw [Server.writeFile] at h ⊢
  cases hlen : validateWriteDataLen data.length with
  | some e => simp [hvalid, hlen] at h
  | none =>
    simp only [hvalid, AppState.mutate, hroute]
    refine ⟨hvalid, i, relative, e', hroute, ?_, he'⟩
    simp only [Function.update_self]
    exact hget'

omit [DecidableEq ι] in
lemma readFile_of_hasFile (hfile : HasFile s path data) :
    Server.readFile s path = .ok (fromUtf8Lossy data) := by
  obtain ⟨hvalid, i, relative, e, hroute, hget, he⟩ := hfile
  simp only [Server.readFile, hvalid, AppState.read, hroute, Outcome.ok_bind,
    read_of_isFile hget he]
  rfl

end Content

/-! ### The round trip -/

variable {ι : Type*} [DecidableEq ι] {json : Client.JsonString}

lemma length_lt_toVec (s : Bytes) : s.length < (json.toVec s).length := by
  obtain ⟨body, heq, hlen⟩ := json.framed s
  rw [heq, List.length_append, List.length_cons]
  omega

/-- One segment is one run. -/
lemma mergeWriteSegments_singleton (run : Run) : mergeWriteSegments [run] = [run] := rfl

/-- The flush of one write is one call. -/
lemma flushWriteBack_eq_ok {server server' : AppState ι} {path : PathBuf} {now : DateTime}
    {d : Bytes} {cache : FuseCache Unit Unit}
    (h : flushWriteBack ((FuseCache.new : FuseCache Unit Unit).pushWriteBack path ⟨0, d, 0⟩).2
      server path now = (.ok (), cache, server')) :
    ∃ m, Client.writeFile server path.toStringLossy (fromUtf8Lossy d) (some 0) now =
      (.ok m, server') := by
  have htaken : (((FuseCache.new : FuseCache Unit Unit).pushWriteBack path
      ⟨0, d, 0⟩).2.takePendingWrites path).1 = [⟨0, d, 0⟩] := by
    rw [FuseCache.takePendingWrites_fst, FuseCache.pending_pushWriteBack, if_pos (by simp),
      FuseCache.pending_new, List.nil_append]
  have hzero : (0 : UInt64).toInt64 = 0 := rfl
  rw [flushWriteBack, htaken, if_neg (by simp), List.map_singleton, mergeWriteSegments_singleton,
    Segment.pair, sendRuns, hzero] at h
  rcases hwrite : Client.writeFile server path.toStringLossy (fromUtf8Lossy d) (some 0) now with
    ⟨_ | m, written⟩
  · simp [hwrite] at h
  · simp only [hwrite, sendRuns, Prod.mk.injEq] at h
    exact ⟨m, by rw [h.2.2]⟩

/-- What comes back when nothing fails: the JSON form of the text of the bytes. -/
lemma roundTrip_eq_ok {server : AppState ι} {path : PathBuf} {now : DateTime} {d bs : Bytes}
    (h : roundTrip json server path now d = .ok bs) :
    bs = fromUtf8Lossy (json.toVec (fromUtf8Lossy (fromUtf8Lossy d))) := by
  rw [roundTrip] at h
  rcases hcreate : Client.createFile server path.toStringLossy now with ⟨_ | m, created⟩
  · simp [hcreate] at h
  · rw [hcreate] at h
    obtain ⟨hok, rfl⟩ := Prod.mk.inj hcreate
    -- the file is followed through the three calls: empty, written, read
    have hempty := hasFile_createFile (Client.handleResponse_eq_ok hok)
    rcases hflush : flushWriteBack ((FuseCache.new : FuseCache Unit Unit).pushWriteBack path
      ⟨0, d, 0⟩).2 (Server.createFile server path.toStringLossy now).2 path now with
      ⟨_ | u, cache, written⟩
    · simp [hflush] at h
    · simp only [hflush] at h
      obtain ⟨m', hwrite⟩ := flushWriteBack_eq_ok hflush
      obtain ⟨hok', rfl⟩ := Prod.mk.inj hwrite
      have hfile := hasFile_writeFile hempty (Client.handleResponse_eq_ok hok')
      rw [fetchContent, Client.readFile, readFile_of_hasFile hfile] at h
      exact (Except.ok.inj h).symm

/-- The bytes that come back are never those that were written. -/
theorem roundTrip_ne (json : Client.JsonString) (server : AppState ι) (path : PathBuf)
    (now : DateTime) (d : Bytes) : roundTrip json server path now d ≠ .ok d := by
  intro h
  have heq := congrArg List.length (roundTrip_eq_ok h)
  -- the quotation marks make the text longer, and no conversion makes it shorter
  have hlong : d.length < (fromUtf8Lossy (json.toVec (fromUtf8Lossy (fromUtf8Lossy d)))).length :=
    calc d.length ≤ (fromUtf8Lossy d).length := length_le_fromUtf8Lossy d
      _ ≤ (fromUtf8Lossy (fromUtf8Lossy d)).length := length_le_fromUtf8Lossy _
      _ < (json.toVec (fromUtf8Lossy (fromUtf8Lossy d))).length := length_lt_toVec _
      _ ≤ _ := length_le_fromUtf8Lossy _
  omega

/-- A server with a new in-memory filesystem at `/memfs`. -/
def memServer : AppState Unit :=
  ⟨(Vfs.MountableFS.new.mount ⟨ascii "/memfs"⟩ ()).2, fun _ => MemFS.new 0⟩

/-- The two bytes `hi` come back with quotation marks around them. -/
theorem roundTrip_hi :
    roundTrip Client.escaped memServer ⟨ascii "/memfs/f"⟩ 0 (ascii "hi") =
      .ok (ascii "\"hi\"") ∧
    roundTrip Client.escaped memServer ⟨ascii "/memfs/f"⟩ 0 (ascii "hi") ≠ .ok (ascii "hi") := by
  have heval : roundTrip Client.escaped memServer ⟨ascii "/memfs/f"⟩ 0 (ascii "hi") =
      .ok (ascii "\"hi\"") := by
    rfl
  refine ⟨heval, ?_⟩
  rw [heval]
  exact fun h => absurd (Except.ok.inj h) (by decide)

end Racfs.Fuse
