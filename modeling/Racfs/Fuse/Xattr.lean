/-
# Extended attributes through the mount

`getxattr`, `setxattr`, `listxattr` and `removexattr` of the client
(`racfs-fuse/src/async_fs.rs`) with the answers to the kernel
(`racfs-fuse/src/blocking_adapter.rs`), on a running server.  Several clients have mounted its
filesystem; each has a table of inode numbers of its own.

Whatever the clients do, and by whichever numbers and paths they reach a file, its attributes are
those of one map: every call is answered from the map that the calls before it have left
(`xattr_replies`).  A list of names can be taken apart at the null bytes
(`xattr_list_complete`).
-/
import Racfs.Fuse.Readdir
import Racfs.Server.Xattr

namespace Racfs.Fuse

open Server RacfsAsyncFs

/-- The error numbers of these calls. -/
inductive XattrErrno
  | ENOENT
  | EIO
  | ENOATTR
  | ERANGE
deriving DecidableEq, Repr

open XattrErrno

/-- The calls of the client for extended attributes. -/
structure XattrRemote (σ : Type*) where
  getXattr : (path name : Bytes) → Call σ Bytes
  setXattr : (path name value : Bytes) → Call σ Bytes
  listXattr : (path : Bytes) → Call σ (List Bytes)
  removeXattr : (path name : Bytes) → Call σ Bytes

/-- The names in one reply, each one ended by a null byte. -/
def nullSeparated (names : List Bytes) : Bytes := names.flatMap fun name => name ++ [0]

/-! ### The operations -/

namespace RacfsAsyncFs

section Operations

variable {σ : Type*} (engine : Base64Engine) (remote : XattrRemote σ) (fs : RacfsAsyncFs σ)

/-- Call the server; every error becomes the one given. -/
def callXattr {A : Type*} (errno : XattrErrno) (c : Call σ A) :
    Except XattrErrno A × RacfsAsyncFs σ :=
  match c fs.server with
  | (.ok a, server) => (.ok a, { fs with server := server })
  | (.error _, server) => (.error errno, { fs with server := server })

/-- The value of an attribute. -/
def getxattrAsync (ino : UInt64) (name : Bytes) : Except XattrErrno Bytes × RacfsAsyncFs σ :=
  match fs.inodes.getPath ino with
  | none => (.error ENOENT, fs)
  | some path =>
    match fs.callXattr ENOATTR (remote.getXattr path.toStringLossy (fromUtf8Lossy name)) with
    | (.ok encoded, fs) =>
      match engine.decode encoded with
      | some value => (.ok value, fs)
      | none => (.error EIO, fs)
    | (.error e, fs) => (.error e, fs)

/-- Set an attribute.  The flags are not looked at. -/
def setxattrAsync (ino : UInt64) (name value : Bytes) (_flags : Int32) :
    Except XattrErrno Unit × RacfsAsyncFs σ :=
  match fs.inodes.getPath ino with
  | none => (.error ENOENT, fs)
  | some path =>
    match fs.callXattr EIO
        (remote.setXattr path.toStringLossy (fromUtf8Lossy name) (engine.encode value)) with
    | (.ok _, fs) => (.ok (), fs.invalidate path)
    | (.error e, fs) => (.error e, fs)

/-- The names of the attributes. -/
def listxattrAsync (ino : UInt64) : Except XattrErrno Bytes × RacfsAsyncFs σ :=
  match fs.inodes.getPath ino with
  | none => (.error ENOENT, fs)
  | some path =>
    match fs.callXattr EIO (remote.listXattr path.toStringLossy) with
    | (.ok names, fs) => (.ok (nullSeparated names), fs)
    | (.error e, fs) => (.error e, fs)

/-- Remove an attribute. -/
def removexattrAsync (ino : UInt64) (name : Bytes) : Except XattrErrno Unit × RacfsAsyncFs σ :=
  match fs.inodes.getPath ino with
  | none => (.error ENOENT, fs)
  | some path =>
    match fs.callXattr ENOATTR (remote.removeXattr path.toStringLossy (fromUtf8Lossy name)) with
    | (.ok _, fs) => (.ok (), fs.invalidate path)
    | (.error e, fs) => (.error e, fs)

end Operations

end RacfsAsyncFs

/-- An answer to the kernel. -/
inductive XattrReply
  | ok
  | size (n : UInt32)
  | data (bytes : Bytes)
deriving DecidableEq, Repr

/-- The end of `getxattr` and `listxattr`: without a buffer the kernel is told the size, and what
does not fit into its buffer is an error. -/
def replyXattr (size : UInt32) : Except XattrErrno Bytes → Except XattrErrno XattrReply
  | .ok bytes =>
    if size = 0 then .ok (.size (UInt32.ofNat bytes.length))
    else if bytes.length ≤ size.toNat then .ok (.data bytes)
    else .error ERANGE
  | .error e => .error e

/-- A call of the kernel. -/
inductive XattrCall
  | get (ino : UInt64) (name : Bytes) (size : UInt32)
  | set (ino : UInt64) (name value : Bytes) (flags : Int32)
  | list (ino : UInt64) (size : UInt32)
  | remove (ino : UInt64) (name : Bytes)

namespace XattrCall

/-- The inode that a call is about. -/
def ino : XattrCall → UInt64
  | get ino _ _ => ino
  | set ino _ _ _ => ino
  | list ino _ => ino
  | remove ino _ => ino

variable {σ : Type*} (engine : Base64Engine) (remote : XattrRemote σ) (fs : RacfsAsyncFs σ)

/-- A call, up to the answer. -/
def apply : XattrCall → Except XattrErrno XattrReply × RacfsAsyncFs σ
  | get ino name size =>
    let r := fs.getxattrAsync engine remote ino name
    (replyXattr size r.1, r.2)
  | set ino name value flags =>
    let r := fs.setxattrAsync engine remote ino name value flags
    (r.1.map fun _ => .ok, r.2)
  | list ino size =>
    let r := fs.listxattrAsync remote ino
    (replyXattr size r.1, r.2)
  | remove ino name =>
    let r := fs.removexattrAsync remote ino name
    (r.1.map fun _ => .ok, r.2)

end XattrCall

/-! ### The clients of a server -/

section Mounts

variable {κ ι : Type*} [DecidableEq κ] [DecidableEq ι]

/-- The calls of the client on a running server. -/
def httpXattr (engine : Base64Engine) : XattrRemote (ServerState ι) where
  getXattr path name s := received (s.getXattr engine path name, s)
  setXattr path name value s := received (s.setXattr engine path name value)
  listXattr path s := received (s.listXattr path, s)
  removeXattr path name s := received (s.removeXattr path name)

/-- Where an inode number leads. -/
inductive Target (ι : Type*)
  /-- The client does not know the number. -/
  | unknown
  /-- The server has no file at the path. -/
  | nowhere
  | file (file : ι × PathBuf)

/-- Where an inode number leads at a client. -/
def RacfsAsyncFs.target (fs : RacfsAsyncFs (ServerState ι)) (ino : UInt64) : Target ι :=
  match fs.inodes.getPath ino with
  | none => .unknown
  | some path =>
    match fs.server.app.locate path.toStringLossy with
    | none => .nowhere
    | some file => .file file

/-- A call that was answered. -/
structure XattrRecord (ι : Type*) where
  target : Target ι
  call : XattrCall
  reply : Except XattrErrno XattrReply

/-- The clients, the server, and the record of what has been answered. -/
structure Mounts (κ ι : Type*) where
  clients : κ → RacfsAsyncFs Unit
  server : ServerState ι
  log : List (XattrRecord ι)

/-- What can happen at a client: a lookup, by which it gets inode numbers, or a call. -/
inductive MountEvent
  | lookup (parent : UInt64) (name : Bytes) (now : DateTime)
  | xattr (call : XattrCall)

namespace Mounts

variable (engine : Base64Engine) (json : Client.JsonString) (format : DateTime → String)
  (m : Mounts κ ι)

/-- Nothing has been called. -/
def start (clients : κ → RacfsAsyncFs Unit) (server : ServerState ι) : Mounts κ ι :=
  ⟨clients, server, []⟩

/-- A client with the server. -/
def client (k : κ) : RacfsAsyncFs (ServerState ι) :=
  ⟨(m.clients k).inodes, (m.clients k).cache, (m.clients k).ttl, m.server⟩

/-- A client has done something. -/
def after (k : κ) (fs : RacfsAsyncFs (ServerState ι)) (records : List (XattrRecord ι)) :
    Mounts κ ι where
  clients := Function.update m.clients k ⟨fs.inodes, fs.cache, fs.ttl, ()⟩
  server := fs.server
  log := m.log ++ records

/-- The next event. -/
def step (m : Mounts κ ι) : κ × MountEvent → Option (Mounts κ ι)
  | (k, .lookup parent name now) =>
    some (m.after k ((m.client k).lookupAsync (httpRemote json format) parent name now).2 [])
  | (k, .xattr call) =>
    let r := call.apply engine (httpXattr engine) (m.client k)
    some (m.after k r.2 [⟨(m.client k).target call.ino, call, r.1⟩])

end Mounts

/-! ### The map -/

/-- The value of an attribute of the file that is called. -/
def Target.value (attrs : Attributes ι) (name : Bytes) : Target ι → Except XattrErrno Bytes
  | .unknown => .error ENOENT
  | .nowhere => .error ENOATTR
  | .file f =>
    match attrs f.1 f.2 name with
    | some value => .ok value
    | none => .error ENOATTR

/-- The list enumerates the attributes of the file. -/
structure Enumerates (attrs : Attributes ι) (file : ι × PathBuf) (names : List Bytes) : Prop where
  nodup : names.Nodup
  mem_iff : ∀ name, name ∈ names ↔ (attrs file.1 file.2 name).isSome = true

/-- What a call makes of the map. -/
def XattrCall.effect (attrs : Attributes ι) : XattrCall → Target ι → Attributes ι
  | .set _ name value _, .file file => attrs.put file (fromUtf8Lossy name) (some value)
  | .remove _ name, .file file => attrs.put file (fromUtf8Lossy name) none
  | _, _ => attrs

/-- The answer that the map has for a call. -/
def XattrCall.Answers (attrs : Attributes ι) (target : Target ι)
    (reply : Except XattrErrno XattrReply) : XattrCall → Prop
  | .get _ name size => reply = replyXattr size (target.value attrs (fromUtf8Lossy name))
  | .set _ _ _ _ =>
    match target with
    | .unknown => reply = .error ENOENT
    | .nowhere => reply = .error EIO
    | .file _ => reply = .ok .ok
  | .list _ size =>
    match target with
    | .unknown => reply = .error ENOENT
    | .nowhere => reply = .error EIO
    | .file file => ∃ names, Enumerates attrs file names ∧
        reply = replyXattr size (.ok (nullSeparated names))
  | .remove _ name => reply = (target.value attrs (fromUtf8Lossy name)).map fun _ => .ok

/-- The map after calls. -/
def attributesAfter (attrs : Attributes ι) (log : List (XattrRecord ι)) : Attributes ι :=
  log.foldl (fun attrs r => r.call.effect attrs r.target) attrs

end Mounts

/-! ### One call -/

section Results

variable {σ A : Type*} {fs : RacfsAsyncFs σ} {c : Call σ A}

lemma callXattr_of_ok {a : A} (errno : XattrErrno) (h : (c fs.server).1 = .ok a) :
    fs.callXattr errno c = (.ok a, { fs with server := (c fs.server).2 }) := by
  rw [callXattr]
  rcases hc : c fs.server with ⟨e | b, server⟩
  · rw [hc] at h
    cases h
  · rw [hc] at h
    cases h
    rfl

lemma callXattr_of_ne_ok (errno : XattrErrno) (h : ∀ a, (c fs.server).1 ≠ .ok a) :
    fs.callXattr errno c = (.error errno, { fs with server := (c fs.server).2 }) := by
  rw [callXattr]
  rcases hc : c fs.server with ⟨e | b, server⟩
  · rfl
  · rw [hc] at h
    exact absurd rfl (h b)

lemma handleResponse_ne_ok {r : Response A} (h : ∀ body, r ≠ .ok body) (a : A) :
    Client.handleResponse r ≠ .ok a :=
  fun heq => h a (Client.handleResponse_eq_ok heq)

end Results

section Calls

variable {ι : Type*} [DecidableEq ι] (engine : Base64Engine) (fs : RacfsAsyncFs (ServerState ι))
  (ino : UInt64) (name : Bytes)

lemma getxattrAsync_eq : fs.getxattrAsync engine (httpXattr engine) ino name =
    ((fs.target ino).value fs.server.app.attributes (fromUtf8Lossy name), fs) := by
  rw [getxattrAsync, target]
  cases hpath : fs.inodes.getPath ino with
  | none => rfl
  | some path =>
    simp only
    cases hlocate : fs.server.app.locate path.toStringLossy with
    | none =>
      rw [callXattr_of_ne_ok _ (handleResponse_ne_ok
        (ServerState.getXattr_of_locate_none engine hlocate _))]
      rfl
    | some file =>
      have hget := ServerState.getXattr_of_locate engine hlocate (fromUtf8Lossy name)
      simp only [Target.value]
      cases hattr : fs.server.app.attributes file.1 file.2 (fromUtf8Lossy name) with
      | none =>
        rw [hattr] at hget
        rw [callXattr_of_ne_ok _ (handleResponse_ne_ok hget)]
        rfl
      | some value =>
        rw [hattr] at hget
        rw [callXattr_of_ok _ (congrArg Client.handleResponse hget)]
        simp only [engine.decode_encode]
        rfl

lemma listxattrAsync_cases : (fs.listxattrAsync (httpXattr engine) ino).2 = fs ∧
    match fs.target ino with
    | .unknown => (fs.listxattrAsync (httpXattr engine) ino).1 = .error ENOENT
    | .nowhere => (fs.listxattrAsync (httpXattr engine) ino).1 = .error EIO
    | .file file => ∃ names, Enumerates fs.server.app.attributes file names ∧
        (fs.listxattrAsync (httpXattr engine) ino).1 = .ok (nullSeparated names) := by
  rw [listxattrAsync, target]
  cases hpath : fs.inodes.getPath ino with
  | none => exact ⟨rfl, rfl⟩
  | some path =>
    simp only
    cases hlocate : fs.server.app.locate path.toStringLossy with
    | none =>
      rw [callXattr_of_ne_ok _ (handleResponse_ne_ok
        (ServerState.listXattr_of_locate_none hlocate))]
      exact ⟨rfl, rfl⟩
    | some file =>
      obtain ⟨names, hlist, hnodup, hmem⟩ := ServerState.listXattr_of_locate hlocate
      rw [callXattr_of_ok _ (congrArg Client.handleResponse hlist)]
      exact ⟨rfl, names, ⟨hnodup, hmem⟩, rfl⟩

/-- Paths lead where they led, and the attributes are the ones given. -/
structure Leaves (fs fs' : RacfsAsyncFs (ServerState ι)) (attrs : Attributes ι) : Prop where
  locate : fs'.server.app.locate = fs.server.app.locate
  attributes : fs'.server.app.attributes = attrs

lemma setxattrAsync_cases (value : Bytes) (flags : Int32) :
    Leaves fs (fs.setxattrAsync engine (httpXattr engine) ino name value flags).2
      ((XattrCall.set ino name value flags).effect fs.server.app.attributes (fs.target ino)) ∧
    (XattrCall.set ino name value flags).Answers fs.server.app.attributes (fs.target ino)
      ((fs.setxattrAsync engine (httpXattr engine) ino name value flags).1.map fun _ => .ok) := by
  rw [setxattrAsync, target]
  cases hpath : fs.inodes.getPath ino with
  | none => exact ⟨⟨rfl, rfl⟩, rfl⟩
  | some path =>
    simp only
    cases hlocate : fs.server.app.locate path.toStringLossy with
    | none =>
      obtain ⟨hfails, hsame⟩ := ServerState.setXattr_of_locate_none engine hlocate
        (fromUtf8Lossy name) (engine.encode value)
      rw [callXattr_of_ne_ok _ (handleResponse_ne_ok hfails)]
      refine ⟨⟨?_, ?_⟩, rfl⟩
      · exact congrArg (fun s => s.app.locate) hsame
      · exact congrArg (fun s => s.app.attributes) hsame
    | some file =>
      obtain ⟨⟨message, hok⟩, hchanged⟩ := ServerState.setXattr_of_locate engine hlocate
        (fromUtf8Lossy name) value
      rw [callXattr_of_ok _ (congrArg Client.handleResponse hok)]
      exact ⟨⟨hchanged.locate, hchanged.attributes⟩, rfl⟩

lemma removexattrAsync_cases :
    Leaves fs (fs.removexattrAsync (httpXattr engine) ino name).2
      ((XattrCall.remove ino name).effect fs.server.app.attributes (fs.target ino)) ∧
    (XattrCall.remove ino name).Answers fs.server.app.attributes (fs.target ino)
      ((fs.removexattrAsync (httpXattr engine) ino name).1.map fun _ => .ok) := by
  rw [removexattrAsync, target]
  cases hpath : fs.inodes.getPath ino with
  | none => exact ⟨⟨rfl, rfl⟩, rfl⟩
  | some path =>
    simp only
    cases hlocate : fs.server.app.locate path.toStringLossy with
    | none =>
      obtain ⟨hfails, hsame⟩ := @ServerState.removeXattr_of_none ι _ fs.server path.toStringLossy
        (fromUtf8Lossy name) fun file hfile => by rw [hlocate] at hfile; cases hfile
      rw [callXattr_of_ne_ok _ (handleResponse_ne_ok hfails)]
      refine ⟨⟨?_, ?_⟩, rfl⟩
      · exact congrArg (fun s => s.app.locate) hsame
      · exact congrArg (fun s => s.app.attributes) hsame
    | some file =>
      simp only [XattrCall.effect, XattrCall.Answers, Target.value]
      cases hattr : fs.server.app.attributes file.1 file.2 (fromUtf8Lossy name) with
      | none =>
        obtain ⟨hfails, hsame⟩ := @ServerState.removeXattr_of_none ι _ fs.server
          path.toStringLossy (fromUtf8Lossy name) fun file' hfile => by
            rw [hlocate] at hfile
            rwa [← Option.some.inj hfile]
        rw [callXattr_of_ne_ok _ (handleResponse_ne_ok hfails), AppState.put_none_of_none hattr]
        refine ⟨⟨?_, ?_⟩, rfl⟩
        · exact congrArg (fun s => s.app.locate) hsame
        · exact congrArg (fun s => s.app.attributes) hsame
      | some value =>
        obtain ⟨⟨message, hok⟩, hchanged⟩ := ServerState.removeXattr_of_locate hlocate hattr
        rw [callXattr_of_ok _ (congrArg Client.handleResponse hok)]
        exact ⟨⟨hchanged.locate, hchanged.attributes⟩, rfl⟩

/-- Every call is answered from the map, and changes it as it should. -/
lemma apply_spec (call : XattrCall) :
    Leaves fs (call.apply engine (httpXattr engine) fs).2
      (call.effect fs.server.app.attributes (fs.target call.ino)) ∧
    call.Answers fs.server.app.attributes (fs.target call.ino)
      (call.apply engine (httpXattr engine) fs).1 := by
  cases call with
  | get ino name size =>
    rw [XattrCall.apply, getxattrAsync_eq]
    exact ⟨⟨rfl, rfl⟩, rfl⟩
  | set ino name value flags => exact setxattrAsync_cases engine fs ino name value flags
  | list ino size =>
    obtain ⟨hsame, hanswer⟩ := listxattrAsync_cases engine fs ino
    rw [XattrCall.apply, hsame]
    refine ⟨⟨rfl, rfl⟩, ?_⟩
    simp only [XattrCall.Answers, XattrCall.ino]
    cases htarget : fs.target ino with
    | unknown =>
      rw [htarget] at hanswer
      exact congrArg (replyXattr size) hanswer
    | nowhere =>
      rw [htarget] at hanswer
      exact congrArg (replyXattr size) hanswer
    | file file =>
      rw [htarget] at hanswer
      obtain ⟨names, hnames, hlist⟩ := hanswer
      exact ⟨names, hnames, congrArg (replyXattr size) hlist⟩
  | remove ino name => exact removexattrAsync_cases engine fs ino name

end Calls

/-! ### Runs -/

lemma app_stat {ι : Type*} (format : DateTime → String) (s : ServerState ι) (path : Bytes) :
    (s.stat format path).2.app = s.app := by
  rw [ServerState.stat]
  cases validatePath path <;> rfl

section Runs

variable {κ ι : Type*} [DecidableEq κ] [DecidableEq ι] {engine : Base64Engine}
  {json : Client.JsonString} {format : DateTime → String}

/-- A lookup leaves the files as they are. -/
lemma app_lookupAsync (fs : RacfsAsyncFs (ServerState ι)) (parent : UInt64) (name : Bytes)
    (now : DateTime) :
    (fs.lookupAsync (httpRemote json format) parent name now).2.server.app = fs.server.app := by
  have hcached : ∀ path, (fs.statCached (httpRemote json format) path now).2.server.app =
      fs.server.app := by
    intro path
    have happ := app_stat format fs.server path.toStringLossy
    rw [statCached]
    cases (fs.cache.getStat path now).1 with
    | some metadata => rfl
    | none =>
      simp only [httpRemote, received]
      cases Client.handleResponse (fs.server.stat format path.toStringLossy).1 <;> exact happ
  rw [lookupAsync]
  cases fs.childPath parent name with
  | none => rfl
  | some path =>
    simp only
    have happ := hcached path
    rcases hstat : fs.statCached (httpRemote json format) path now with ⟨_ | metadata, fs'⟩
    · rw [hstat] at happ
      exact happ
    · rw [hstat] at happ
      exact happ

/-- What holds after any run: the answers come from the map, and the server has its last state. -/
structure Accounted (attrs : Attributes ι) (m : Mounts κ ι) : Prop where
  answers : ∀ before r after, m.log = before ++ r :: after →
    r.call.Answers (attributesAfter attrs before) r.target r.reply
  attributes : m.server.app.attributes = attributesAfter attrs m.log

lemma attributesAfter_concat (attrs : Attributes ι) (log : List (XattrRecord ι))
    (r : XattrRecord ι) :
    attributesAfter attrs (log ++ [r]) = r.call.effect (attributesAfter attrs log) r.target := by
  rw [attributesAfter, List.foldl_concat, attributesAfter]

lemma Accounted.step {attrs : Attributes ι} {m m' : Mounts κ ι} {event : κ × MountEvent}
    (h : Accounted attrs m) (hstep : m.step engine json format event = some m') :
    Accounted attrs m' := by
  obtain ⟨k, event⟩ := event
  cases event with
  | lookup parent name now =>
    obtain rfl := Option.some.inj hstep
    refine ⟨fun before r after hlog => h.answers before r after ?_, ?_⟩
    · rw [← hlog]
      exact (List.append_nil _).symm
    · show AppState.attributes
          ((m.client k).lookupAsync (httpRemote json format) parent name now).2.server.app =
        attributesAfter attrs (m.log ++ [])
      rw [app_lookupAsync, List.append_nil]
      exact h.attributes
  | xattr call =>
    obtain rfl := Option.some.inj hstep
    obtain ⟨hleaves, hanswers⟩ := apply_spec engine (m.client k) call
    have hattributes : (m.client k).server.app.attributes = attributesAfter attrs m.log :=
      h.attributes
    rw [hattributes] at hleaves hanswers
    refine ⟨fun before r after hlog => ?_, ?_⟩
    · rcases List.eq_nil_or_concat after with rfl | ⟨after, last, rfl⟩
      · obtain ⟨rfl, hr⟩ := List.append_inj' hlog rfl
        obtain rfl := List.singleton_inj.1 hr
        exact hanswers
      · rw [List.concat_eq_append, ← List.cons_append, ← List.append_assoc] at hlog
        exact h.answers before r after (List.append_inj' hlog rfl).1
    · show AppState.attributes (call.apply engine (httpXattr engine) (m.client k)).2.server.app =
        attributesAfter attrs (m.log ++ [_])
      rw [attributesAfter_concat]
      exact hleaves.attributes

lemma accounted_of_run {clients : κ → RacfsAsyncFs Unit} {server : ServerState ι}
    {events : List (κ × MountEvent)} {m : Mounts κ ι}
    (hrun : run (Mounts.step engine json format) (.start clients server) events = some m) :
    Accounted server.app.attributes m := by
  refine Reachable.invariant ⟨events, hrun⟩ ⟨fun before r after hlog => ?_, rfl⟩
    fun s event s' hs hstep => hs.step hstep
  exact absurd hlog (by simp [Mounts.start])

/-- Every call of a run is answered from the map that the calls before it have left. -/
theorem xattr_replies (engine : Base64Engine) (json : Client.JsonString)
    (format : DateTime → String) (clients : κ → RacfsAsyncFs Unit) (server : ServerState ι)
    {events : List (κ × MountEvent)} {m : Mounts κ ι}
    (hrun : run (Mounts.step engine json format) (.start clients server) events = some m)
    {before after : List (XattrRecord ι)} {r : XattrRecord ι}
    (hlog : m.log = before ++ r :: after) :
    r.call.Answers (attributesAfter server.app.attributes before) r.target r.reply :=
  (accounted_of_run hrun).answers before r after hlog

/-- A file at the root of the server, one client that has set an attribute, and another one that
asks for it. -/
def twoClients : List (Bool × MountEvent) :=
  [(true, .lookup 1 (ascii "f") 0), (true, .xattr (.set 2 (ascii "user.k") (ascii "v") 0)),
    (false, .lookup 1 (ascii "f") 0), (false, .xattr (.get 2 (ascii "user.k") 8)),
    (false, .xattr (.list 2 0))]

theorem xattr_replies_twoClients :
    ∃ m : Mounts Bool Unit, run (Mounts.step Base64.standard Client.escaped fun _ => "")
        (.start (fun _ => .new 1 ()) (fileServer [])) twoClients = some m ∧
      m.log.map XattrRecord.reply =
        [.ok .ok, .ok (.data (ascii "v")), .ok (.size 7)] ∧
      ∀ before r after, m.log = before ++ r :: after →
        r.call.Answers (attributesAfter (fileServer []).app.attributes before) r.target
          r.reply := by
  have hrun : ∃ m : Mounts Bool Unit, run (Mounts.step Base64.standard Client.escaped fun _ => "")
      (.start (fun _ => .new 1 ()) (fileServer [])) twoClients = some m ∧
      m.log.map XattrRecord.reply = [.ok .ok, .ok (.data (ascii "v")), .ok (.size 7)] :=
    ⟨_, rfl, by decide⟩
  obtain ⟨m, hm, hreplies⟩ := hrun
  exact ⟨m, hm, hreplies, fun _ _ _ hlog => xattr_replies _ _ _ _ _ hm hlog⟩

/-! ### Lists of names -/

lemma splitOn_nullSeparated {names : List Bytes} (h : ∀ name ∈ names, (0 : UInt8) ∉ name) :
    (nullSeparated names).splitOn 0 = names ++ [[]] := by
  have hjoin : nullSeparated names = [(0 : UInt8)].intercalate (names ++ [[]]) := by
    induction names with
    | nil => rfl
    | cons name names ih =>
      have hne : ∃ first rest, names ++ [([] : Bytes)] = first :: rest := by
        cases names with
        | nil => exact ⟨_, _, rfl⟩
        | cons first rest => exact ⟨_, _, rfl⟩
      obtain ⟨first, rest, heq⟩ := hne
      rw [nullSeparated, List.flatMap_cons, ← nullSeparated,
        ih fun n hn => h n (List.mem_cons_of_mem _ hn), List.cons_append, heq,
        List.intercalate_cons_cons]
  rw [hjoin]
  refine List.splitOn_intercalate 0 (fun name hname => ?_) (by simp)
  rcases List.mem_append.1 hname with hname | hname
  · exact h name hname
  · rw [List.mem_singleton.1 hname]
    exact List.not_mem_nil

/-- No name has a null byte. -/
def NulFree (attrs : Attributes ι) : Prop :=
  ∀ (file : ι × PathBuf) (name : Bytes), (attrs file.1 file.2 name).isSome = true →
    (0 : UInt8) ∉ name

/-- The name in a call of the kernel is a string that ends with its null byte. -/
def XattrCall.NulFree : XattrCall → Prop
  | .get _ name _ | .set _ name _ _ | .remove _ name => (0 : UInt8) ∉ name
  | .list _ _ => True

/-- The same of what happens at a client. -/
def MountEvent.NulFree : MountEvent → Prop
  | .lookup _ _ _ => True
  | .xattr call => call.NulFree

lemma NulFree.put {attrs : Attributes ι} (h : NulFree attrs) (file : ι × PathBuf) {name : Bytes}
    (hname : (0 : UInt8) ∉ name) (value : Option Bytes) : NulFree (attrs.put file name value) := by
  intro f n hn
  rw [Attributes.put] at hn
  split_ifs at hn with heq
  · rw [heq.2.2]
    exact hname
  · exact h f n hn

lemma not_mem_fromUtf8Lossy {name : Bytes} (h : (0 : UInt8) ∉ name) :
    (0 : UInt8) ∉ fromUtf8Lossy name :=
  fun hmem => h (mem_of_mem_fromUtf8Lossy (by decide) hmem)

lemma NulFree.effect {attrs : Attributes ι} (h : NulFree attrs) {call : XattrCall}
    (hcall : call.NulFree) (target : Target ι) : NulFree (call.effect attrs target) := by
  cases call with
  | get ino name size => exact h
  | set ino name value flags =>
    cases target with
    | file file => exact h.put file (not_mem_fromUtf8Lossy hcall) _
    | unknown => exact h
    | nowhere => exact h
  | list ino size => exact h
  | remove ino name =>
    cases target with
    | file file => exact h.put file (not_mem_fromUtf8Lossy hcall) _
    | unknown => exact h
    | nowhere => exact h

lemma NulFree.step {m m' : Mounts κ ι} {event : κ × MountEvent}
    (h : NulFree m.server.app.attributes) (hevent : event.2.NulFree)
    (hstep : m.step engine json format event = some m') : NulFree m'.server.app.attributes := by
  obtain ⟨k, event⟩ := event
  cases event with
  | lookup parent name now =>
    obtain rfl := Option.some.inj hstep
    show NulFree (AppState.attributes
      ((m.client k).lookupAsync (httpRemote json format) parent name now).2.server.app)
    rw [app_lookupAsync]
    exact h
  | xattr call =>
    obtain rfl := Option.some.inj hstep
    show NulFree (AppState.attributes
      (call.apply engine (httpXattr engine) (m.client k)).2.server.app)
    rw [(apply_spec engine (m.client k) call).1.attributes]
    exact NulFree.effect h hevent _

lemma nulFree_of_run {events : List (κ × MountEvent)} :
    ∀ {m m' : Mounts κ ι}, NulFree m.server.app.attributes →
      (∀ event ∈ events, event.2.NulFree) →
      run (Mounts.step engine json format) m events = some m' →
      NulFree m'.server.app.attributes := by
  induction events with
  | nil =>
    intro m m' h _ hrun
    rwa [← Option.some.inj hrun]
  | cons event events ih =>
    intro m m' h hevents hrun
    obtain ⟨m₁, hstep, hrest⟩ := exists_of_run_cons hrun
    exact ih (h.step (hevents event List.mem_cons_self) hstep)
      (fun e he => hevents e (List.mem_cons_of_mem _ he)) hrest

/-- After any run, the names of a file can be listed: the kernel is told how much room they take,
and when it makes that room and cuts what it gets at the null bytes, it has each name once. -/
theorem xattr_list_complete (engine : Base64Engine) (json : Client.JsonString)
    (format : DateTime → String) (clients : κ → RacfsAsyncFs Unit) (server : ServerState ι)
    {events : List (κ × MountEvent)} {m : Mounts κ ι}
    (hserver : NulFree server.app.attributes) (hevents : ∀ event ∈ events, event.2.NulFree)
    (hrun : run (Mounts.step engine json format) (.start clients server) events = some m)
    {k : κ} {ino : UInt64} {file : ι × PathBuf} (htarget : (m.client k).target ino = .file file) :
    ∃ bytes : Bytes,
      Enumerates (attributesAfter server.app.attributes m.log) file
        (bytes.splitOn 0).dropLast ∧
      ((XattrCall.list ino 0).apply engine (httpXattr engine) (m.client k)).1 =
        .ok (.size (UInt32.ofNat bytes.length)) ∧
      ∀ size : UInt32, size ≠ 0 →
        ((XattrCall.list ino size).apply engine (httpXattr engine) (m.client k)).1 =
          if bytes.length ≤ size.toNat then .ok (.data bytes) else .error ERANGE := by
  have hattributes := (accounted_of_run hrun).attributes
  obtain ⟨-, hanswer⟩ := listxattrAsync_cases engine (m.client k) ino
  rw [htarget] at hanswer
  obtain ⟨names, hnames, hlist⟩ := hanswer
  have hfree : ∀ name ∈ names, (0 : UInt8) ∉ name := fun name hname =>
    nulFree_of_run hserver hevents hrun file name ((hnames.mem_iff name).1 hname)
  refine ⟨nullSeparated names, ?_, ?_, fun size hsize => ?_⟩
  · rw [splitOn_nullSeparated hfree, List.dropLast_concat, ← hattributes]
    exact hnames
  · exact congrArg (replyXattr 0) hlist
  · refine (congrArg (replyXattr size) hlist).trans ?_
    rw [replyXattr, if_neg hsize]

theorem xattr_list_complete_twoClients :
    ∃ (m : Mounts Bool Unit) (bytes : Bytes),
      run (Mounts.step Base64.standard Client.escaped fun _ => "")
        (.start (fun _ => .new 1 ()) (fileServer [])) twoClients = some m ∧
      Enumerates (attributesAfter (fileServer []).app.attributes m.log) ((), ⟨ascii "/f"⟩)
        (bytes.splitOn 0).dropLast ∧
      ((XattrCall.list 2 64).apply Base64.standard (httpXattr Base64.standard)
        (m.client false)).1 = if bytes.length ≤ 64 then .ok (.data bytes) else .error ERANGE := by
  have hrun : ∃ m : Mounts Bool Unit, run (Mounts.step Base64.standard Client.escaped fun _ => "")
      (.start (fun _ => .new 1 ()) (fileServer [])) twoClients = some m ∧
      (m.client false).target 2 = .file ((), ⟨ascii "/f"⟩) := ⟨_, rfl, rfl⟩
  obtain ⟨m, hm, htarget⟩ := hrun
  have hserver : NulFree (fileServer []).app.attributes := by
    intro file name hname
    cases hname
  have hevents : ∀ event ∈ twoClients, event.2.NulFree := by
    intro event hevent
    simp only [twoClients, List.mem_cons, List.not_mem_nil, or_false] at hevent
    rcases hevent with rfl | rfl | rfl | rfl | rfl
    · trivial
    · show (0 : UInt8) ∉ ascii "user.k"
      decide
    · trivial
    · show (0 : UInt8) ∉ ascii "user.k"
      decide
    · trivial
  obtain ⟨bytes, hnames, -, hdata⟩ := xattr_list_complete Base64.standard Client.escaped
    (fun _ => "") (fun _ => .new 1 ()) (fileServer []) hserver hevents hm htarget
  exact ⟨m, bytes, hm, hnames, hdata 64 (by decide)⟩

end Runs

end Racfs.Fuse
