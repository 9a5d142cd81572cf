/-
# Compressed messages

A filesystem with a compressor keeps compressed messages and their lengths, and one without keeps
the messages.  Two such filesystems are the same but for that (`Same`): every call returns the
same from both and leaves them so, as long as the messages that are written are short enough for
the length that is kept (`agree_exec`).  So nobody sees the compression
(`results_compressed`).
-/
import Racfs.StreamFs.RingBuffer

namespace Racfs.StreamFs

/-! ### The same messages -/

/-- A message and the same message as it is stored with a compressor. -/
inductive SameMessage (c : Compression) : MessageStorage → MessageStorage → Prop
  /-- A message that has been created is not compressed. -/
  | raw (d : Vec) : SameMessage c (.raw d) (.raw d)
  | compressed (d z : Vec) (hz : c.decompress z = .ok d) (hlen : d.bytes.length < 2 ^ 32) :
    SameMessage c (.raw d) (.compressed d.bytes.length.toUInt32 z)

/-- A stream and the same stream with a compressor. -/
structure SameStream (c : Compression) (s s' : Stream) : Prop where
  name : s'.name = s.name
  messages : TreeMap.Rel (SameMessage c) s.messages s'.messages
  head : s'.head = s.head
  tail : s'.tail = s.tail

/-- The configuration with a compressor. -/
def StreamConfig.withCompression (config : StreamConfig) (c : Compression) : StreamConfig :=
  { config with compression := some c }

/-- A filesystem without a compressor and the same filesystem with one. -/
structure StreamFS.Same (c : Compression) (fs fs' : StreamFS) : Prop where
  plain : fs.config.compression = none
  config : fs'.config = fs.config.withCompression c
  streams : TreeMap.Rel (SameStream c) fs.streams fs'.streams

/-- Calls with the same result leave the same behind. -/
structure Agree {A S : Type} (R : S → S → Prop) (x y : Result A × S) : Prop where
  result : x.1 = y.1
  state : R x.2 y.2

lemma Agree.andThen {A B S : Type} {R : S → S → Prop} {x y : Result A × S}
    {f g : A → S → Result B × S} (h : Agree R x y)
    (hf : ∀ a s s', R s s' → Agree R (f a s) (g a s')) :
    Agree R (StreamFs.andThen x f) (StreamFs.andThen y g) := by
  obtain ⟨r, s⟩ := x
  obtain ⟨r', s'⟩ := y
  obtain rfl : r = r' := h.result
  cases r with
  | error e => exact ⟨rfl, h.state⟩
  | ok a => exact hf a s s' h.state

lemma Agree.map {A B S : Type} {R : S → S → Prop} {x y : Result A × S} (h : Agree R x y)
    (f : A → B) : Agree R (x.map (·.map f) id) (y.map (·.map f) id) :=
  ⟨congrArg (·.map f) h.result, h.state⟩

variable {checks : Bool} {config : StreamConfig} {c : Compression}

namespace SameMessage

variable {m m' : MessageStorage}

lemma len_eq (h : SameMessage c m m') : m'.len = m.len := by
  cases h with
  | raw d => rfl
  | compressed d z hz hlen =>
    exact toUInt64_toUInt32 hlen

lemma bytes_eq (h : SameMessage c m m') :
    messageStorageToBytes (config.withCompression c) m' = messageStorageToBytes config m := by
  cases h with
  | raw d => rfl
  | compressed d z hz hlen =>
    simp only [messageStorageToBytes, StreamConfig.withCompression, hz, Except.mapError]

end SameMessage

/-- A short message is stored as the same message with and without a compressor. -/
lemma bytesToMessageStorage_withCompression (hplain : config.compression = none)
    (hc : ∀ d, ∃ z, c.compress d = .ok z ∧ c.decompress z = .ok d) {d : Vec}
    (hd : d.bytes.length < 2 ^ 32) :
    ∃ m', bytesToMessageStorage config d = .ok (.raw d) ∧
      bytesToMessageStorage (config.withCompression c) d = .ok m' ∧ SameMessage c (.raw d) m' := by
  obtain ⟨z, hz, hdec⟩ := hc d
  refine ⟨.compressed d.bytes.length.toUInt32 z, ?_, ?_, .compressed d z hdec hd⟩
  · rw [bytesToMessageStorage, hplain]
  · simp only [bytesToMessageStorage, StreamConfig.withCompression, hz, Except.mapError, bind,
      Except.bind, if_pos hd]

/-! ### The calls on one stream -/

namespace SameStream

variable {s s' : Stream}

lemma new (name : Bytes) : SameStream c (.new name) (.new name) := ⟨rfl, .empty, rfl, rfl⟩

lemma insert (h : SameStream c s s') (id : UInt64) {m m' : MessageStorage}
    (hm : SameMessage c m m') : SameStream c (s.insert id m) (s'.insert id m') :=
  ⟨h.name, h.messages.insert id hm, h.head, h.tail⟩

lemma erase (h : SameStream c s s') (id : UInt64) :
    SameStream c { s with messages := s.messages.erase id }
      { s' with messages := s'.messages.erase id } :=
  ⟨h.name, h.messages.erase id, h.head, h.tail⟩

lemma setTail (h : SameStream c s s') (id : UInt64) :
    Agree (SameStream c) (s.setTail checks id) (s'.setTail checks id) := by
  rw [Stream.setTail, Stream.setTail]
  cases add checks id 1 with
  | ok tail => exact ⟨rfl, h.name, h.messages, h.head, rfl⟩
  | error e => exact ⟨rfl, h⟩

lemma advanceTail (h : SameStream c s s') (id : UInt64) :
    Agree (SameStream c) (s.advanceTail checks id) (s'.advanceTail checks id) := by
  rw [Stream.advanceTail, Stream.advanceTail, h.tail]
  split_ifs
  · exact h.setTail id
  · exact ⟨rfl, h⟩

lemma evictFirst (h : SameStream c s s') :
    Agree (SameStream c) (s.evictFirst checks) (s'.evictFirst checks) := by
  rw [Stream.evictFirst, Stream.evictFirst]
  have hlist := h.messages.forall₂_toList
  cases hs : s.messages.toList with
  | nil =>
    rw [hs, List.forall₂_nil_left_iff] at hlist
    rw [hlist]
    exact ⟨rfl, h⟩
  | cons e l =>
    rw [hs, List.forall₂_cons_left_iff] at hlist
    obtain ⟨e', l', ⟨hkey, -⟩, -, hs'⟩ := hlist
    rw [hs', List.head?_cons, List.head?_cons]
    obtain ⟨k, m⟩ := e
    obtain ⟨k', m'⟩ := e'
    obtain rfl : k = k' := hkey
    have herase := h.erase k
    simp only
    cases add checks k 1 with
    | ok head => exact ⟨rfl, herase.name, herase.messages, rfl, herase.tail⟩
    | error x => exact ⟨rfl, herase⟩

lemma evictLoop (h : SameStream c s s') (bufferSize fuel : ℕ) :
    Option.Rel (Agree (SameStream c)) (s.evictLoop checks bufferSize fuel)
      (s'.evictLoop checks bufferSize fuel) := by
  induction fuel generalizing s s' with
  | zero => exact .none
  | succ fuel ih =>
    rw [Stream.evictLoop, Stream.evictLoop, h.messages.size_eq]
    split_ifs
    · have hfirst : Agree (SameStream c) (s.evictFirst checks) (s'.evictFirst checks) :=
        h.evictFirst
      revert hfirst
      obtain ⟨r, t⟩ := s.evictFirst checks
      obtain ⟨r', t'⟩ := s'.evictFirst checks
      rintro ⟨hr, ht⟩
      obtain rfl : r = r' := hr
      cases r with
      | ok a => exact ih ht
      | error x => exact .some ⟨rfl, ht⟩
    · exact .some ⟨rfl, h⟩

lemma evict (h : SameStream c s s') (bufferSize : ℕ) :
    Agree (SameStream c) (s.evict checks bufferSize) (s'.evict checks bufferSize) := by
  rw [Stream.evict, Stream.evict, h.messages.size_eq]
  have hloop : Option.Rel (Agree (SameStream c)) (s.evictLoop checks bufferSize _)
      (s'.evictLoop checks bufferSize _) := h.evictLoop bufferSize (s'.messages.size + 1)
  revert hloop
  cases s.evictLoop checks bufferSize (s'.messages.size + 1) <;>
    cases s'.evictLoop checks bufferSize (s'.messages.size + 1) <;> intro hloop
  · exact ⟨rfl, h⟩
  · cases hloop
  · cases hloop
  · cases hloop with
    | some hagree => exact hagree

lemma createMessage (h : SameStream c s s') (id : UInt64) :
    Agree (SameStream c) (s.createMessage checks id) (s'.createMessage checks id) :=
  (h.insert id (.raw .new)).advanceTail id

lemma writeHead (h : SameStream c s s') (data : Vec) :
    Agree (SameStream c) (s.writeHead data) (s'.writeHead data) := by
  rw [Stream.writeHead, Stream.writeHead]
  split
  · exact ⟨rfl, h.name, h.messages, rfl, h.tail⟩
  · exact ⟨rfl, h⟩

/-- What follows when a message has been stored. -/
lemma evict_ok (h : SameStream c s s') (bufferSize : ℕ) (n : UInt64) :
    Agree (SameStream c) (andThen (s.evict checks bufferSize) fun _ s => (.ok n, s))
      (andThen (s'.evict checks bufferSize) fun _ s => (.ok n, s)) :=
  (h.evict bufferSize).andThen fun _ _ _ hs => ⟨rfl, hs⟩

lemma existing_eq (h : SameStream c s s') (id : UInt64) :
    s'.existing (config.withCompression c) id = s.existing config id := by
  rw [Stream.existing, Stream.existing]
  rcases h.messages.get?_cases id with ⟨hm, hm'⟩ | ⟨m, m', hm, hm', hsame⟩
  · rw [hm, hm']
  · rw [hm, hm']
    exact hsame.bytes_eq

/-- The messages that a write to a message file stores are the same. -/
lemma newMessage (h : SameStream c s s') (hplain : config.compression = none)
    (hc : ∀ d, ∃ z, c.compress d = .ok z ∧ c.decompress z = .ok d) {id : UInt64} {data : Vec}
    {offset : Int64}
    (hshort : ∀ m, s.newMessage checks config id data offset = .ok m → m.len.toNat < 2 ^ 32) :
    (∃ e, s.newMessage checks config id data offset = .error e ∧
      s'.newMessage checks (config.withCompression c) id data offset = .error e) ∨
    ∃ m m', s.newMessage checks config id data offset = .ok m ∧
      s'.newMessage checks (config.withCompression c) id data offset = .ok m' ∧
      SameMessage c m m' := by
  rw [Stream.newMessage] at hshort
  rw [Stream.newMessage, Stream.newMessage, h.existing_eq]
  cases hold : s.existing config id with
  | error e => exact Or.inl ⟨e, rfl, rfl⟩
  | ok old =>
    rw [hold] at hshort
    simp only [bind, Except.bind] at hshort ⊢
    cases hnew : writeAt checks old data offset with
    | error e => exact Or.inl ⟨e, rfl, rfl⟩
    | ok d =>
      rw [hnew] at hshort
      have hraw : bytesToMessageStorage config d = .ok (.raw d) := by
        rw [bytesToMessageStorage, hplain]
      have hlen := hshort _ hraw
      rw [MessageStorage.len, Vec.toNat_len] at hlen
      obtain ⟨m', hm, hm', hsame⟩ := bytesToMessageStorage_withCompression hplain hc hlen
      exact Or.inr ⟨_, m', hm, hm', hsame⟩

lemma writeMessage (h : SameStream c s s') (hplain : config.compression = none)
    (hc : ∀ d, ∃ z, c.compress d = .ok z ∧ c.decompress z = .ok d) {id : UInt64} {data : Vec}
    {offset : Int64}
    (hshort : ∀ m, s.newMessage checks config id data offset = .ok m → m.len.toNat < 2 ^ 32) :
    Agree (SameStream c) (s.writeMessage checks config id data offset)
      (s'.writeMessage checks (config.withCompression c) id data offset) := by
  rw [Stream.writeMessage, Stream.writeMessage]
  rcases h.newMessage hplain hc hshort with ⟨e, he, he'⟩ | ⟨m, m', hm, hm', hsame⟩
  · rw [he, he']
    exact ⟨rfl, h⟩
  · rw [hm, hm']
    exact ((h.insert id hsame).advanceTail id).andThen fun _ _ _ hs => hs.evict_ok _ _

lemma writeTail (h : SameStream c s s') (hplain : config.compression = none)
    (hc : ∀ d, ∃ z, c.compress d = .ok z ∧ c.decompress z = .ok d) {data : Vec}
    (hshort : data.bytes.length < 2 ^ 32) :
    Agree (SameStream c) (s.writeTail checks config data)
      (s'.writeTail checks (config.withCompression c) data) := by
  obtain ⟨m', hm, hm', hsame⟩ := bytesToMessageStorage_withCompression hplain hc hshort
  rw [Stream.writeTail, Stream.writeTail, hm, hm', h.tail]
  exact ((h.insert s.tail hsame).setTail s.tail).andThen fun _ _ _ hs => hs.evict_ok _ _

lemma messageEntries_eq (h : SameStream c s s') (name : Bytes) (now : DateTime) :
    s'.messageEntries name now = s.messageEntries name now := by
  rw [Stream.messageEntries, Stream.messageEntries, ← List.forall₂_eq_eq_eq,
    List.forall₂_map_left_iff, List.forall₂_map_right_iff]
  refine h.messages.forall₂_toList.flip.imp ?_
  rintro ⟨k', m'⟩ ⟨k, m⟩ ⟨hk, hm⟩
  obtain rfl : k = k' := hk
  show FileMetadata.file _ m'.len now = .file _ m.len now
  rw [hm.len_eq]

end SameStream

/-! ### The operations -/

namespace StreamFS

variable {fs fs' : StreamFS}

namespace Same

lemma updateStream {A : Type} (h : fs.Same c fs') {path : PathBuf} {name : Bytes}
    {f f' : Stream → Result A × Stream}
    (hf : ∀ s s', fs.streams[name]? = some s → SameStream c s s' →
      Agree (SameStream c) (f s) (f' s')) :
    Agree (Same c) (fs.updateStream path name f) (fs'.updateStream path name f') := by
  rw [StreamFS.updateStream, StreamFS.updateStream]
  rcases h.streams.get?_cases name with ⟨hs, hs'⟩ | ⟨s, s', hs, hs', hsame⟩
  · rw [hs, hs']
    exact ⟨rfl, h⟩
  · rw [hs, hs']
    have hagree := hf s s' hs hsame
    exact ⟨hagree.result, h.plain, h.config, h.streams.insert name hagree.state⟩

lemma onStream {A : Type} (h : fs.Same c fs') {path : PathBuf} {name : Bytes}
    {f f' : Stream → Result A} (hf : ∀ s s', SameStream c s s' → f' s' = f s) :
    fs'.onStream path name f' = fs.onStream path name f := by
  rw [StreamFS.onStream, StreamFS.onStream]
  rcases h.streams.get?_cases name with ⟨hs, hs'⟩ | ⟨s, s', hs, hs', hsame⟩
  · rw [hs, hs']
  · rw [hs, hs']
    exact hf s s' hsame

lemma onMessage {A : Type} (h : fs.Same c fs') {path : PathBuf} {name : Bytes} {id : UInt64}
    {f f' : MessageStorage → Result A} (hf : ∀ m m', SameMessage c m m' → f' m' = f m) :
    fs'.onMessage path name id f' = fs.onMessage path name id f := by
  rw [StreamFS.onMessage, StreamFS.onMessage]
  refine h.onStream fun s s' hs => ?_
  rcases hs.messages.get?_cases id with ⟨hm, hm'⟩ | ⟨m, m', hm, hm', hsame⟩
  · rw [hm, hm']
  · rw [hm, hm']
    exact hf m m' hsame

end Same

/-- The message that a call stores is shorter than 2^32 bytes. -/
def Short (checks : Bool) (fs : StreamFS) (d : StreamOp × DateTime) : Prop :=
  ∀ name call s id m, d.1.call = some (name, call) → fs.streams[name]? = some s →
    call.stores checks fs.config s = some (id, m) → m.len.toNat < 2 ^ 32

namespace Same

lemma create (h : fs.Same c fs') (path : PathBuf) :
    Agree (Same c) (fs.create checks path) (fs'.create checks path) := by
  rw [StreamFS.create, StreamFS.create]
  split
  · exact h.updateStream fun s s' _ hs => hs.createMessage _
  · exact h.updateStream fun s s' _ hs => ⟨rfl, hs.name, hs.messages, rfl, hs.tail⟩
  · exact ⟨rfl, h⟩

lemma write (h : fs.Same c fs') (hc : ∀ d, ∃ z, c.compress d = .ok z ∧ c.decompress z = .ok d)
    {path : PathBuf} {data : Vec} {offset : Int64} {flags : WriteFlags} {now : DateTime}
    (hshort : fs.Short checks (.write path data offset flags, now)) :
    Agree (Same c) (fs.write checks path data offset flags)
      (fs'.write checks path data offset flags) := by
  rw [StreamFS.write, StreamFS.write, h.config]
  cases hparse : parsePath (normalizePath path) with
  | none => exact ⟨rfl, h⟩
  | some p =>
    cases p with
    | Message name id =>
      have hcall : (StreamOp.write path data offset flags).call =
          some (name, .writeMessage id data offset) := by simp [StreamOp.call, hparse]
      refine h.updateStream fun s s' hget hs => hs.writeMessage h.plain hc fun m hm => ?_
      exact hshort name _ s id m hcall hget (by simp [StreamCall.stores, hm, Except.toOption])
    | Tail name =>
      have hcall : (StreamOp.write path data offset flags).call = some (name, .writeTail data) := by
        simp [StreamOp.call, hparse]
      refine h.updateStream fun s s' hget hs => hs.writeTail h.plain hc ?_
      have hraw : bytesToMessageStorage fs.config data = .ok (.raw data) := by
        rw [bytesToMessageStorage, h.plain]
      have hstores : (StreamCall.writeTail data).stores checks fs.config s =
          some (s.tail, .raw data) := by
        rw [StreamCall.stores, hraw]
        rfl
      have hlen := hshort name _ s s.tail _ hcall hget hstores
      rwa [MessageStorage.len, Vec.toNat_len] at hlen
    | Head name => exact h.updateStream fun s s' _ hs => hs.writeHead data
    | _ => exact ⟨rfl, h⟩

lemma mkdir (h : fs.Same c fs') (path : PathBuf) (perm : UInt32) :
    Agree (Same c) (fs.mkdir path perm) (fs'.mkdir path perm) := by
  rw [StreamFS.mkdir, StreamFS.mkdir]
  split
  · exact ⟨rfl, h⟩
  · rw [createStream, createStream, ← h.streams.size_eq, ← h.streams.contains_eq, h.config]
    show Agree _ (if _ then _ else _) (if fs.streams.size ≥ fs.config.maxStreams then _ else _)
    split_ifs
    · exact ⟨rfl, h⟩
    · exact ⟨rfl, h⟩
    · exact ⟨rfl, h.plain, rfl, h.streams.insert _ (.new _)⟩
  · rw [h.streams.contains_eq]
    exact ⟨rfl, h⟩
  · exact ⟨rfl, h⟩

lemma remove (h : fs.Same c fs') (path : PathBuf) :
    Agree (Same c) (fs.remove path) (fs'.remove path) := by
  rw [StreamFS.remove, StreamFS.remove]
  split
  · refine h.updateStream fun s s' _ hs => ⟨?_, hs.erase _⟩
    show (if s.messages.contains _ then _ else _) = if s'.messages.contains _ then _ else _
    rw [hs.messages.contains_eq]
  · rw [h.streams.contains_eq]
    exact ⟨rfl, h.plain, h.config, h.streams.erase _⟩
  · exact ⟨rfl, h⟩

lemma read (h : fs.Same c fs') (path : PathBuf) (offset size : Int64) :
    fs'.read checks path offset size = fs.read checks path offset size := by
  rw [StreamFS.read, StreamFS.read, h.config]
  split
  · exact h.onMessage fun m m' hm => by rw [hm.bytes_eq]
  · exact h.onStream fun s s' hs => by rw [hs.head]
  · exact h.onStream fun s s' hs => by rw [hs.tail]
  · refine h.onStream fun s s' hs => ?_
    rw [Stream.configText, Stream.configText, hs.name, hs.head, hs.tail]
    rfl
  · rfl

lemma stat (h : fs.Same c fs') (path : PathBuf) (now : DateTime) :
    fs'.stat path now = fs.stat path now := by
  rw [StreamFS.stat, StreamFS.stat]
  split
  all_goals first
    | rfl
    | exact h.onStream fun s s' _ => rfl
    | exact h.onMessage fun m m' hm => by rw [hm.len_eq]

lemma readDir (h : fs.Same c fs') (path : PathBuf) (now : DateTime) :
    fs'.readDir path now = fs.readDir path now := by
  rw [StreamFS.readDir, StreamFS.readDir, h.streams.keys_eq]
  split
  · rfl
  · rfl
  · exact h.onStream fun s s' _ => rfl
  · exact h.onStream fun s s' hs => by rw [hs.messageEntries_eq]
  · rfl

/-- A call returns the same with and without a compressor, and leaves the same behind. -/
theorem exec (h : fs.Same c fs') (hc : ∀ d, ∃ z, c.compress d = .ok z ∧ c.decompress z = .ok d)
    {d : StreamOp × DateTime} (hshort : fs.Short checks d) :
    Agree (Same c) (fs.exec checks d.2 d.1) (fs'.exec checks d.2 d.1) := by
  obtain ⟨op, now⟩ := d
  cases op with
  | create path => exact (h.create path).map _
  | write path data offset flags => exact (h.write hc hshort).map _
  | mkdir path perm => exact (h.mkdir path perm).map _
  | remove path => exact (h.remove path).map _
  | removeAll path => exact (h.remove path).map _
  | rename oldPath newPath => exact ⟨rfl, h⟩
  | truncate path size => exact ⟨rfl, h⟩
  | touch path =>
    refine ⟨?_, h⟩
    show ((fs.stat (normalizePath path) now).map _).map _ =
      ((fs'.stat (normalizePath path) now).map _).map _
    rw [h.stat]
  | chmod path mode => exact ⟨rfl, h⟩
  | read path offset size =>
    refine ⟨?_, h⟩
    show (fs.read checks path offset size).map _ = (fs'.read checks path offset size).map _
    rw [h.read]
  | stat path =>
    refine ⟨?_, h⟩
    show (fs.stat path now).map _ = (fs'.stat path now).map _
    rw [h.stat]
  | readDir path =>
    refine ⟨?_, h⟩
    show (fs.readDir path now).map _ = (fs'.readDir path now).map _
    rw [h.readDir]

end Same

/-- What the calls of a run return. -/
def results (checks : Bool) (fs : StreamFS) : List (StreamOp × DateTime) → List (Result Reply)
  | [] => []
  | d :: calls =>
    (fs.exec checks d.2 d.1).1 :: results checks (fs.exec checks d.2 d.1).2 calls

lemma Same.results_eq (h : fs.Same c fs')
    (hc : ∀ d, ∃ z, c.compress d = .ok z ∧ c.decompress z = .ok d)
    {calls : List (StreamOp × DateTime)}
    (hshort : StepsMeet (opStep checks) (Short checks) fs calls) :
    fs'.results checks calls = fs.results checks calls := by
  induction calls generalizing fs fs' with
  | nil => rfl
  | cons d calls ih =>
    obtain ⟨hd, hrest⟩ := hshort _ rfl
    have hagree := h.exec hc hd
    rw [results, results, hagree.result, ih hagree.state hrest]

/-- **Compression is invisible.**  With a compressor that never fails and whose output can be
decompressed, all calls of a run return what they return without a compressor, as long as all
messages that are stored are shorter than 2^32 bytes. -/
theorem results_compressed (checks : Bool) (config : StreamConfig) (c : Compression)
    (hc : ∀ d, ∃ z, c.compress d = .ok z ∧ c.decompress z = .ok d)
    (calls : List (StreamOp × DateTime))
    (hshort : StepsMeet (opStep checks) (Short checks) (.new { config with compression := none })
      calls) :
    (StreamFS.new { config with compression := some c }).results checks calls =
      (StreamFS.new { config with compression := none }).results checks calls :=
  Same.results_eq ⟨rfl, rfl, .empty⟩ hc hshort

/-- Whether a call is short can be computed. -/
lemma short_iff {fs : StreamFS} {d : StreamOp × DateTime} :
    fs.Short checks d ↔ (d.1.call.bind fun p => fs.streams[p.1]?.bind fun s =>
      p.2.stores checks fs.config s).all (fun e => decide (e.2.len.toNat < 2 ^ 32)) = true := by
  simp only [Short, Option.all_eq_true, Option.bind_eq_some_iff, decide_eq_true_eq]
  constructor
  · rintro h ⟨id, m⟩ ⟨⟨name, call⟩, hcall, s, hs, hstores⟩
    exact h name call s id m hcall hs hstores
  · intro h name call s id m hcall hs hstores
    exact h (id, m) ⟨(name, call), hcall, s, hs, hstores⟩

/-- A message is sent, written to in its middle, and read. -/
def rewritten : List (StreamOp × DateTime) :=
  [(.mkdir ⟨ascii "/streams/s"⟩ 0o755, 0),
    (.write ⟨ascii "/streams/s/tail"⟩ ⟨ascii "abc", length_abc_le⟩ 0 .NONE, 1),
    (.write ⟨ascii "/streams/s/data/1.msg"⟩ ⟨ascii "xyz", length_xyz_le⟩ 1 .NONE, 2),
    (.read ⟨ascii "/streams/s/data/000001.msg"⟩ 0 (-1), 3), (.readDir ⟨ascii "/streams/s/data"⟩, 4)]

theorem results_compressed_rewritten :
    (StreamFS.new ⟨2, 1, some .reversing⟩).results true rewritten =
      (StreamFS.new ⟨2, 1, none⟩).results true rewritten ∧
    ((StreamFS.new ⟨2, 1, none⟩).results true rewritten)[3]? =
      some (.ok (.data (ascii "axyz"))) := by
  refine ⟨results_compressed true ⟨2, 1, none⟩ .reversing (fun d => ⟨_, rfl, ?_⟩) rewritten ?_, ?_⟩
  · exact Compression.lossless_reversing d _ rfl
  · rintro _ ⟨⟩
    refine ⟨short_iff.2 (by decide), ?_⟩
    rintro _ ⟨⟩
    refine ⟨short_iff.2 (by decide), ?_⟩
    rintro _ ⟨⟩
    refine ⟨short_iff.2 (by decide), ?_⟩
    rintro _ ⟨⟩
    refine ⟨short_iff.2 (by decide), ?_⟩
    rintro _ ⟨⟩
    exact ⟨short_iff.2 (by decide), trivial⟩
  · rfl

end StreamFS

end Racfs.StreamFs
