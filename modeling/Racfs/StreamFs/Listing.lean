/-
# Listing the messages of a stream

The files of the messages are named by their numbers.  What is listed for a stream is one file
for each message: its path stands for the stream and the number, and its size is the length of
what is read from it (`roundTrip_of_reachable`).
-/
import Racfs.StreamFs.Paths
import Racfs.StreamFs.RingBuffer

namespace Racfs.StreamFs

/-! ### Reading a whole message -/

lemma readAt_whole (checks : Bool) (d : Vec) : readAt checks d 0 (-1) = .ok d.bytes := by
  have hend : readEnd checks d 0 (-1) = .ok d.len := by
    rw [readEnd, if_pos (by decide)]
  rw [readAt, hend]
  simp only [bind, Except.bind, if_neg (show ¬ (0 : Int64) < 0 by decide)]
  split_ifs with hempty
  · rw [List.length_eq_zero_iff.1 (Nat.le_zero.1 hempty)]
  · rw [Vec.slice, if_pos ⟨Nat.zero_le _, d.toNat_len.le⟩, d.toNat_len, List.take_length]
    rfl

/-- A stored message can be read, and its length is known. -/
def MessageStorage.Readable (config : StreamConfig) (m : MessageStorage) : Prop :=
  ∃ d, messageStorageToBytes config m = .ok d ∧ d.len = m.len

variable {checks : Bool} {config : StreamConfig}

lemma readable_of_stored (hlossless : ∀ c, config.compression = some c → c.Lossless) {d : Vec}
    {m : MessageStorage} (h : bytesToMessageStorage config d = .ok m) : m.Readable config := by
  refine ⟨d, messageStorageToBytes_of_stored hlossless h, ?_⟩
  rw [bytesToMessageStorage] at h
  cases hc : config.compression with
  | none =>
    rw [hc] at h
    obtain rfl := Except.ok.inj h
    rfl
  | some c =>
    rw [hc] at h
    cases hz : c.compress d with
    | error x =>
      simp only [hz, Except.mapError, bind, Except.bind] at h
      cases h
    | ok z =>
      simp only [hz, Except.mapError, bind, Except.bind] at h
      split_ifs at h with hlen
      obtain rfl := Except.ok.inj h
      exact (toUInt64_toUInt32 hlen).symm

/-- All messages of a stream can be read. -/
def Stream.Readable (config : StreamConfig) (s : Stream) : Prop :=
  ∀ (id : UInt64) (m : MessageStorage), s.messages[id]? = some m → m.Readable config

/-- What a call stores can be read. -/
lemma readable_of_stores (hlossless : ∀ c, config.compression = some c → c.Lossless) {s : Stream}
    {c : StreamCall} {id : UInt64} {m : MessageStorage}
    (h : c.stores checks config s = some (id, m)) : m.Readable config := by
  obtain ⟨d, hd⟩ : ∃ d, bytesToMessageStorage config d = .ok m := by
    cases c with
    | writeMessage id' data offset =>
      cases hnew : s.newMessage checks config id' data offset with
      | error e => simp [StreamCall.stores, hnew, Except.toOption] at h
      | ok m' =>
        simp only [StreamCall.stores, hnew, Except.toOption, Option.map_some, Option.some.injEq,
          Prod.mk.injEq] at h
        obtain ⟨rfl, rfl⟩ := h
        rw [Stream.newMessage] at hnew
        cases hold : s.existing config id' with
        | error e => rw [hold] at hnew; cases hnew
        | ok old =>
          rw [hold] at hnew
          simp only [bind, Except.bind] at hnew
          cases hwrite : writeAt checks old data offset with
          | error e => rw [hwrite] at hnew; cases hnew
          | ok d => rw [hwrite] at hnew; exact ⟨d, hnew⟩
    | writeTail data =>
      cases hnew : bytesToMessageStorage config data with
      | error e => simp [StreamCall.stores, hnew, Except.toOption] at h
      | ok m' =>
        simp only [StreamCall.stores, hnew, Except.toOption, Option.map_some, Option.some.injEq,
          Prod.mk.injEq] at h
        exact ⟨data, h.2 ▸ hnew⟩
    | _ => cases h
  exact readable_of_stored hlossless hd

namespace Stream

variable {s : Stream}

lemma Readable.insert (h : s.Readable config) (id : UInt64) {m : MessageStorage}
    (hm : m.Readable config) : (s.insert id m).Readable config := by
  intro id' m' hget
  have hget' : (s.messages.insert id m)[id']? = some m' := hget
  rw [Std.TreeMap.getElem?_insert] at hget'
  split_ifs at hget'
  · exact Option.some.inj hget' ▸ hm
  · exact h id' m' hget'

lemma Readable.exec (hlossless : ∀ c, config.compression = some c → c.Lossless)
    (h : s.Readable config) (c : StreamCall) : (s.exec checks config c).2.Readable config := by
  cases effect_exec checks config s c with
  | created id _ hs =>
    have hnew : (MessageStorage.raw .new).Readable config := ⟨.new, rfl, rfl⟩
    have hinsert := h.insert id hnew
    cases hs with
    | panicked _ _ hs _ => rw [hs]; exact hinsert
    | stored _ hs => rw [hs.1]; exact hinsert
  | stored id m hstores hs =>
    have hinsert := h.insert id (readable_of_stores hlossless hstores)
    cases hs with
    | panicked _ _ hs _ => rw [hs]; exact hinsert
    | stored _ hs => exact fun id' m' hget => hinsert id' m' (hs.get?_of_get? hget)
  | refused _ _ hs _ => rw [hs]; exact h
  | head _ hs _ => rw [hs]; exact h
  | removed id _ hs _ =>
    rw [hs]
    intro id' m' hget
    have hget' : (s.messages.erase id)[id']? = some m' := hget
    rw [Std.TreeMap.getElem?_erase] at hget'
    split_ifs at hget'
    exact h id' m' hget'

end Stream

namespace StreamFS

variable {fs : StreamFS}

lemma readable_of_reachable (hlossless : ∀ c, config.compression = some c → c.Lossless)
    (h : Reachable (opStep checks) (.new config) fs) :
    fs.config = config ∧ fs.AllStreams (Stream.Readable config) := by
  refine h.invariant (P := fun fs => fs.config = config ∧
    fs.AllStreams (Stream.Readable config)) ⟨rfl, allStreams_new _ config⟩ ?_
  rintro fs c fs' ⟨rfl, hreadable⟩ hstep
  obtain rfl := Option.some.inj hstep
  refine ⟨config_exec _ _ _ _, hreadable.exec (fun name id m hm => ?_) fun name call s _ _ hs =>
    hs.exec hlossless call⟩
  rw [Stream.new, Std.TreeMap.getElem?_emptyc] at hm
  cases hm

/-- The listing of the messages of a stream. -/
structure RoundTrip (checks : Bool) (fs : StreamFS) (name : Bytes) (s : Stream)
    (entries : List FileMetadata) : Prop where
  /-- There is one entry for each message. -/
  count : ∀ id, entries.countP (fun e => parsePath e.path = some (.Message name id)) =
    if id ∈ s.messages then 1 else 0
  /-- Every entry is that of a message, and its size is that of the file. -/
  entry : ∀ e ∈ entries, ∃ id ∈ s.messages, parsePath e.path = some (.Message name id) ∧
    (∀ now, ∃ m, fs.stat e.path now = .ok m ∧ m.size = e.size) ∧
    ∃ data, fs.read checks e.path 0 (-1) = .ok data ∧ data.length = e.size.toNat

lemma path_file (path : PathBuf) (size : UInt64) (now : DateTime) :
    (FileMetadata.file path size now).path = path := rfl

/-- The listing has one entry for each message. -/
lemma countP_messageEntries {name : Bytes} (hname : IsStreamName name) (s : Stream)
    (now : DateTime) (id : UInt64) :
    (s.messageEntries name now).countP (fun e => parsePath e.path = some (.Message name id)) =
      if id ∈ s.messages then 1 else 0 := by
  have hcount : (s.messageEntries name now).countP
      (fun e => parsePath e.path = some (.Message name id)) = s.messages.keys.count id := by
    rw [Stream.messageEntries, List.countP_map, ← Std.TreeMap.map_fst_toList_eq_keys, List.count,
      List.countP_map]
    refine List.countP_congr fun e _ => ?_
    simp [path_file, parsePath_messagePath hname]
  rw [hcount, List.Nodup.count Std.TreeMap.nodup_keys]
  simp only [Std.TreeMap.mem_keys]

/-- **Listing and reading.**  In every reachable state, the listing of a stream has one entry for
each message, the path of an entry stands for the stream and the number of the message, and its
size is that of the file and the length of what is read.  The path of any number stands for this
number. -/
theorem roundTrip_of_reachable (checks : Bool)
    (hlossless : ∀ c, config.compression = some c → c.Lossless) {fs : StreamFS}
    (h : Reachable (opStep checks) (.new config) fs) {name : Bytes} {s : Stream}
    (hs : fs.streams[name]? = some s) :
    (∀ now, ∃ entries, fs.readDir (partPath name (ascii "data")) now = .ok entries ∧
      fs.RoundTrip checks name s entries) ∧
    ∀ id, parsePath (messagePath name id) = some (.Message name id) := by
  have hname := named_of_reachable h name s hs
  obtain ⟨hconfig, hreadable⟩ := readable_of_reachable hlossless h
  refine ⟨fun now => ?_, parsePath_messagePath hname⟩
  have hperm : (sortByPath (s.messageEntries name now)).Perm (s.messageEntries name now) :=
    List.perm_insertionSort _ _
  refine ⟨sortByPath (s.messageEntries name now), ?_, fun id => ?_, fun e he => ?_⟩
  · simp only [readDir, normalizePath_partPath, parsePath_dataPath hname, onStream, hs]
  · rw [hperm.countP_eq, countP_messageEntries hname]
  · obtain ⟨⟨id, m⟩, hmem, rfl⟩ := List.mem_map.1 (hperm.mem_iff.1 he)
    have hget : s.messages[id]? = some m := Std.TreeMap.mem_toList_iff_getElem?_eq_some.1 hmem
    obtain ⟨d, hd, hlen⟩ := hreadable name s hs id m hget
    refine ⟨id, ?_, parsePath_messagePath hname id, ?_, d.bytes, ?_, ?_⟩
    · rw [Std.TreeMap.mem_iff_isSome_getElem?, hget]
      rfl
    · refine fun now' => ⟨.file (messagePath name id) m.len now', ?_, rfl⟩
      simp only [stat, path_file, normalizePath_messagePath, parsePath_messagePath hname, onMessage,
        onStream, hs, hget]
    · simp only [read, path_file, normalizePath_messagePath, parsePath_messagePath hname, onMessage,
        onStream, hs, hget, hconfig, hd, bind, Except.bind, readAt_whole]
    · show _ = m.len.toNat
      rw [← hlen, d.toNat_len]

/-- Two messages are sent, and one with a number of seven digits is created. -/
def longNumber : List (StreamOp × DateTime) :=
  [(.mkdir ⟨ascii "/streams/s"⟩ 0o755, 0),
    (.write ⟨ascii "/streams/s/tail"⟩ ⟨ascii "abc", length_abc_le⟩ 0 .NONE, 1),
    (.create ⟨ascii "/streams/s/data/1000000.msg"⟩, 2),
    (.write ⟨ascii "/streams/s/tail"⟩ ⟨ascii "xyz", length_xyz_le⟩ 0 .NONE, 3)]

/-- All three messages are listed, with sizes 3, 0 and 3. -/
theorem roundTrip_longNumber :
    ∃ fs, run (opStep true) (.new ⟨3, 1, some .reversing⟩) longNumber = some fs ∧
      ∃ s, fs.streams[ascii "s"]? = some s ∧ s.messages.keys = [1, 1000000, 1000001] ∧
        ∃ entries, fs.readDir (partPath (ascii "s") (ascii "data")) 4 = .ok entries ∧
          fs.RoundTrip true (ascii "s") s entries := by
  refine ⟨_, rfl, _, rfl, by decide, ?_⟩
  have hlossless : ∀ c, (StreamConfig.mk 3 1 (some .reversing)).compression = some c →
      c.Lossless := fun c hc => Option.some.inj hc ▸ Compression.lossless_reversing
  exact (roundTrip_of_reachable true hlossless ⟨longNumber, rfl⟩ rfl).1 4

end StreamFS

end Racfs.StreamFs
