/-
# Writing to a message

A write to the file of a message stores the old content with the data written over it at the
offset (`bytes_of_writeAt`), and then evicts the first messages until the buffer is not too full.
The message that has just been written can be one of these: it is kept exactly if fewer messages
than the buffer has room for have larger numbers (`mem_writeMessage_iff`).  If it is not, the write
has returned `Ok`, and a read does not find the message (`readsBack_iff`).
-/
import Racfs.Lib.Offset
import Racfs.Lib.Overlay
import Racfs.StreamFs.Listing

namespace Racfs.StreamFs

variable {checks : Bool}

/-! ### What is stored -/

lemma grow_eq_ok {v w : Vec} {n : UInt64} (h : v.grow n = .ok w) :
    w.bytes = if n.toNat > v.bytes.length then resize v.bytes n.toNat else v.bytes := by
  rw [Vec.grow] at h
  split_ifs at h ⊢
  · rw [Vec.resize] at h
    split_ifs at h
    rw [← Except.ok.inj h]
  · rw [← Except.ok.inj h]

/-- The data over the old content at the offset. -/
lemma bytes_of_writeAt {msg data d : Vec} {offset : Int64}
    (h : writeAt checks msg data offset = .ok d) :
    d.bytes = overlay msg.bytes (offset.toUInt64.toNat, data.bytes) := by
  rw [writeAt] at h
  cases hgrown : msg.grow offset.toUInt64 with
  | error e => rw [hgrown] at h; cases h
  | ok v =>
    have hsum : offset.toUInt64.toNat + data.len.toNat < 2 ^ 64 := toNat_add_lt_of_grow hgrown
    have hstop : (offset.toUInt64 + data.len).toNat =
        offset.toUInt64.toNat + data.bytes.length := by
      rw [UInt64.toNat_add, Nat.mod_eq_of_lt hsum, data.toNat_len]
    have hv := grow_eq_ok hgrown
    simp only [hgrown, add_of_lt hsum, bind, Except.bind] at h
    cases hgrown' : v.grow (offset.toUInt64 + data.len) with
    | error e => rw [hgrown'] at h; cases h
    | ok w =>
      have hw := grow_eq_ok hgrown'
      simp only [hgrown', Vec.copyFromSlice] at h
      split_ifs at h
      rw [← Except.ok.inj h, ← overlay_grown]
      dsimp only
      rw [hw, hstop, hv]
      rfl

/-! ### What is kept -/

namespace Stream

variable {config : StreamConfig} {s : Stream}

/-- What a write that returns a length has stored, and what it leaves. -/
lemma stored_of_writeMessage {id : UInt64} {data : Vec} {offset : Int64} {n : UInt64}
    (h : (s.writeMessage checks config id data offset).1 = .ok n) :
    ∃ m, s.newMessage checks config id data offset = .ok m ∧
      (s.withMessage id m).Evicted checks config.bufferSize (.ok ())
        (s.writeMessage checks config id data offset).2 := by
  have hexec : (s.exec checks config (.writeMessage id data offset)).1 = .ok () := by
    show ((s.writeMessage checks config id data offset).1.map fun _ => ()) = _
    rw [h]
    rfl
  cases hnew : s.newMessage checks config id data offset with
  | error e =>
    rw [writeMessage, hnew] at h
    cases h
  | ok m =>
    have hstores : (StreamCall.writeMessage id data offset).stores checks config s =
        some (id, m) := by
      simp only [StreamCall.stores, hnew]
      rfl
    refine ⟨m, rfl, ?_⟩
    have hstored := stored_of_stores hstores
    rw [hexec] at hstored
    cases hstored with
    | panicked _ _ _ hr => cases hr
    | stored _ hs => exact hs

/-- The message that has been written is kept when there is room for all with larger numbers and
for it. -/
lemma mem_writeMessage_iff {id : UInt64} {m : MessageStorage} {r : Result Unit} {s' : Stream}
    (h : (s.withMessage id m).Evicted checks config.bufferSize r s') :
    id ∈ s'.messages ↔ s.messages.keys.countP (fun k => id < k) < config.bufferSize := by
  have hmem : id ∈ (s.withMessage id m).messages := Std.TreeMap.mem_insert_self
  have hcount : (s.withMessage id m).messages.keys.countP (fun k => compare id k = .lt) =
      s.messages.keys.countP (fun k => id < k) := by
    refine (TreeMap.countP_keys_insert ?_ m).trans (List.countP_congr fun k _ => ?_)
    · simp
    · simp [Std.compare_eq_lt]
  rw [← Std.TreeMap.mem_keys, h.keys, TreeMap.mem_drop_keys_iff hmem, hcount]

/-- What is stored is read as the old content with the data over it. -/
lemma readBack_of_newMessage (hlossless : ∀ c, config.compression = some c → c.Lossless)
    {id : UInt64} {data : Vec} {offset : Int64} {m : MessageStorage}
    (h : s.newMessage checks config id data offset = .ok m) :
    ∃ old d, s.existing config id = .ok old ∧ messageStorageToBytes config m = .ok d ∧
      d.bytes = overlay old.bytes (offset.toUInt64.toNat, data.bytes) := by
  rw [newMessage] at h
  cases hold : s.existing config id with
  | error e => rw [hold] at h; cases h
  | ok old =>
    simp only [hold, bind, Except.bind] at h
    cases hwritten : writeAt checks old data offset with
    | error e => rw [hwritten] at h; cases h
    | ok d =>
      rw [hwritten] at h
      exact ⟨old, d, rfl, messageStorageToBytes_of_stored hlossless h, bytes_of_writeAt hwritten⟩

end Stream

namespace StreamFS

variable {fs : StreamFS} {path : PathBuf} {name : Bytes} {id : UInt64} {s : Stream}

/-- The content of a message: what a read of all of it returns, and nothing if there is no
message. -/
def content (checks : Bool) (fs : StreamFS) (path : PathBuf) (name : Bytes) (id : UInt64) :
    Result Bytes :=
  match fs.streams[name]?.bind fun s => s.messages[id]? with
  | some _ => fs.read checks path 0 (-1)
  | none => .ok []

/-- After a write, a read of the message returns the content before it with the data written over
it at the offset; a gap is filled with zeros. -/
def ReadsBack (checks : Bool) (fs : StreamFS) (path : PathBuf) (name : Bytes) (id : UInt64)
    (data : Vec) (offset : Int64) (fs' : StreamFS) : Prop :=
  ∃ old, fs.content checks path name id = .ok old ∧
    fs'.read checks path 0 (-1) = .ok (overlay old (offset.toInt.toNat, data.bytes))

/-- A read of a message. -/
lemma read_message (hpath : parsePath (normalizePath path) = some (.Message name id))
    (hs : fs.streams[name]? = some s) :
    fs.read checks path 0 (-1) = match s.messages[id]? with
      | some stored => (messageStorageToBytes fs.config stored).map fun d => d.bytes
      | none => .error (.err (.NotFound (normalizePath path))) := by
  simp only [read, hpath, onMessage, onStream, hs]
  cases s.messages[id]? with
  | none => rfl
  | some stored =>
    dsimp only
    cases messageStorageToBytes fs.config stored with
    | error e => rfl
    | ok d => exact readAt_whole checks d

/-- The content that a write begins with. -/
lemma content_of_existing (hpath : parsePath (normalizePath path) = some (.Message name id))
    (hs : fs.streams[name]? = some s) {old : Vec} (hold : s.existing fs.config id = .ok old) :
    fs.content checks path name id = .ok old.bytes := by
  rw [content, read_message hpath hs, hs, Option.bind_some]
  rw [Stream.existing] at hold
  cases hget : s.messages[id]? with
  | none =>
    rw [hget] at hold
    rw [← Except.ok.inj hold]
    rfl
  | some stored =>
    rw [hget] at hold
    dsimp only at hold ⊢
    rw [hold]
    rfl

/-- A write to a message. -/
lemma write_message (hpath : parsePath (normalizePath path) = some (.Message name id))
    (hs : fs.streams[name]? = some s) (data : Vec) (offset : Int64) (flags : WriteFlags) :
    fs.write checks path data offset flags =
      ((s.writeMessage checks fs.config id data offset).1,
        { fs with streams :=
          fs.streams.insert name (s.writeMessage checks fs.config id data offset).2 }) := by
  simp only [write, hpath, updateStream, hs]

/-- In every state, after a write to a message that has returned `Ok`, a read returns what has been
written if and only if fewer messages of the stream than the buffer has room for have larger
numbers. -/
theorem readsBack_iff (hlossless : ∀ c, fs.config.compression = some c → c.Lossless)
    (hpath : parsePath (normalizePath path) = some (.Message name id))
    (hs : fs.streams[name]? = some s) {data : Vec} {offset : Int64} (hoffset : 0 ≤ offset)
    (flags : WriteFlags) {n : UInt64} {fs' : StreamFS}
    (hwrite : fs.write checks path data offset flags = (.ok n, fs')) :
    fs.ReadsBack checks path name id data offset fs' ↔
      s.messages.keys.countP (fun k => id < k) < fs.config.bufferSize := by
  rw [write_message hpath hs, Prod.mk.injEq] at hwrite
  obtain ⟨hok, rfl⟩ := hwrite
  obtain ⟨m, hnew, hevicted⟩ := Stream.stored_of_writeMessage hok
  obtain ⟨old, d, hold, hread, hd⟩ := Stream.readBack_of_newMessage hlossless hnew
  have hs' : (fs.streams.insert name (s.writeMessage checks fs.config id data offset).2)[name]? =
      some (s.writeMessage checks fs.config id data offset).2 :=
    Std.TreeMap.getElem?_insert_self
  rw [ReadsBack, content_of_existing hpath hs hold, read_message hpath hs',
    ← Stream.mem_writeMessage_iff hevicted, Std.TreeMap.mem_iff_isSome_getElem?]
  cases hget : (s.writeMessage checks fs.config id data offset).2.messages[id]? with
  | none =>
    refine iff_of_false ?_ Bool.false_ne_true
    rintro ⟨_, _, h⟩
    cases h
  | some m' =>
    -- what is there is what has been stored
    have hstored : (s.withMessage id m).messages[id]? = some m :=
      Std.TreeMap.getElem?_insert_self
    obtain rfl := Option.some.inj (hstored.symm.trans (hevicted.get?_of_get? hget))
    refine iff_of_true ⟨old.bytes, rfl, ?_⟩ rfl
    show (messageStorageToBytes fs.config m).map _ = _
    rw [hread, ← Offset.toNat_of_nonneg hoffset, ← hd]
    rfl

/-- A stream with one message. -/
def oneMessage : List (StreamOp × DateTime) :=
  [(.mkdir ⟨ascii "/streams/s"⟩ 0o755, 0),
    (.write ⟨ascii "/streams/s/tail"⟩ ⟨ascii "abc", length_abc_le⟩ 0 .NONE, 1)]

/-- A write into the message is read back. -/
theorem readsBack_oneMessage :
    ∃ fs fs', run (opStep true) (.new ⟨1, 1, none⟩) oneMessage = some fs ∧
      fs.write true ⟨ascii "/streams/s/data/1.msg"⟩ ⟨ascii "XY", by decide⟩ 1 .NONE =
        (.ok 2, fs') ∧
      fs.ReadsBack true ⟨ascii "/streams/s/data/1.msg"⟩ (ascii "s") 1 ⟨ascii "XY", by decide⟩ 1
        fs' := by
  have hlossless : ∀ c, (StreamConfig.mk 1 1 none).compression = some c → c.Lossless := nofun
  refine ⟨_, _, rfl, rfl, ?_⟩
  exact (readsBack_iff hlossless rfl rfl (by decide) .NONE rfl).2 (by decide)

/-- In a full stream, a write to a number before all others returns `Ok`, and the message is not
there. -/
theorem not_readsBack_firstNumber :
    ∃ fs fs', Reachable (opStep true) (.new ⟨1, 1, none⟩) fs ∧
      fs.write true ⟨ascii "/streams/s/data/0.msg"⟩ ⟨ascii "x", by decide⟩ 0 .NONE =
        (.ok 1, fs') ∧
      fs'.read true ⟨ascii "/streams/s/data/0.msg"⟩ 0 (-1) =
        .error (.err (.NotFound ⟨ascii "/streams/s/data/0.msg"⟩)) ∧
      ¬ fs.ReadsBack true ⟨ascii "/streams/s/data/0.msg"⟩ (ascii "s") 0 ⟨ascii "x", by decide⟩ 0
        fs' := by
  refine ⟨_, _, ⟨oneMessage, rfl⟩, rfl, rfl, ?_⟩
  rintro ⟨old, -, h⟩
  cases h

end StreamFS

end Racfs.StreamFs
