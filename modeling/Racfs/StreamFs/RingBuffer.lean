/-
# The buffer of a stream

Every write that adds a message evicts the first messages until there is room, but creating a
message does not.  So no stream ever has more messages than its buffer has room for exactly when
nothing is created in a full stream (`bounded_iff`).  A stream that is only written to at its
tail is a ring buffer: it has the last messages, as many as there is room for, under consecutive
numbers (`ringBuffer_of_reachable`).
-/
import Racfs.StreamFs.Steps

namespace Racfs.StreamFs

/-! ### The number of messages -/

namespace Stream

variable {checks : Bool} {config : StreamConfig} {s : Stream}

/-- A message can be put at its place, or there is room for it. -/
def HasRoom (bufferSize : ℕ) (s : Stream) (id : UInt64) : Prop :=
  id ∈ s.messages ∨ s.messages.size < bufferSize

/-- A call that puts a message into the map and does not evict finds room.  These are the creation
of a message, and the write of a message with the largest number where additions are checked. -/
def FindsRoom (checks : Bool) (config : StreamConfig) (s : Stream) (c : StreamCall) : Prop :=
  (∀ id, c = .createMessage id → s.HasRoom config.bufferSize id) ∧
    ∀ id m, c.stores checks config s = some (id, m) → checks = true → id.toNat = 2 ^ 64 - 1 →
      s.HasRoom config.bufferSize id

lemma size_insert_le_iff {bufferSize : ℕ} (h : s.messages.size ≤ bufferSize) (id : UInt64)
    (m : MessageStorage) :
    (s.insert id m).messages.size ≤ bufferSize ↔ s.HasRoom bufferSize id := by
  rw [insert, HasRoom, Std.TreeMap.size_insert, ← Std.TreeMap.contains_iff_mem]
  split_ifs with hcontains
  · simp [hcontains, h]
  · rw [Nat.succ_le_iff]
    simp [hcontains]

/-- A call keeps the number of messages within the buffer exactly when it finds room. -/
theorem size_exec_le_iff (h : s.messages.size ≤ config.bufferSize) (c : StreamCall) :
    (s.exec checks config c).2.messages.size ≤ config.bufferSize ↔ s.FindsRoom checks config c := by
  have hcreate : ∀ {c : StreamCall}, (∀ id, c ≠ .createMessage id) →
      (s.FindsRoom checks config c ↔ ∀ id m, c.stores checks config s = some (id, m) →
        checks = true → id.toNat = 2 ^ 64 - 1 → s.HasRoom config.bufferSize id) :=
    fun hc => and_iff_right fun id hid => absurd hid (hc id)
  cases effect_exec checks config s c with
  | created id hc hs =>
    subst hc
    have hfinds : s.FindsRoom checks config (.createMessage id) ↔
        s.HasRoom config.bufferSize id :=
      ⟨fun h => h.1 id rfl, fun h => ⟨fun id' hid => (StreamCall.createMessage.inj hid) ▸ h, nofun⟩⟩
    rw [hfinds, ← size_insert_le_iff h id (.raw .new)]
    cases hs with
    | panicked _ _ hs' _ => rw [hs']
    | stored _ hs' => rw [hs'.1]; rfl
  | stored id m hc hs =>
    rw [hcreate (by rintro id' rfl; cases hc), hc]
    cases hs with
    | panicked hchecks hmax hs' _ =>
      rw [hs', size_insert_le_iff h]
      refine ⟨fun hroom id' m' heq _ _ => ?_, fun hroom => hroom id m rfl hchecks hmax⟩
      rwa [← (Prod.mk.inj (Option.some.inj heq)).1]
    | stored hne hs' =>
      refine iff_of_true hs'.size_le fun id' m' heq hchecks hmax => ?_
      rw [← (Prod.mk.inj (Option.some.inj heq)).1] at hmax
      exact absurd ⟨hchecks, hmax⟩ hne
  | refused hc hstores hs' _ =>
    rw [hs', hcreate (by rintro id' rfl; cases hc), hstores]
    exact iff_of_true h nofun
  | head hc hs' _ =>
    rw [hs']
    refine iff_of_true h ⟨?_, ?_⟩ <;> rcases hc with rfl | ⟨data, rfl⟩ <;> nofun
  | removed id hc hs' _ =>
    subst hc
    rw [hs']
    refine iff_of_true (le_trans ?_ h) ⟨nofun, nofun⟩
    exact Std.TreeMap.size_erase_le

end Stream

namespace StreamFS

/-- No stream has more messages than its buffer has room for. -/
def Bounded (fs : StreamFS) : Prop :=
  fs.AllStreams fun s => s.messages.size ≤ fs.config.bufferSize

/-- A call finds room for the message that it creates. -/
def FindsRoom (checks : Bool) (fs : StreamFS) (c : StreamOp × DateTime) : Prop :=
  ∀ name call s, c.1.call = some (name, call) → fs.streams[name]? = some s →
    s.FindsRoom checks fs.config call

variable {checks : Bool} {fs : StreamFS}

lemma bounded_exec_iff (h : fs.Bounded) (c : StreamOp × DateTime) :
    (fs.exec checks c.2 c.1).2.Bounded ↔ fs.FindsRoom checks c := by
  rw [Bounded, config_exec]
  constructor
  · intro hbounded name call s hcall hs
    rw [← Stream.size_exec_le_iff (h name s hs)]
    exact hbounded name _ (get?_exec_of_call hcall hs c.2)
  · intro hroom
    refine h.exec (fun _ => Nat.zero_le _) fun name call s hcall hs hsize => ?_
    exact (Stream.size_exec_le_iff hsize call).2 (hroom name call s hcall hs)

/-- **A bounded buffer.**  In all states of a run no stream has more messages than its buffer has
room for exactly when no message is created in a full stream, unless it is there already.
Where additions are checked, this must not happen either by a write of a message with the largest
number, which panics before it evicts. -/
theorem bounded_iff (checks : Bool) (config : StreamConfig) (calls : List (StreamOp × DateTime)) :
    StatesMeet (opStep checks) Bounded (.new config) calls ↔
      StepsMeet (opStep checks) (FindsRoom checks) (.new config) calls := by
  refine statesMeet_iff_stepsMeet (A := fun _ => True) (fun _ _ _ _ _ => trivial) ?_ trivial
    (allStreams_new _ config)
  intro fs c fs' _ hbounded hstep
  obtain rfl := Option.some.inj hstep
  exact bounded_exec_iff hbounded c

/-- A stream in which two messages are created. -/
def twoCreations : List (StreamOp × DateTime) :=
  [(.mkdir ⟨ascii "/streams/s"⟩ 0o755, 0), (.create ⟨ascii "/streams/s/data/1.msg"⟩, 1),
    (.create ⟨ascii "/streams/s/data/2.msg"⟩, 2)]

/-- A buffer with room for one message has two of them. -/
theorem not_bounded_twoCreations :
    ¬ ∀ checks config calls, StatesMeet (opStep checks) Bounded (.new config) calls := by
  intro h
  have hstates := h true ⟨1, 1, none⟩ twoCreations
  have hbounded := (((hstates.2 _ rfl).2 _ rfl).2 _ rfl) (ascii "s") _ rfl
  revert hbounded
  decide

end StreamFS

/-! ### Writes to the tail -/

/-- What is compressed can be decompressed. -/
def Compression.Lossless (c : Compression) : Prop :=
  ∀ d z, c.compress d = .ok z → c.decompress z = .ok d

/-- The simplest compressor that changes anything: it turns the bytes round. -/
def Compression.reversing : Compression :=
  let turn (d : Vec) : Vec := ⟨d.bytes.reverse, by
    rw [List.length_reverse]
    exact d.length_le⟩
  ⟨fun d => .ok (turn d), fun z => .ok (turn z)⟩

lemma Compression.lossless_reversing : Compression.reversing.Lossless := by
  intro d z h
  obtain rfl := Except.ok.inj h
  simp [reversing]

/-- A stored message is read as it was written. -/
lemma messageStorageToBytes_of_stored {config : StreamConfig}
    (hlossless : ∀ c, config.compression = some c → c.Lossless) {data : Vec} {m : MessageStorage}
    (h : bytesToMessageStorage config data = .ok m) :
    messageStorageToBytes config m = .ok data := by
  rw [bytesToMessageStorage] at h
  cases hc : config.compression with
  | none =>
    rw [hc] at h
    obtain rfl := Except.ok.inj h
    rfl
  | some c =>
    rw [hc] at h
    cases hz : c.compress data with
    | error x =>
      simp only [hz, Except.mapError, bind, Except.bind] at h
      cases h
    | ok z =>
      simp only [hz, Except.mapError, bind, Except.bind] at h
      split_ifs at h
      obtain rfl := Except.ok.inj h
      rw [messageStorageToBytes, hc]
      simp only [hlossless c hc data z hz, Except.mapError]

/-- What a stream is after writes to its tail: it has the last messages. -/
structure RingBuffer (config : StreamConfig) (sent : List Vec) (headWritten : Bool)
    (s : Stream) : Prop where
  ids : ∀ id : UInt64, id ∈ s.messages ↔
    sent.length - min sent.length config.bufferSize + 1 ≤ id.toNat ∧ id.toNat ≤ sent.length
  contents : ∀ (id : UInt64) (m : MessageStorage), s.messages[id]? = some m →
    ∃ data, sent[id.toNat - 1]? = some data ∧ messageStorageToBytes config m = .ok data
  tail : s.tail.toNat = sent.length + 1
  head : headWritten = false → s.head.toNat = max 1 (sent.length + 1 - config.bufferSize)

namespace Stream

/-- The same with the numbers in a list. -/
structure Ring (config : StreamConfig) (sent : List Vec) (headWritten : Bool) (s : Stream) :
    Prop where
  ids : s.messages.keys.map UInt64.toNat =
    List.range' (sent.length - min sent.length config.bufferSize + 1)
      (min sent.length config.bufferSize)
  contents : ∀ (id : UInt64) (m : MessageStorage), s.messages[id]? = some m →
    ∃ data, sent[id.toNat - 1]? = some data ∧ messageStorageToBytes config m = .ok data
  tail : s.tail.toNat = sent.length + 1
  head : headWritten = false → s.head.toNat = max 1 (sent.length + 1 - config.bufferSize)

variable {checks : Bool} {config : StreamConfig} {s : Stream} {sent : List Vec}
  {headWritten : Bool}

namespace Ring

lemma mem_iff (h : s.Ring config sent headWritten) (id : UInt64) :
    id ∈ s.messages ↔ sent.length - min sent.length config.bufferSize + 1 ≤ id.toNat ∧
      id.toNat ≤ sent.length := by
  have hmem : id ∈ s.messages ↔ id.toNat ∈ s.messages.keys.map UInt64.toNat := by
    rw [List.mem_map_of_injective fun a b => UInt64.toNat_inj.1, Std.TreeMap.mem_keys]
  rw [hmem, h.ids, List.mem_range'_1]
  omega

lemma ringBuffer (h : s.Ring config sent headWritten) : RingBuffer config sent headWritten s :=
  ⟨h.mem_iff, h.contents, h.tail, h.head⟩

lemma new (hb : 1 ≤ config.bufferSize) (name : Bytes) : (Stream.new name).Ring config [] false where
  ids := by
    rw [List.length_nil, Nat.zero_min]
    rfl
  contents id m h := by
    rw [Stream.new, Std.TreeMap.getElem?_emptyc] at h
    cases h
  tail := rfl
  head _ := by
    rw [List.length_nil, Nat.zero_add, Nat.sub_eq_zero_of_le hb]
    rfl

/-- The numbers when a message has been added and nothing is evicted yet. -/
lemma ids_withMessage (h : s.Ring config sent headWritten) (m : MessageStorage) :
    (s.withMessage s.tail m).messages.keys.map UInt64.toNat =
      List.range' (sent.length - min sent.length config.bufferSize + 1)
        (min sent.length config.bufferSize + 1) := by
  have hlast : ∀ id ∈ s.messages, compare id s.tail = .lt := by
    intro id hid
    rw [Std.compare_eq_lt, UInt64.lt_iff_toNat_lt, h.tail]
    exact Nat.lt_succ_of_le ((h.mem_iff id).1 hid).2
  have hkeys : (s.withMessage s.tail m).messages.keys = s.messages.keys ++ [s.tail] := by
    rw [← Std.TreeMap.map_fst_toList_eq_keys, ← Std.TreeMap.map_fst_toList_eq_keys]
    show ((s.messages.insert s.tail m).toList).map Prod.fst = _
    rw [TreeMap.toList_insert_last hlast, List.map_append]
    rfl
  rw [hkeys, List.map_append, h.ids, List.range'_concat, List.map_singleton, h.tail]
  congr 2
  omega

lemma size_withMessage (h : s.Ring config sent headWritten) (m : MessageStorage) :
    (s.withMessage s.tail m).messages.size = min sent.length config.bufferSize + 1 := by
  rw [← Std.TreeMap.length_keys, ← List.length_map UInt64.toNat, h.ids_withMessage m,
    List.length_range']

lemma contents_withMessage (h : s.Ring config sent headWritten) {data : Vec} {m : MessageStorage}
    (hdata : messageStorageToBytes config m = .ok data) {id : UInt64} {m' : MessageStorage}
    (hget : (s.withMessage s.tail m).messages[id]? = some m') :
    ∃ d, (sent ++ [data])[id.toNat - 1]? = some d ∧ messageStorageToBytes config m' = .ok d := by
  have hold : (s.messages.insert s.tail m)[id]? = some m' := hget
  rw [Std.TreeMap.getElem?_insert] at hold
  split_ifs at hold with heq
  · obtain rfl := Std.LawfulEqOrd.compare_eq_iff_eq.1 heq
    obtain rfl := Option.some.inj hold
    refine ⟨data, ?_, hdata⟩
    rw [h.tail, Nat.add_sub_cancel, List.getElem?_concat_length]
  · obtain ⟨d, hd, hread⟩ := h.contents id m' hold
    exact ⟨d, (List.getElem?_append_left (List.getElem?_eq_some_iff.1 hd).1).trans hd, hread⟩

/-- The head behind the message that is evicted, if there is one. -/
lemma head_of_evicted (h : s.Ring config sent headWritten) (hn : sent.length + 1 < 2 ^ 64 - 1)
    (hwritten : headWritten = false) {m : MessageStorage} {r : Result Unit} {s' : Stream}
    (hs : (s.withMessage s.tail m).Evicted checks config.bufferSize r s') :
    s'.head.toNat = max 1 (sent.length + 1 + 1 - config.bufferSize) := by
  have hids := h.ids_withMessage m
  rw [hs.head, passed, evicted, h.size_withMessage m]
  rcases Nat.lt_or_ge sent.length config.bufferSize with hlt | hge
  · rw [Nat.min_eq_left hlt.le, Nat.sub_eq_zero_of_le hlt, List.take_zero]
    refine (h.head hwritten).trans ?_
    omega
  · -- the first message of all is evicted
    rw [Nat.min_eq_right hge] at hids ⊢
    rw [Nat.add_sub_cancel_left]
    cases hl : (s.withMessage s.tail m).messages.keys with
    | nil => rw [hl] at hids; cases hids
    | cons k l =>
      rw [hl, List.map_cons, List.range'_succ] at hids
      have hk := (List.cons.inj hids).1
      have hmax : k.toNat ≠ 2 ^ 64 - 1 := by omega
      rw [List.take_succ_cons, List.take_zero, List.filter_cons,
        if_pos (by rw [decide_eq_true_eq]; exact fun hc => hmax hc.2)]
      show (k + 1).toNat = _
      rw [toNat_add_one hmax, hk]
      omega

/-- A write to the tail. -/
theorem writeTail (h : s.Ring config sent headWritten) (hb : 1 ≤ config.bufferSize)
    (hn : sent.length + 1 < 2 ^ 64 - 1) {data : Vec} {m : MessageStorage}
    (hm : bytesToMessageStorage config data = .ok m)
    (hdata : messageStorageToBytes config m = .ok data) :
    (s.exec checks config (.writeTail data)).2.Ring config (sent ++ [data]) headWritten := by
  have hstores : (StreamCall.writeTail data).stores checks config s = some (s.tail, m) := by
    rw [StreamCall.stores, hm]
    rfl
  have htail : s.tail.toNat ≠ 2 ^ 64 - 1 := by
    rw [h.tail]
    omega
  cases stored_of_stores hstores with
  | panicked _ hmax _ _ => exact absurd hmax htail
  | stored _ hs =>
    generalize (s.exec checks config (.writeTail data)).2 = s' at hs
    generalize (s.exec checks config (.writeTail data)).1 = r at hs
    refine ⟨?_, fun id m' hget => h.contents_withMessage hdata (hs.get?_of_get? hget), ?_,
      fun hwritten => ?_⟩
    · rw [hs.keys, List.map_drop, h.ids_withMessage m, h.size_withMessage m, List.drop_range',
        List.length_append, List.length_singleton]
      congr 1 <;> omega
    · rw [hs.tail, withMessage]
      show (if s.tail ≥ s.tail then s.tail + 1 else s.tail).toNat = _
      rw [if_pos (UInt64.le_refl _), toNat_add_one htail, h.tail, List.length_append,
        List.length_singleton]
    · rw [List.length_append, List.length_singleton]
      exact h.head_of_evicted hn hwritten hs

/-- A write to the head. -/
lemma writeHead (h : s.Ring config sent headWritten) (data : Vec) :
    (s.exec checks config (.writeHead data)).2.Ring config sent true := by
  obtain ⟨head, heq⟩ : ∃ head, (s.exec checks config (.writeHead data)).2 = { s with head } := by
    simp only [exec, Stream.writeHead]
    split <;> exact ⟨_, rfl⟩
  rw [heq]
  exact ⟨h.ids, h.contents, h.tail, fun hfalse => absurd hfalse (by decide)⟩

end Ring

lemma exec_writeTail_of_error {data : Vec} {e : Failure}
    (h : bytesToMessageStorage config data = .error e) :
    (s.exec checks config (.writeTail data)).2 = s := by
  simp only [exec, writeTail, h]
  rfl

end Stream

namespace StreamFS

/-- A call of `write`. -/
structure WriteCall where
  path : PathBuf
  data : Vec
  offset : Int64
  flags : WriteFlags

/-- The filesystem, the messages that have been sent to the tail of a stream, and whether its
head has been written to. -/
structure Logged where
  fs : StreamFS
  sent : List Vec
  headWritten : Bool

/-- The messages that have been sent after one more; what the compressor refuses is not sent. -/
def Logged.send (s : Logged) (data : Vec) : List Vec :=
  match bytesToMessageStorage s.fs.config data with
  | .ok _ => s.sent ++ [data]
  | .error _ => s.sent

/-- A write to the tail or to the head of the stream; other calls do not belong to the run. -/
def ringStep (checks : Bool) (name : Bytes) (s : Logged) (c : WriteCall) : Option Logged :=
  let fs := (s.fs.write checks c.path c.data c.offset c.flags).2
  if parsePath (normalizePath c.path) = some (.Tail name) then
    some ⟨fs, s.send c.data, s.headWritten⟩
  else if parsePath (normalizePath c.path) = some (.Head name) then some ⟨fs, s.sent, true⟩
  else none

variable {checks : Bool} {name : Bytes} {config : StreamConfig}

/-- What holds in all states of a run of writes to the tail and to the head. -/
structure RingInv (config : StreamConfig) (name : Bytes) (s : Logged) : Prop where
  config_eq : s.fs.config = config
  ring : ∃ st, s.fs.streams[name]? = some st ∧ st.Ring config s.sent s.headWritten

lemma ringInv_step (hb : 1 ≤ config.bufferSize)
    (hlossless : ∀ c, config.compression = some c → c.Lossless) {s s' : Logged} {c : WriteCall}
    (h : s.sent.length < 2 ^ 64 - 1 → RingInv config name s)
    (hs : ringStep checks name s c = some s') (hn : s'.sent.length < 2 ^ 64 - 1) :
    RingInv config name s' := by
  have hop : ∀ call, (StreamOp.write c.path c.data c.offset c.flags).call = some (name, call) →
      ∀ st, s.fs.streams[name]? = some st →
        (s.fs.write checks c.path c.data c.offset c.flags).2.streams[name]? =
          some (st.exec checks s.fs.config call).2 :=
    fun call hcall st hst => get?_exec_of_call hcall hst 0
  have hconfig : (s.fs.write checks c.path c.data c.offset c.flags).2.config = s.fs.config :=
    config_exec checks s.fs 0 (.write c.path c.data c.offset c.flags)
  rw [ringStep] at hs
  split_ifs at hs with htail hhead
  · obtain rfl := Option.some.inj hs
    have hcall : (StreamOp.write c.path c.data c.offset c.flags).call =
        some (name, .writeTail c.data) := by simp only [StreamOp.call, htail]
    rw [Logged.send] at hn ⊢
    cases hm : bytesToMessageStorage s.fs.config c.data with
    | error e =>
      simp only [hm] at hn ⊢
      obtain ⟨rfl, st, hst, hring⟩ := h hn
      refine ⟨hconfig, _, hop _ hcall st hst, ?_⟩
      rwa [Stream.exec_writeTail_of_error hm]
    | ok m =>
      simp only [hm, List.length_append, List.length_singleton] at hn ⊢
      obtain ⟨rfl, st, hst, hring⟩ := h (Nat.lt_of_succ_lt hn)
      refine ⟨hconfig, _, hop _ hcall st hst, ?_⟩
      exact hring.writeTail hb hn hm (messageStorageToBytes_of_stored hlossless hm)
  · obtain rfl := Option.some.inj hs
    obtain ⟨rfl, st, hst, hring⟩ := h hn
    have hcall : (StreamOp.write c.path c.data c.offset c.flags).call =
        some (name, .writeHead c.data) := by simp only [StreamOp.call, hhead]
    exact ⟨hconfig, _, hop _ hcall st hst, hring.writeHead c.data⟩

/-- **A ring buffer.**  After any writes to the tail and to the head of a new stream, of which `n`
have sent a message, the stored messages are those with the last numbers up to `n`, as many as
there is room for, and each has the bytes that were sent under its number.  The tail is `n + 1`,
and the head is the first of the numbers as long as it has not been written to.  The loop of
the eviction comes to its end in every stream. -/
theorem ringBuffer_of_reachable (checks : Bool) (name : Bytes) {fs : StreamFS}
    (hb : 1 ≤ fs.config.bufferSize)
    (hlossless : ∀ c, fs.config.compression = some c → c.Lossless)
    (hnew : fs.streams[name]? = some (.new name)) {s : Logged}
    (h : Reachable (ringStep checks name) ⟨fs, [], false⟩ s) (hn : s.sent.length < 2 ^ 64 - 1) :
    (∃ st, s.fs.streams[name]? = some st ∧
      RingBuffer fs.config s.sent s.headWritten st) ∧
    ∀ st : Stream, (st.evictLoop checks fs.config.bufferSize (st.messages.size + 1)).isSome := by
  constructor
  · have hinv : s.sent.length < 2 ^ 64 - 1 → RingInv fs.config name s :=
      h.invariant (fun _ => ⟨rfl, _, hnew, .new hb name⟩)
        fun _ _ _ hi hs => ringInv_step hb hlossless hi hs
    obtain ⟨-, st, hst, hring⟩ := hinv hn
    exact ⟨st, hst, hring.ringBuffer⟩
  · intro st
    obtain ⟨r, st', hloop, -⟩ := Stream.evicted_evictLoop (Nat.lt_succ_self st.messages.size)
    exact Option.isSome_iff_exists.2 ⟨_, hloop⟩

/-- A filesystem with a new stream, which has room for two messages. -/
def oneStream : StreamFS :=
  ((StreamFS.new ⟨2, 1, some .reversing⟩).mkdir ⟨ascii "/streams/s"⟩ 0o755).2

/-- Three writes to the tail, and one to the head. -/
def threeMessages : List WriteCall :=
  [⟨⟨ascii "/streams/s/tail"⟩, ⟨ascii "ab", by decide⟩, 0, .NONE⟩,
    ⟨⟨ascii "/streams/s/tail"⟩, ⟨ascii "cd", by decide⟩, 0, .NONE⟩,
    ⟨⟨ascii "/streams/s/head"⟩, ⟨ascii "2", by decide⟩, 0, .NONE⟩,
    ⟨⟨ascii "streams/s/tail"⟩, ⟨ascii "ef", by decide⟩, 7, .NONE⟩]

/-- The first of the three messages has been evicted. -/
theorem ringBuffer_threeMessages :
    ∃ s, run (ringStep true (ascii "s")) ⟨oneStream, [], false⟩ threeMessages = some s ∧
      s.sent.map Vec.bytes = [ascii "ab", ascii "cd", ascii "ef"] ∧
      (∃ st, s.fs.streams[ascii "s"]? = some st ∧
        st.messages.keys = [2, 3] ∧ RingBuffer oneStream.config s.sent s.headWritten st) := by
  refine ⟨_, rfl, by decide, ?_⟩
  have hlossless : ∀ c, oneStream.config.compression = some c → c.Lossless :=
    fun c hc => Option.some.inj hc ▸ Compression.lossless_reversing
  obtain ⟨⟨st, hst, hring⟩, -⟩ := ringBuffer_of_reachable true (ascii "s") (by decide) hlossless
    rfl ⟨threeMessages, rfl⟩ (by decide)
  refine ⟨st, hst, ?_, hring⟩
  obtain rfl := Option.some.inj hst
  decide

end StreamFS

end Racfs.StreamFs
