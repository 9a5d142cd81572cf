/-
# What a call does to a stream

A call of an operation concerns one stream at most, and what it does there depends on the
stream alone (`StreamCall`, `streams_exec`).  So what is to hold of all streams in all states of
a run only has to be checked for a new stream and for the calls on one stream.  The eviction
is described once (`Evicted`): it takes the first messages of the map, as many as there are too
many, and the loop comes to its end.
-/
import Racfs.Lib.Run
import Racfs.StreamFs.Model

namespace Racfs.StreamFs

/-! ### Additions -/

/-- An addition that does not overflow. -/
lemma add_of_lt {a b : UInt64} (h : a.toNat + b.toNat < 2 ^ 64) (checks : Bool) :
    add checks a b = .ok (a + b) := by
  rw [add, if_neg (by omega)]

/-- The next number overflows only behind the largest one. -/
lemma add_one_cases (checks : Bool) (a : UInt64) :
    (checks = true ∧ a.toNat = 2 ^ 64 - 1 ∧ add checks a 1 = .error .overflow) ∨
      (¬ (checks = true ∧ a.toNat = 2 ^ 64 - 1) ∧ add checks a 1 = .ok (a + 1)) := by
  have hlt := a.toNat_lt
  have hone : (1 : UInt64).toNat = 1 := rfl
  by_cases h : checks = true ∧ a.toNat = 2 ^ 64 - 1
  · refine Or.inl ⟨h.1, h.2, ?_⟩
    rw [add, if_pos ⟨h.1, by omega⟩]
  · refine Or.inr ⟨h, ?_⟩
    rw [add, if_neg fun hc => h ⟨hc.1, by omega⟩]

lemma toNat_add_one {a : UInt64} (h : a.toNat ≠ 2 ^ 64 - 1) : (a + 1).toNat = a.toNat + 1 := by
  have hlt := a.toNat_lt
  have hone : (1 : UInt64).toNat = 1 := rfl
  rw [UInt64.toNat_add, hone, Nat.mod_eq_of_lt (by omega)]

/-! ### Contents -/

lemma bind_ne_overflow {A B : Type} {x : Result A} {f : A → Result B}
    (hx : x ≠ .error .overflow) (hf : ∀ a, x = .ok a → f a ≠ .error .overflow) :
    x >>= f ≠ .error .overflow := by
  cases x with
  | error e => exact fun h => hx (congrArg Except.error (Except.error.inj h))
  | ok a => exact hf a rfl

lemma Vec.toNat_len (v : Vec) : v.len.toNat = v.bytes.length := by
  have hle := v.length_le
  refine UInt64.toNat_ofNat_of_lt' (lt_of_le_of_lt hle ?_)
  decide

/-- A short length is kept in fewer bits. -/
lemma toUInt64_toUInt32 {n : ℕ} (h : n < 2 ^ 32) : n.toUInt32.toUInt64 = n.toUInt64 := by
  have h64 : n < 2 ^ 64 := h.trans (by decide)
  rw [← UInt64.toNat_inj, UInt32.toNat_toUInt64]
  show (UInt32.ofNat n).toNat = (UInt64.ofNat n).toNat
  rw [UInt32.toNat_ofNat_of_lt' h, UInt64.toNat_ofNat_of_lt' h64]

lemma grow_ne_overflow (v : Vec) (n : UInt64) : v.grow n ≠ .error .overflow := by
  rw [Vec.grow, Vec.resize]
  split_ifs <;> simp

/-- What a vector has been grown to is not longer than the largest `isize`. -/
lemma toNat_le_of_grow {v w : Vec} {n : UInt64} (h : v.grow n = .ok w) : n.toNat ≤ isizeMax := by
  rw [Vec.grow] at h
  split_ifs at h with hlt
  · rw [Vec.resize] at h
    split_ifs at h with hle
    exact hle
  · exact (Nat.le_of_not_lt hlt).trans v.length_le

/-- A message cannot be so long that the end of a write overflows. -/
lemma toNat_add_lt_of_grow {v w data : Vec} {n : UInt64} (h : v.grow n = .ok w) :
    n.toNat + data.len.toNat < 2 ^ 64 := by
  have hstart := toNat_le_of_grow h
  have hdata := data.length_le
  rw [Vec.toNat_len]
  rw [isizeMax] at hstart hdata
  omega

lemma writeAt_ne_overflow (checks : Bool) (msg data : Vec) (offset : Int64) :
    writeAt checks msg data offset ≠ .error .overflow := by
  refine bind_ne_overflow (grow_ne_overflow _ _) fun v hv => ?_
  rw [add_of_lt (toNat_add_lt_of_grow hv)]
  refine bind_ne_overflow nofun fun stop _ => ?_
  refine bind_ne_overflow (grow_ne_overflow _ _) fun w _ => ?_
  rw [Vec.copyFromSlice]
  split_ifs <;> simp

/-- So the checks make no difference to what is written. -/
lemma writeAt_checks (checks : Bool) (msg data : Vec) (offset : Int64) :
    writeAt checks msg data offset = writeAt true msg data offset := by
  rw [writeAt, writeAt]
  cases hv : msg.grow offset.toUInt64 with
  | error e => rfl
  | ok v =>
    have hsum : offset.toUInt64.toNat + data.len.toNat < 2 ^ 64 := toNat_add_lt_of_grow hv
    simp only [bind, Except.bind, add_of_lt hsum]

lemma messageStorageToBytes_ne_overflow (config : StreamConfig) (m : MessageStorage) :
    messageStorageToBytes config m ≠ .error .overflow := by
  cases m with
  | raw d => simp [messageStorageToBytes]
  | compressed n data =>
    rw [messageStorageToBytes]
    cases config.compression with
    | none => simp
    | some c => cases hd : c.decompress data <;> simp [hd, Except.mapError]

lemma exists_err_of_bytesToMessageStorage {config : StreamConfig} {data : Vec} {e : Failure}
    (h : bytesToMessageStorage config data = .error e) : ∃ x, e = .err x := by
  rw [bytesToMessageStorage] at h
  cases hc : config.compression with
  | none =>
    rw [hc] at h
    cases h
  | some c =>
    rw [hc] at h
    cases hz : c.compress data with
    | error x =>
      simp only [hz, Except.mapError, bind, Except.bind] at h
      exact ⟨x, (Except.error.inj h).symm⟩
    | ok z =>
      simp only [hz, Except.mapError, bind, Except.bind] at h
      split_ifs at h
      exact ⟨_, (Except.error.inj h).symm⟩

/-! ### Eviction -/

namespace Stream

variable {checks : Bool} {bufferSize : ℕ} {s : Stream}

/-- The numbers of the messages that an eviction removes. -/
def evicted (bufferSize : ℕ) (s : Stream) : List UInt64 :=
  s.messages.keys.take (s.messages.size - bufferSize)

/-- Those of them behind which the head is set: where that overflows, the call panics. -/
def passed (checks : Bool) (bufferSize : ℕ) (s : Stream) : List UInt64 :=
  (s.evicted bufferSize).filter fun k => ¬ (checks = true ∧ k.toNat = 2 ^ 64 - 1)

/-- What is left after an eviction with a result. -/
structure Evicted (checks : Bool) (bufferSize : ℕ) (s : Stream) (r : Result Unit)
    (s' : Stream) : Prop where
  name : s'.name = s.name
  tail : s'.tail = s.tail
  toList : s'.messages.toList = s.messages.toList.drop (s.messages.size - bufferSize)
  head : s'.head = ((s.passed checks bufferSize).getLast?.map (· + 1)).getD s.head
  result : r = .ok () ∨ (r = .error .overflow ∧ checks = true ∧
    ∃ k ∈ s.evicted bufferSize, k.toNat = 2 ^ 64 - 1)

lemma evictFirst_of_toList {k : UInt64} {v : MessageStorage} {l : List (UInt64 × MessageStorage)}
    (h : s.messages.toList = (k, v) :: l) :
    s.evictFirst checks = match add checks k 1 with
      | .ok head => (.ok (), { s with messages := s.messages.erase k, head })
      | .error e => (.error e, { s with messages := s.messages.erase k }) := by
  rw [evictFirst, h]
  cases hadd : add checks k 1 <;> simp [hadd]

/-- The largest number has no messages behind it. -/
lemma eq_nil_of_toList {k : UInt64} {v : MessageStorage} {l : List (UInt64 × MessageStorage)}
    (h : s.messages.toList = (k, v) :: l) (hk : k.toNat = 2 ^ 64 - 1) : l = [] := by
  have hord := Std.TreeMap.ordered_keys_toList (t := s.messages)
  rw [h, List.pairwise_cons] at hord
  refine List.eq_nil_iff_forall_not_mem.2 fun e he => ?_
  have hlt : k < e.1 := Std.compare_eq_lt.1 (hord.1 e he)
  have hmax := e.1.toNat_lt
  rw [UInt64.lt_iff_toNat_lt] at hlt
  omega

lemma evicted_of_toList {k : UInt64} {v : MessageStorage} {l : List (UInt64 × MessageStorage)}
    (h : s.messages.toList = (k, v) :: l) (hsize : bufferSize < s.messages.size) (s' : Stream)
    (hs' : s'.messages.toList = l) :
    s.evicted bufferSize = k :: s'.evicted bufferSize := by
  rw [← Std.TreeMap.length_toList, h, List.length_cons] at hsize
  have hsub : l.length + 1 - bufferSize = l.length - bufferSize + 1 := by omega
  rw [evicted, evicted, ← Std.TreeMap.length_toList, ← Std.TreeMap.length_toList,
    ← Std.TreeMap.map_fst_toList_eq_keys, ← Std.TreeMap.map_fst_toList_eq_keys, h, hs',
    List.length_cons, hsub, List.map_cons, List.take_succ_cons]

/-- There is nothing to evict. -/
lemma evicted_self (hsize : s.messages.size ≤ bufferSize) :
    s.Evicted checks bufferSize (.ok ()) s := by
  refine ⟨rfl, rfl, ?_, ?_, Or.inl rfl⟩
  · rw [Nat.sub_eq_zero_of_le hsize, List.drop_zero]
  · rw [passed, evicted, Nat.sub_eq_zero_of_le hsize]
    rfl

/-- The last message of all is evicted: the loop panics, and there is nothing left. -/
lemma evicted_last {k : UInt64} {v : MessageStorage} (hl : s.messages.toList = [(k, v)])
    (hsize : bufferSize < s.messages.size) (hchecks : checks = true) (hmax : k.toNat = 2 ^ 64 - 1) :
    s.Evicted checks bufferSize (.error .overflow) { s with messages := s.messages.erase k } := by
  have hrest : (s.messages.erase k).toList = [] := TreeMap.toList_erase_first hl
  have hevicted : s.evicted bufferSize = [k] := by
    rw [evicted_of_toList hl hsize { s with messages := s.messages.erase k } hrest,
      evicted, ← Std.TreeMap.map_fst_toList_eq_keys, hrest, List.map_nil, List.take_nil]
  refine ⟨rfl, rfl, ?_, ?_, Or.inr ⟨rfl, hchecks, k, ?_, hmax⟩⟩
  · rw [hrest, List.drop_eq_nil_of_le]
    rw [← Std.TreeMap.length_toList, hl, List.length_singleton] at hsize ⊢
    omega
  · rw [passed, hevicted, List.filter_cons, if_neg (by simp [hchecks, hmax])]
    rfl
  · rw [hevicted]
    exact List.mem_singleton_self k

/-- The first message is evicted, and then others. -/
lemma evicted_first {k : UInt64} {v : MessageStorage} {l : List (UInt64 × MessageStorage)}
    (hl : s.messages.toList = (k, v) :: l) (hsize : bufferSize < s.messages.size)
    (hne : ¬ (checks = true ∧ k.toNat = 2 ^ 64 - 1)) {r : Result Unit} {s' : Stream}
    (h : { s with messages := s.messages.erase k, head := k + 1 }.Evicted checks bufferSize r s') :
    s.Evicted checks bufferSize r s' := by
  have hrest : (s.messages.erase k).toList = l := TreeMap.toList_erase_first hl
  have hevicted := evicted_of_toList hl hsize
    { s with messages := s.messages.erase k, head := k + 1 } hrest
  refine ⟨h.name, h.tail, ?_, ?_, ?_⟩
  · have hsub : s.messages.size - bufferSize =
        (s.messages.erase k).toList.length - bufferSize + 1 := by
      rw [← Std.TreeMap.length_toList, hl, List.length_cons] at hsize ⊢
      rw [hrest]
      omega
    rw [h.toList, hl, hsub, List.drop_succ_cons, Std.TreeMap.length_toList, hrest]
  · rw [h.head, passed, passed, hevicted, List.filter_cons, if_pos (decide_eq_true hne),
      List.getLast?_cons]
    cases (List.filter _ _).getLast? <;> rfl
  · refine h.result.imp_right ?_
    rintro ⟨hr, hchecks, m, hm, hmax⟩
    refine ⟨hr, hchecks, m, ?_, hmax⟩
    rw [hevicted]
    exact List.mem_cons_of_mem _ hm

/-- The loop comes to its end when it may go round as often as there are messages, and what is
left then. -/
theorem evicted_evictLoop {fuel : ℕ} (hfuel : s.messages.size < fuel) :
    ∃ r s', evictLoop checks bufferSize fuel s = some (r, s') ∧
      s.Evicted checks bufferSize r s' := by
  induction fuel generalizing s with
  | zero => exact absurd hfuel (Nat.not_lt_zero _)
  | succ fuel ih =>
    rw [evictLoop]
    split_ifs with hsize
    · cases hl : s.messages.toList with
      | nil =>
        rw [← Std.TreeMap.length_toList, hl] at hsize
        exact absurd hsize (Nat.not_lt_zero _)
      | cons e l =>
        obtain ⟨k, v⟩ := e
        rw [evictFirst_of_toList hl]
        rcases add_one_cases checks k with ⟨hchecks, hmax, hadd⟩ | ⟨hne, hadd⟩
        · obtain rfl := eq_nil_of_toList hl hmax
          rw [hadd]
          exact ⟨_, _, rfl, evicted_last hl hsize hchecks hmax⟩
        · rw [hadd]
          have hfuel' : (s.messages.erase k).size < fuel := by
            rw [← Std.TreeMap.length_toList, TreeMap.toList_erase_first hl]
            rw [← Std.TreeMap.length_toList, hl, List.length_cons] at hfuel
            omega
          obtain ⟨r, s', hloop, hs'⟩ :=
            ih (s := { s with messages := s.messages.erase k, head := k + 1 }) hfuel'
          exact ⟨r, s', hloop, evicted_first hl hsize hne hs'⟩
    · exact ⟨_, _, rfl, evicted_self (Nat.le_of_not_lt hsize)⟩

lemma evicted_evict : s.Evicted checks bufferSize (s.evict checks bufferSize).1
    (s.evict checks bufferSize).2 := by
  obtain ⟨r, s', hloop, hs'⟩ :=
    @evicted_evictLoop checks bufferSize s _ (Nat.lt_succ_self s.messages.size)
  rw [evict, hloop]
  exact hs'

namespace Evicted

variable {r : Result Unit} {s' : Stream}

lemma size_le (h : s.Evicted checks bufferSize r s') : s'.messages.size ≤ bufferSize := by
  rw [← Std.TreeMap.length_toList, h.toList, List.length_drop, Std.TreeMap.length_toList]
  omega

lemma keys (h : s.Evicted checks bufferSize r s') :
    s'.messages.keys = s.messages.keys.drop (s.messages.size - bufferSize) := by
  rw [← Std.TreeMap.map_fst_toList_eq_keys, h.toList, List.map_drop,
    Std.TreeMap.map_fst_toList_eq_keys]

/-- What is left was there before. -/
lemma get?_of_get? (h : s.Evicted checks bufferSize r s') {id : UInt64} {m : MessageStorage}
    (hm : s'.messages[id]? = some m) : s.messages[id]? = some m := by
  rw [← Std.TreeMap.mem_toList_iff_getElem?_eq_some] at hm ⊢
  rw [h.toList] at hm
  exact List.mem_of_mem_drop hm

lemma mem_of_mem (h : s.Evicted checks bufferSize r s') {id : UInt64} (hid : id ∈ s'.messages) :
    id ∈ s.messages := by
  rw [Std.TreeMap.mem_iff_isSome_getElem?, Option.isSome_iff_exists] at hid ⊢
  obtain ⟨m, hm⟩ := hid
  exact ⟨m, h.get?_of_get? hm⟩

end Evicted

end Stream

/-! ### The calls on one stream -/

/-- A call on a stream that can change it. -/
inductive StreamCall
  | createMessage (id : UInt64)
  | resetHead
  | writeMessage (id : UInt64) (data : Vec) (offset : Int64)
  | writeTail (data : Vec)
  | writeHead (data : Vec)
  | removeMessage (id : UInt64)

/-- The result of a call on a stream, its value apart, and the stream after it. -/
def Stream.exec (checks : Bool) (config : StreamConfig) (s : Stream) :
    StreamCall → Result Unit × Stream
  | .createMessage id => s.createMessage checks id
  | .resetHead => (.ok (), { s with head := 1 })
  | .writeMessage id data offset =>
    (s.writeMessage checks config id data offset).map (·.map fun _ => ()) fun s => s
  | .writeTail data => (s.writeTail checks config data).map (·.map fun _ => ()) fun s => s
  | .writeHead data => (s.writeHead data).map (·.map fun _ => ()) fun s => s
  | .removeMessage id => (.ok (), { s with messages := s.messages.erase id })

/-- A write of a producer: to the tail or to a message. -/
def StreamCall.IsProducer : StreamCall → Prop
  | .writeMessage _ _ _ => True
  | .writeTail _ => True
  | _ => False

/-- The message that a write of a producer stores, and its number. -/
def StreamCall.stores (checks : Bool) (config : StreamConfig) (s : Stream) :
    StreamCall → Option (UInt64 × MessageStorage)
  | .writeMessage id data offset =>
    (s.newMessage checks config id data offset).toOption.map (id, ·)
  | .writeTail data => (bytesToMessageStorage config data).toOption.map (s.tail, ·)
  | _ => none

namespace Stream

variable {config : StreamConfig} {r : Result Unit} {s' : Stream}

/-- The stream with a message more, and the tail behind it. -/
def withMessage (s : Stream) (id : UInt64) (stored : MessageStorage) : Stream :=
  { s.insert id stored with tail := if id ≥ s.tail then id + 1 else s.tail }

/-- The end of a call that stores a message: behind the largest number there is no tail, and
where that is checked the call panics with the message in the map. -/
inductive Stored (checks : Bool) (s : Stream) (id : UInt64) (stored : MessageStorage)
    (next : Stream → Result Unit → Stream → Prop) (r : Result Unit) (s' : Stream) : Prop
  | panicked (hchecks : checks = true) (hmax : id.toNat = 2 ^ 64 - 1)
      (hs' : s' = s.insert id stored) (hr : r = .error .overflow)
  | stored (hne : ¬ (checks = true ∧ id.toNat = 2 ^ 64 - 1))
      (h : next (s.withMessage id stored) r s')

/-- What a call does to a stream. -/
inductive Effect (checks : Bool) (config : StreamConfig) (s : Stream) (c : StreamCall)
    (r : Result Unit) (s' : Stream) : Prop
  | created (id : UInt64) (hc : c = .createMessage id)
      (h : Stored checks s id (.raw .new) (fun s r s' => s' = s ∧ r = .ok ()) r s')
  | stored (id : UInt64) (m : MessageStorage) (hc : c.stores checks config s = some (id, m))
      (h : Stored checks s id m (Evicted checks config.bufferSize) r s')
  | refused (hc : c.IsProducer) (hstores : c.stores checks config s = none) (hs' : s' = s)
      (hr : r ≠ .error .overflow)
  | head (hc : c = .resetHead ∨ ∃ data, c = .writeHead data)
      (hs' : s' = { s with head := s'.head }) (hr : r = .ok ())
  | removed (id : UInt64) (hc : c = .removeMessage id)
      (hs' : s' = { s with messages := s.messages.erase id }) (hr : r = .ok ())

lemma advanceTail_insert (checks : Bool) (s : Stream) (id : UInt64) (stored : MessageStorage) :
    (checks = true ∧ id.toNat = 2 ^ 64 - 1 ∧
      (s.insert id stored).advanceTail checks id = (.error .overflow, s.insert id stored)) ∨
    (¬ (checks = true ∧ id.toNat = 2 ^ 64 - 1) ∧
      (s.insert id stored).advanceTail checks id = (.ok (), s.withMessage id stored)) := by
  have htail : (s.insert id stored).tail = s.tail := rfl
  rw [advanceTail, setTail, htail]
  rcases add_one_cases checks id with ⟨hchecks, hmax, hadd⟩ | ⟨hne, hadd⟩
  · have hge : id ≥ s.tail := by
      have hlt := s.tail.toNat_lt
      rw [ge_iff_le, UInt64.le_iff_toNat_le]
      omega
    rw [if_pos hge, hadd]
    exact Or.inl ⟨hchecks, hmax, rfl⟩
  · rw [hadd]
    refine Or.inr ⟨hne, ?_⟩
    rw [withMessage]
    split_ifs <;> rfl

/-- What is stored and then followed by an eviction. -/
lemma stored_evict (checks : Bool) (config : StreamConfig) (s : Stream) (id : UInt64)
    (stored : MessageStorage) (n : UInt64) :
    Stored checks s id stored (Evicted checks config.bufferSize)
      ((andThen ((s.insert id stored).advanceTail checks id) fun _ s =>
        andThen (s.evict checks config.bufferSize) fun _ s => (.ok n, s)).1.map fun _ => ())
      (andThen ((s.insert id stored).advanceTail checks id) fun _ s =>
        andThen (s.evict checks config.bufferSize) fun _ s => (.ok n, s)).2 := by
  rcases advanceTail_insert checks s id stored with ⟨hchecks, hmax, heq⟩ | ⟨hne, heq⟩
  · rw [heq]
    exact .panicked hchecks hmax rfl rfl
  · rw [heq]
    refine .stored hne ?_
    have h : Evicted checks config.bufferSize (s.withMessage id stored) _ _ := evicted_evict
    simp only [andThen]
    revert h
    obtain ⟨r, s'⟩ := (s.withMessage id stored).evict checks config.bufferSize
    cases r <;> exact fun h => h

lemma newMessage_ne_overflow (checks : Bool) (config : StreamConfig) (s : Stream) (id : UInt64)
    (data : Vec) (offset : Int64) :
    s.newMessage checks config id data offset ≠ .error .overflow := by
  refine bind_ne_overflow ?_ fun msg _ => bind_ne_overflow (writeAt_ne_overflow _ _ _ _) ?_
  · rw [existing]
    cases s.messages[id]? with
    | none => nofun
    | some m => exact messageStorageToBytes_ne_overflow config m
  · intro v _ h
    obtain ⟨x, hx⟩ := exists_err_of_bytesToMessageStorage h
    cases hx

lemma stores_checks (checks : Bool) (config : StreamConfig) (s : Stream) (c : StreamCall) :
    c.stores checks config s = c.stores true config s := by
  cases c with
  | writeMessage id data offset =>
    simp only [StreamCall.stores, newMessage, writeAt_checks checks]
  | _ => rfl

theorem effect_exec (checks : Bool) (config : StreamConfig) (s : Stream) (c : StreamCall) :
    Effect checks config s c (s.exec checks config c).1 (s.exec checks config c).2 := by
  cases c with
  | createMessage id =>
    refine .created id rfl ?_
    show Stored _ _ _ _ _ ((s.insert id (.raw .new)).advanceTail checks id).1
      ((s.insert id (.raw .new)).advanceTail checks id).2
    rcases advanceTail_insert checks s id (.raw .new) with ⟨hchecks, hmax, heq⟩ | ⟨hne, heq⟩
    · rw [heq]
      exact .panicked hchecks hmax rfl rfl
    · rw [heq]
      exact .stored hne ⟨rfl, rfl⟩
  | resetHead => exact .head (Or.inl rfl) rfl rfl
  | writeMessage id data offset =>
    have hresult := newMessage_ne_overflow checks config s id data offset
    cases hnew : s.newMessage checks config id data offset with
    | error e =>
      rw [hnew] at hresult
      refine .refused trivial ?_ ?_ ?_
      · simp [StreamCall.stores, hnew, Except.toOption]
      · simp [exec, writeMessage, hnew]
      · simpa [exec, writeMessage, hnew, Except.map] using hresult
    | ok stored =>
      refine .stored id stored ?_ ?_
      · simp [StreamCall.stores, hnew, Except.toOption]
      · have h := stored_evict checks config s id stored data.len
        simp only [exec, writeMessage, hnew]
        exact h
  | writeTail data =>
    cases hnew : bytesToMessageStorage config data with
    | error e =>
      refine .refused trivial ?_ ?_ ?_
      · simp [StreamCall.stores, hnew, Except.toOption]
      · simp [exec, writeTail, hnew]
      · obtain ⟨x, rfl⟩ := exists_err_of_bytesToMessageStorage hnew
        simp [exec, writeTail, hnew, Except.map]
    | ok stored =>
      refine .stored s.tail stored ?_ ?_
      · simp [StreamCall.stores, hnew, Except.toOption]
      · have h := stored_evict checks config s s.tail stored data.len
        have htail : (s.insert s.tail stored).advanceTail checks s.tail =
            (s.insert s.tail stored).setTail checks s.tail := if_pos (UInt64.le_refl _)
        rw [htail] at h
        simp only [exec, writeTail, hnew]
        exact h
  | writeHead data =>
    simp only [exec, writeHead]
    split
    · exact .head (Or.inr ⟨data, rfl⟩) rfl rfl
    · exact .head (Or.inr ⟨data, rfl⟩) rfl rfl
  | removeMessage id => exact .removed id rfl rfl rfl

lemma stored_of_stores {c : StreamCall} {id : UInt64} {m : MessageStorage}
    (h : c.stores checks config s = some (id, m)) :
    Stored checks s id m (Evicted checks config.bufferSize) (s.exec checks config c).1
      (s.exec checks config c).2 := by
  cases effect_exec checks config s c with
  | created id' hc _ => subst hc; cases h
  | stored id' m' hc hs =>
    obtain ⟨rfl, rfl⟩ := Prod.mk.inj (Option.some.inj (hc.symm.trans h))
    exact hs
  | refused _ hnone _ _ => rw [h] at hnone; cases hnone
  | head hc _ _ => rcases hc with rfl | ⟨data, rfl⟩ <;> cases h
  | removed id' hc _ _ => subst hc; cases h

end Stream

/-- The stream that a call of an operation can change, and what it does there. -/
def StreamOp.call : StreamOp → Option (Bytes × StreamCall)
  | .create path =>
    match parsePath (normalizePath path) with
    | some (.Message name id) => some (name, .createMessage id)
    | some (.Head name) => some (name, .resetHead)
    | _ => none
  | .write path data offset _ =>
    match parsePath (normalizePath path) with
    | some (.Message name id) => some (name, .writeMessage id data offset)
    | some (.Tail name) => some (name, .writeTail data)
    | some (.Head name) => some (name, .writeHead data)
    | _ => none
  | .remove path | .removeAll path =>
    match parsePath (normalizePath path) with
    | some (.Message name id) => some (name, .removeMessage id)
    | _ => none
  | _ => none

/-- What a call of an operation does to the streams. -/
inductive StreamsStep (checks : Bool) (fs fs' : StreamFS) (op : StreamOp) (name : Bytes) : Prop
  | same (h : fs'.streams[name]? = fs.streams[name]?)
      (hcall : ∀ c, op.call = some (name, c) → fs.streams[name]? = none)
  | call (c : StreamCall) (s : Stream) (hcall : op.call = some (name, c))
      (hs : fs.streams[name]? = some s)
      (h : fs'.streams[name]? = some (s.exec checks fs.config c).2)
  | created (hs : fs.streams[name]? = none) (hcall : op.call = none)
      (hparse : ∃ path, parsePath path = some (.StreamDir name))
      (h : fs'.streams[name]? = some (.new name))
  | removed (hcall : op.call = none) (h : fs'.streams[name]? = none)

namespace StreamFS

variable {checks : Bool} {fs : StreamFS}

lemma get?_insert (streams : Std.TreeMap Bytes Stream) (name name' : Bytes) (s : Stream) :
    (streams.insert name s)[name']? = if name = name' then some s else streams[name']? := by
  rw [Std.TreeMap.getElem?_insert, if_congr Std.LawfulEqOrd.compare_eq_iff_eq rfl rfl]

/-- A call on a stream. -/
lemma streamsStep_updateStream {A : Type*} {path : PathBuf} {name : Bytes}
    {f : Stream → Result A × Stream} {op : StreamOp} {c : StreamCall}
    (hcall : op.call = some (name, c)) (hf : ∀ s, (f s).2 = (s.exec checks fs.config c).2)
    (name' : Bytes) : StreamsStep checks fs (fs.updateStream path name f).2 op name' := by
  rw [updateStream]
  cases hs : fs.streams[name]? with
  | none =>
    refine .same rfl fun c' hc' => ?_
    rw [hcall] at hc'
    obtain ⟨rfl, -⟩ := Prod.mk.inj (Option.some.inj hc')
    exact hs
  | some s =>
    by_cases hname : name = name'
    · subst hname
      refine .call c s hcall hs ?_
      rw [get?_insert, if_pos rfl, hf]
    · refine .same ?_ fun c' hc' => ?_
      · rw [get?_insert, if_neg hname]
      · rw [hcall] at hc'
        exact absurd (Prod.mk.inj (Option.some.inj hc')).1 hname

lemma streamsStep_same {op : StreamOp} (hcall : op.call = none) (name : Bytes) :
    StreamsStep checks fs fs op name :=
  .same rfl fun c hc => by
    rw [hcall] at hc
    cases hc

lemma streamsStep_remove (path : PathBuf) {op : StreamOp} (name : Bytes)
    (hop : op = .remove path ∨ op = .removeAll path) :
    StreamsStep checks fs (fs.remove path).2 op name := by
  have hnone (hparse : ∀ n id, parsePath (normalizePath path) ≠ some (.Message n id)) :
      op.call = none := by
    rcases hop with rfl | rfl <;> simp only [StreamOp.call]
  rw [remove]
  cases hparse : parsePath (normalizePath path) with
  | none => exact streamsStep_same (hnone (by simp [hparse])) name
  | some c =>
    cases c with
    | Message n id =>
      have hcall : op.call = some (n, .removeMessage id) := by
        rcases hop with rfl | rfl <;> simp [StreamOp.call, hparse]
      exact streamsStep_updateStream hcall (by intro s; rfl) name
    | StreamDir n =>
      have hcall := hnone (by simp [hparse])
      by_cases hname : n = name
      · refine .removed hcall ?_
        rw [hname]
        exact Std.TreeMap.getElem?_erase_self
      · refine .same ?_ fun c hc => by rw [hcall] at hc; cases hc
        rw [Std.TreeMap.getElem?_erase, if_neg]
        rwa [Std.LawfulEqOrd.compare_eq_iff_eq]
    | _ => exact streamsStep_same (hnone (by simp [hparse])) name

lemma streamsStep_create (path : PathBuf) (name : Bytes) :
    StreamsStep checks fs (fs.create checks path).2 (.create path) name := by
  rw [create]
  cases hparse : parsePath (normalizePath path) with
  | none => exact streamsStep_same (by simp [StreamOp.call, hparse]) name
  | some c =>
    cases c with
    | Message n id =>
      have hcall : (StreamOp.create path).call = some (n, .createMessage id) := by
        simp [StreamOp.call, hparse]
      exact streamsStep_updateStream hcall (by intro s; rfl) name
    | Head n =>
      have hcall : (StreamOp.create path).call = some (n, .resetHead) := by
        simp [StreamOp.call, hparse]
      exact streamsStep_updateStream hcall (by intro s; rfl) name
    | _ => exact streamsStep_same (by simp [StreamOp.call, hparse]) name

lemma streamsStep_write (path : PathBuf) (data : Vec) (offset : Int64) (flags : WriteFlags)
    (name : Bytes) : StreamsStep checks fs (fs.write checks path data offset flags).2
      (.write path data offset flags) name := by
  rw [write]
  cases hparse : parsePath (normalizePath path) with
  | none => exact streamsStep_same (by simp [StreamOp.call, hparse]) name
  | some c =>
    cases c with
    | Message n id =>
      have hcall : (StreamOp.write path data offset flags).call =
          some (n, .writeMessage id data offset) := by simp [StreamOp.call, hparse]
      exact streamsStep_updateStream hcall (by intro s; rfl) name
    | Tail n =>
      have hcall : (StreamOp.write path data offset flags).call = some (n, .writeTail data) := by
        simp [StreamOp.call, hparse]
      exact streamsStep_updateStream hcall (by intro s; rfl) name
    | Head n =>
      have hcall : (StreamOp.write path data offset flags).call = some (n, .writeHead data) := by
        simp [StreamOp.call, hparse]
      exact streamsStep_updateStream hcall (by intro s; rfl) name
    | _ => exact streamsStep_same (by simp [StreamOp.call, hparse]) name

lemma streamsStep_mkdir (path : PathBuf) (perm : UInt32) (name : Bytes) :
    StreamsStep checks fs (fs.mkdir path perm).2 (.mkdir path perm) name := by
  rw [mkdir]
  cases hparse : parsePath (normalizePath path) with
  | none => exact streamsStep_same rfl name
  | some c =>
    cases c with
    | StreamDir n =>
      simp only [createStream]
      split_ifs with hfull hcontains
      · exact streamsStep_same rfl name
      · exact streamsStep_same rfl name
      · by_cases hname : n = name
        · subst hname
          refine .created ?_ rfl ⟨_, hparse⟩ ?_
          · rwa [Std.TreeMap.contains_iff_mem, Std.TreeMap.mem_iff_isSome_getElem?,
              Option.not_isSome_iff_eq_none] at hcontains
          · rw [get?_insert, if_pos rfl]
        · exact .same (by rw [get?_insert, if_neg hname]) nofun
    | _ => exact streamsStep_same rfl name

/-- A call of an operation changes one stream at most. -/
theorem streams_exec (checks : Bool) (fs : StreamFS) (now : DateTime) (op : StreamOp)
    (name : Bytes) :
    StreamsStep checks fs (fs.exec checks now op).2 op name := by
  cases op with
  | create path => exact streamsStep_create path name
  | write path data offset flags => exact streamsStep_write path data offset flags name
  | mkdir path perm => exact streamsStep_mkdir path perm name
  | remove path => exact streamsStep_remove path name (Or.inl rfl)
  | removeAll path => exact streamsStep_remove path name (Or.inr rfl)
  | _ => exact streamsStep_same rfl name

/-- The stream of a call after it. -/
lemma get?_exec_of_call {op : StreamOp} {name : Bytes} {c : StreamCall} {s : Stream}
    (hcall : op.call = some (name, c)) (hs : fs.streams[name]? = some s) (now : DateTime) :
    (fs.exec checks now op).2.streams[name]? = some (s.exec checks fs.config c).2 := by
  cases streams_exec checks fs now op name with
  | same _ hnone => rw [hnone c hcall] at hs; cases hs
  | call c' s' hcall' hs' heq =>
    obtain rfl := Option.some.inj (hs.symm.trans hs')
    obtain rfl := (Prod.mk.inj (Option.some.inj (hcall.symm.trans hcall'))).2
    exact heq
  | created hnone _ _ _ => rw [hnone] at hs; cases hs
  | removed hcall' _ => rw [hcall'] at hcall; cases hcall

/-- The configuration stays. -/
lemma config_exec (checks : Bool) (fs : StreamFS) (now : DateTime) (op : StreamOp) :
    (fs.exec checks now op).2.config = fs.config := by
  have hupdate : ∀ {A : Type} (path : PathBuf) (name : Bytes) (f : Stream → Result A × Stream),
      (fs.updateStream path name f).2.config = fs.config := by
    intro A path name f
    rw [updateStream]
    cases fs.streams[name]? <;> rfl
  have hremove : ∀ path, (fs.remove path).2.config = fs.config := by
    intro path
    rw [remove]
    split
    · exact hupdate _ _ _
    · rfl
    · rfl
  cases op with
  | create path =>
    show (fs.create checks path).2.config = _
    rw [create]
    split
    · exact hupdate _ _ _
    · exact hupdate _ _ _
    · rfl
  | write path data offset flags =>
    show (fs.write checks path data offset flags).2.config = _
    rw [write]
    split
    · exact hupdate _ _ _
    · exact hupdate _ _ _
    · exact hupdate _ _ _
    · rfl
  | mkdir path perm =>
    show (fs.mkdir path perm).2.config = _
    rw [mkdir]
    split
    · rfl
    · rw [createStream]
      split_ifs <;> rfl
    · rfl
    · rfl
  | remove path => exact hremove path
  | removeAll path => exact hremove path
  | _ => rfl

/-! ### Runs -/

/-- One call, at a time. -/
def opStep (checks : Bool) (fs : StreamFS) (c : StreamOp × DateTime) : Option StreamFS :=
  some (fs.exec checks c.2 c.1).2

/-- A statement about all streams. -/
def AllStreams (P : Stream → Prop) (fs : StreamFS) : Prop :=
  ∀ (name : Bytes) (s : Stream), fs.streams[name]? = some s → P s

/-- What holds of a new stream and is kept by the calls on a stream is kept for all streams. -/
lemma AllStreams.exec {P : Stream → Prop} (h : fs.AllStreams P) (hnew : ∀ name, P (.new name))
    {now : DateTime} {op : StreamOp}
    (hcall : ∀ name c s, op.call = some (name, c) → fs.streams[name]? = some s → P s →
      P (s.exec checks fs.config c).2) :
    (fs.exec checks now op).2.AllStreams P := by
  intro name s hs
  cases streams_exec checks fs now op name with
  | same heq _ => exact h name s (heq ▸ hs)
  | call c s' hc hs' heq =>
    obtain rfl := Option.some.inj (heq.symm.trans hs)
    exact hcall name c s' hc hs' (h name s' hs')
  | created _ _ _ heq =>
    obtain rfl := Option.some.inj (heq.symm.trans hs)
    exact hnew name
  | removed _ heq => cases heq.symm.trans hs

lemma allStreams_new (P : Stream → Prop) (config : StreamConfig) :
    (StreamFS.new config).AllStreams P := by
  intro name s hs
  rw [new, Std.TreeMap.getElem?_emptyc] at hs
  cases hs

end StreamFS

end Racfs.StreamFs
