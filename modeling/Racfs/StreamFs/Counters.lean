/-
# The head and the tail of a stream

The tail is behind all messages, and no addition overflows, as long as no message is stored
under the largest number (`counters_iff`).  The head is moved by the consumer and by the
eviction.  The eviction sets it behind the message that goes last, wherever the consumer is: the
head goes backwards exactly when the consumer is further than that (`neverBackwards_iff`).
-/
import Racfs.StreamFs.Paths

namespace Racfs.StreamFs

/-! ### The tail -/

namespace Stream

variable {checks : Bool} {config : StreamConfig} {s : Stream}

/-- The tail is behind all messages. -/
def TailAhead (s : Stream) : Prop := ∀ id ∈ s.messages, id < s.tail

/-- A call stores no message under the largest number. -/
def Below (config : StreamConfig) (s : Stream) (c : StreamCall) : Prop :=
  (∀ id, c = .createMessage id → id.toNat ≠ 2 ^ 64 - 1) ∧
    ∀ id m, c.stores true config s = some (id, m) → id.toNat ≠ 2 ^ 64 - 1

lemma mem_insert {id id' : UInt64} {m : MessageStorage} (h : id' ∈ (s.insert id m).messages) :
    id' = id ∨ id' ∈ s.messages := by
  rw [insert, Std.TreeMap.mem_insert, Std.LawfulEqOrd.compare_eq_iff_eq] at h
  exact h.imp_left Eq.symm

lemma TailAhead.withMessage (h : s.TailAhead) {id : UInt64} (hid : id.toNat ≠ 2 ^ 64 - 1)
    (m : MessageStorage) : (s.withMessage id m).TailAhead := by
  intro id' hid'
  show id' < if id ≥ s.tail then id + 1 else s.tail
  rcases mem_insert hid' with rfl | hold
  · split_ifs with hge
    · rw [UInt64.lt_iff_toNat_lt, toNat_add_one hid]
      exact Nat.lt_succ_self _
    · exact UInt64.not_le.1 hge
  · have hlt := h id' hold
    split_ifs with hge
    · rw [UInt64.lt_iff_toNat_lt] at hlt ⊢
      rw [ge_iff_le, UInt64.le_iff_toNat_le] at hge
      rw [toNat_add_one hid]
      omega
    · exact hlt

/-- No eviction gets to the largest number. -/
lemma TailAhead.evicted_ok (h : s.TailAhead) {bufferSize : ℕ} {r : Result Unit} {s' : Stream}
    (hs : s.Evicted checks bufferSize r s') : r = .ok () := by
  refine hs.result.resolve_right ?_
  rintro ⟨-, -, k, hk, hmax⟩
  have hmem : k ∈ s.messages := Std.TreeMap.mem_keys.1 (List.mem_of_mem_take hk)
  have hlt := h k hmem
  have htail := s.tail.toNat_lt
  rw [UInt64.lt_iff_toNat_lt] at hlt
  omega

/-- A call that stores nothing under the largest number keeps the tail ahead. -/
theorem TailAhead.exec (h : s.TailAhead) {c : StreamCall} (hc : s.Below config c) :
    (s.exec checks config c).2.TailAhead ∧ (s.exec checks config c).1 ≠ .error .overflow := by
  cases effect_exec checks config s c with
  | created id hcreate hs =>
    have hid := hc.1 id hcreate
    cases hs with
    | panicked _ hmax _ _ => exact absurd hmax hid
    | stored _ hs => rw [hs.1, hs.2]; exact ⟨h.withMessage hid _, nofun⟩
  | stored id m hstores hs =>
    have hid := hc.2 id m (stores_checks checks config s c ▸ hstores)
    cases hs with
    | panicked _ hmax _ _ => exact absurd hmax hid
    | stored _ hs =>
      have hahead := h.withMessage hid m
      rw [hahead.evicted_ok hs]
      refine ⟨fun id' hid' => ?_, nofun⟩
      rw [hs.tail]
      exact hahead id' (hs.mem_of_mem hid')
  | refused _ _ hs hr => rw [hs]; exact ⟨h, hr⟩
  | head _ hs hr => rw [hs, hr]; exact ⟨h, nofun⟩
  | removed id _ hs hr =>
    rw [hs, hr]
    refine ⟨fun id' hid' => h id' ?_, nofun⟩
    exact Std.TreeMap.mem_of_mem_erase hid'

/-- Where additions are checked, storing a message under the largest number panics. -/
lemma exec_overflow_of_not_below {c : StreamCall} (hc : ¬ s.Below config c) :
    (s.exec true config c).1 = .error .overflow := by
  have hpanic : ∀ {id : UInt64} {m : MessageStorage} {next : Stream → Result Unit → Stream → Prop}
      {r : Result Unit} {s' : Stream}, id.toNat = 2 ^ 64 - 1 → Stored true s id m next r s' →
      r = .error .overflow := by
    intro id m next r s' hid hs
    cases hs with
    | panicked _ _ _ hr => exact hr
    | stored hne _ => exact absurd ⟨rfl, hid⟩ hne
  simp only [Below, not_and_or, not_forall, not_not, exists_prop] at hc
  rcases hc with ⟨id, rfl, hid⟩ | ⟨id, m, hstores, hid⟩
  · cases effect_exec true config s (.createMessage id) with
    | created id' hc hs =>
      obtain rfl := StreamCall.createMessage.inj hc
      exact hpanic hid hs
    | stored _ _ hc _ => cases hc
    | refused hc _ _ _ => cases hc
    | head hc _ _ => rcases hc with hc | ⟨data, hc⟩ <;> cases hc
    | removed _ hc _ _ => cases hc
  · exact hpanic hid (stored_of_stores hstores)

end Stream

namespace StreamFS

variable {checks : Bool} {fs : StreamFS}

/-! The results of the calls. -/

lemma overflow_updateStream {A : Type} {path : PathBuf} {name : Bytes}
    {f : Stream → Result A × Stream} :
    (fs.updateStream path name f).1 = .error .overflow ↔
      ∃ s, fs.streams[name]? = some s ∧ (f s).1 = .error .overflow := by
  rw [updateStream]
  cases fs.streams[name]? with
  | none => simp
  | some s => simp

lemma map_eq_overflow {A B : Type} {f : A → B} {x : Result A} :
    x.map f = .error .overflow ↔ x = .error .overflow := by
  cases x <;> simp [Except.map]

/-- A call overflows on its stream. -/
def OverflowsOn (checks : Bool) (fs : StreamFS) (op : StreamOp) : Prop :=
  ∃ name c s, op.call = some (name, c) ∧ fs.streams[name]? = some s ∧
    (s.exec checks fs.config c).1 = .error .overflow

lemma overflowsOn_of_call {op : StreamOp} {name : Bytes} {c : StreamCall}
    (hcall : op.call = some (name, c)) : fs.OverflowsOn checks op ↔
      ∃ s, fs.streams[name]? = some s ∧ (s.exec checks fs.config c).1 = .error .overflow := by
  constructor
  · rintro ⟨name', c', s, hcall', hs, hexec⟩
    obtain ⟨rfl, rfl⟩ := Prod.mk.inj (Option.some.inj (hcall.symm.trans hcall'))
    exact ⟨s, hs, hexec⟩
  · rintro ⟨s, hs, hexec⟩
    exact ⟨name, c, s, hcall, hs, hexec⟩

lemma not_overflowsOn {op : StreamOp} (hcall : op.call = none) : ¬ fs.OverflowsOn checks op := by
  rintro ⟨name, c, s, hcall', -⟩
  rw [hcall] at hcall'
  cases hcall'

/-- A call overflows when it does on its stream. -/
lemma overflow_create_iff (path : PathBuf) :
    (fs.create checks path).1 = .error .overflow ↔ fs.OverflowsOn checks (.create path) := by
  rw [create]
  cases hparse : parsePath (normalizePath path) with
  | none =>
    have hcall : (StreamOp.create path).call = none := by simp [StreamOp.call, hparse]
    exact iff_of_false (by simp) (not_overflowsOn hcall)
  | some c =>
    cases c with
    | Message n id =>
      have hcall : (StreamOp.create path).call = some (n, .createMessage id) := by
        simp [StreamOp.call, hparse]
      rw [overflowsOn_of_call hcall]
      exact overflow_updateStream
    | Head n =>
      have hcall : (StreamOp.create path).call = some (n, .resetHead) := by
        simp [StreamOp.call, hparse]
      rw [overflowsOn_of_call hcall]
      exact overflow_updateStream
    | _ =>
      have hcall : (StreamOp.create path).call = none := by simp [StreamOp.call, hparse]
      exact iff_of_false (by simp) (not_overflowsOn hcall)

lemma overflow_write_iff (path : PathBuf) (data : Vec) (offset : Int64) (flags : WriteFlags) :
    (fs.write checks path data offset flags).1 = .error .overflow ↔
      fs.OverflowsOn checks (.write path data offset flags) := by
  have hupdate : ∀ {name : Bytes} {c : StreamCall} {f : Stream → Result UInt64 × Stream},
      (StreamOp.write path data offset flags).call = some (name, c) →
      (∀ s, (s.exec checks fs.config c).1 = (f s).1.map fun _ => ()) →
      ((fs.updateStream (normalizePath path) name f).1 = .error .overflow ↔
        fs.OverflowsOn checks (.write path data offset flags)) := by
    intro name c f hcall hf
    rw [overflowsOn_of_call hcall, overflow_updateStream]
    simp only [hf, map_eq_overflow]
  rw [write]
  cases hparse : parsePath (normalizePath path) with
  | none =>
    have hcall : (StreamOp.write path data offset flags).call = none := by
      simp [StreamOp.call, hparse]
    exact iff_of_false (by simp) (not_overflowsOn hcall)
  | some c =>
    cases c with
    | Message n id =>
      have hcall : (StreamOp.write path data offset flags).call =
          some (n, .writeMessage id data offset) := by simp [StreamOp.call, hparse]
      exact hupdate hcall (by intro s; rfl)
    | Tail n =>
      have hcall : (StreamOp.write path data offset flags).call = some (n, .writeTail data) := by
        simp [StreamOp.call, hparse]
      exact hupdate hcall (by intro s; rfl)
    | Head n =>
      have hcall : (StreamOp.write path data offset flags).call = some (n, .writeHead data) := by
        simp [StreamOp.call, hparse]
      exact hupdate hcall (by intro s; rfl)
    | _ =>
      have hcall : (StreamOp.write path data offset flags).call = none := by
        simp [StreamOp.call, hparse]
      exact iff_of_false (by simp) (not_overflowsOn hcall)

lemma remove_ne_overflow (path : PathBuf) : (fs.remove path).1 ≠ .error .overflow := by
  rw [remove]
  split
  · rw [Ne, overflow_updateStream]
    rintro ⟨s, -, h⟩
    split_ifs at h
    cases h
  · show (if _ then _ else _ : Result Unit) ≠ _
    split_ifs <;> simp
  · simp

lemma not_overflowsOn_remove {op : StreamOp} {path : PathBuf}
    (hop : op = .remove path ∨ op = .removeAll path) : ¬ fs.OverflowsOn checks op := by
  rintro ⟨name, call, s, hcall, -, hexec⟩
  have hremove : ∃ id, call = .removeMessage id := by
    rcases hop with rfl | rfl <;> simp only [StreamOp.call] at hcall <;> split at hcall <;>
      cases hcall <;> exact ⟨_, rfl⟩
  obtain ⟨id, rfl⟩ := hremove
  cases hexec

/-- The tails of all streams are behind their messages. -/
def TailAhead (fs : StreamFS) : Prop := fs.AllStreams Stream.TailAhead

/-- No addition of a call that creates, writes or removes overflows: where additions are checked,
the call does not panic for that. -/
def OverflowFree (fs : StreamFS) (c : StreamOp × DateTime) : Prop :=
  match c.1 with
  | .create path => (fs.create true path).1 ≠ .error .overflow
  | .write path data offset flags => (fs.write true path data offset flags).1 ≠ .error .overflow
  | .remove path => (fs.remove path).1 ≠ .error .overflow
  | _ => True

/-- A call stores no message under the largest number. -/
def StaysBelow (fs : StreamFS) (c : StreamOp × DateTime) : Prop :=
  ∀ name call s, c.1.call = some (name, call) → fs.streams[name]? = some s →
    s.Below fs.config call

lemma staysBelow_iff_not_overflowsOn (h : fs.TailAhead) (c : StreamOp × DateTime) :
    fs.StaysBelow c ↔ ¬ fs.OverflowsOn true c.1 := by
  constructor
  · rintro hbelow ⟨name, call, s, hcall, hs, hexec⟩
    exact ((h name s hs).exec (hbelow name call s hcall hs)).2 hexec
  · intro hoverflow name call s hcall hs
    by_contra hbelow
    exact hoverflow ⟨name, call, s, hcall, hs, Stream.exec_overflow_of_not_below hbelow⟩

/-- Removals store nothing, and the other calls do not touch the streams. -/
lemma overflowFree_iff (h : fs.TailAhead) (c : StreamOp × DateTime) :
    fs.OverflowFree c ↔ fs.StaysBelow c := by
  rw [staysBelow_iff_not_overflowsOn h]
  obtain ⟨op, now⟩ := c
  cases op with
  | create path => exact not_congr (overflow_create_iff path)
  | write path data offset flags => exact not_congr (overflow_write_iff path data offset flags)
  | remove path =>
    exact iff_of_true (remove_ne_overflow path) (not_overflowsOn_remove (Or.inl rfl))
  | removeAll path => exact iff_of_true trivial (not_overflowsOn_remove (Or.inr rfl))
  | _ => exact iff_of_true trivial (not_overflowsOn rfl)

lemma TailAhead.exec (h : fs.TailAhead) {c : StreamOp × DateTime} (hc : fs.StaysBelow c) :
    (fs.exec checks c.2 c.1).2.TailAhead := by
  refine AllStreams.exec h (fun name id hid => ?_) fun name call s hcall hs hahead =>
    (hahead.exec (hc name call s hcall hs)).1
  exact absurd hid Std.TreeMap.not_mem_emptyc

/-- **The counters.**  In all states of a run the tail is greater than the numbers of all messages
and no addition of a call that creates, writes or removes overflows, exactly when no call stores
a message under the largest number. -/
theorem counters_iff (checks : Bool) (config : StreamConfig)
    (calls : List (StreamOp × DateTime)) :
    (StatesMeet (opStep checks) TailAhead (.new config) calls ∧
      StepsMeet (opStep checks) OverflowFree (.new config) calls) ↔
        StepsMeet (opStep checks) StaysBelow (.new config) calls := by
  have hstep : ∀ (fs : StreamFS) (c : StreamOp × DateTime) (fs' : StreamFS), fs.TailAhead →
      fs.StaysBelow c → opStep checks fs c = some fs' → fs'.TailAhead := by
    intro fs c fs' h hc hs
    obtain rfl := Option.some.inj hs
    exact h.exec hc
  have hnew : (StreamFS.new config).TailAhead := allStreams_new _ config
  have hiff : StepsMeet (opStep checks) OverflowFree (.new config) calls ↔
      StepsMeet (opStep checks) StaysBelow (.new config) calls :=
    stepsMeet_iff_of_invariant (fun _ c h => overflowFree_iff h c) hstep hnew
  rw [hiff]
  exact and_iff_right_of_imp fun h => statesMeet_of_stepsMeet hstep hnew h

/-- The message with the largest number is created. -/
def lastMessage : List (StreamOp × DateTime) :=
  [(.mkdir ⟨ascii "/streams/s"⟩ 0o755, 0),
    (.create ⟨ascii "/streams/s/data/18446744073709551615.msg"⟩, 1)]

/-- Without checks the tail wraps around to zero. -/
theorem not_tailAhead_lastMessage :
    ¬ ∀ checks config calls, StatesMeet (opStep checks) TailAhead (.new config) calls ∧
      StepsMeet (opStep checks) OverflowFree (.new config) calls := by
  intro h
  have hstates := (h false StreamConfig.default lastMessage).1
  have hahead := ((hstates.2 _ rfl).2 _ rfl) (ascii "s") _ rfl (2 ^ 64 - 1)
  revert hahead
  decide +kernel

end StreamFS

/-! ### The head -/

namespace Stream

variable {checks : Bool} {config : StreamConfig} {s : Stream}

/-- When a write of a producer evicts, the head is at most behind the last message that goes.  The
write evicts unless it panics before. -/
def HeadBehind (checks : Bool) (config : StreamConfig) (s : Stream) (c : StreamCall) : Prop :=
  ∀ id m, c.stores checks config s = some (id, m) →
    ¬ (checks = true ∧ id.toNat = 2 ^ 64 - 1) →
      ∀ k, ((s.insert id m).passed checks config.bufferSize).getLast? = some k → s.head ≤ k + 1

/-- A write of a producer does not lower the head exactly when the head is not further. -/
theorem head_le_exec_iff {c : StreamCall} (hc : c.IsProducer) :
    s.head ≤ (s.exec checks config c).2.head ↔ s.HeadBehind checks config c := by
  cases effect_exec checks config s c with
  | created id hcreate _ => subst hcreate; cases hc
  | stored id m hstores hs =>
    have hbehind : s.HeadBehind checks config c ↔ (¬ (checks = true ∧ id.toNat = 2 ^ 64 - 1) →
        ∀ k, ((s.insert id m).passed checks config.bufferSize).getLast? = some k →
          s.head ≤ k + 1) := by
      refine ⟨fun h => h id m hstores, fun h id' m' hstores' => ?_⟩
      obtain ⟨rfl, rfl⟩ := Prod.mk.inj (Option.some.inj (hstores.symm.trans hstores'))
      exact h
    rw [hbehind]
    cases hs with
    | panicked hchecks hmax hs' _ =>
      rw [hs']
      exact iff_of_true (UInt64.le_refl _) fun hne => absurd ⟨hchecks, hmax⟩ hne
    | stored hne hs' =>
      -- the head of the stream with the message is that before
      have hhead : (s.exec checks config c).2.head =
          (((s.insert id m).passed checks config.bufferSize).getLast?.map (· + 1)).getD s.head :=
        hs'.head
      rw [hhead]
      cases (passed checks config.bufferSize (s.insert id m)).getLast? with
      | none => exact iff_of_true (UInt64.le_refl _) fun _ => nofun
      | some k =>
        refine ⟨fun h _ k' hk' => ?_, fun h => h hne k rfl⟩
        obtain rfl := Option.some.inj hk'
        exact h
  | refused _ hstores hs _ =>
    rw [hs]
    refine iff_of_true (UInt64.le_refl _) fun id m hsome => ?_
    rw [hstores] at hsome
    cases hsome
  | head hhead _ _ => rcases hhead with rfl | ⟨data, rfl⟩ <;> cases hc
  | removed id hremove _ _ => subst hremove; cases hc

lemma isProducer_of_stores {c : StreamCall} {e : UInt64 × MessageStorage}
    (h : c.stores checks config s = some e) : c.IsProducer := by
  cases c with
  | writeMessage id data offset => trivial
  | writeTail data => trivial
  | _ => cases h

end Stream

/-- A write to the tail or to a message of some stream. -/
def StreamOp.IsProducer (op : StreamOp) : Prop :=
  ∃ name c, op.call = some (name, c) ∧ c.IsProducer

namespace StreamFS

variable {checks : Bool} {config : StreamConfig} {fs : StreamFS}

/-- What a read of the head at a path says. -/
def headRead (checks : Bool) (fs : StreamFS) (path : PathBuf) : Option UInt64 :=
  match fs.read checks path 0 (-1) with
  | .ok text => parseU64 text
  | .error _ => none

lemma headRead_eq {path : PathBuf} {name : Bytes}
    (h : parsePath (normalizePath path) = some (.Head name)) :
    fs.headRead checks path = fs.streams[name]?.map Stream.head := by
  rw [headRead, read, h]
  simp only [onStream]
  cases fs.streams[name]? with
  | none => rfl
  | some s => exact parseU64_zeroPadded 6 s.head

/-- In a run, a head that is read is not less than one that has been read before when there were
only writes of producers in between. -/
def NeverBackwards (checks : Bool) (config : StreamConfig) (calls : List (StreamOp × DateTime)) :
    Prop :=
  ∀ before between after, calls = before ++ between ++ after →
    (∀ c ∈ between, c.1.IsProducer) →
    ∀ fs₁ fs₂, run (opStep checks) (.new config) before = some fs₁ →
      run (opStep checks) fs₁ between = some fs₂ →
      ∀ path name, parsePath (normalizePath path) = some (.Head name) →
        ∀ h₁ h₂, fs₁.headRead checks path = some h₁ → fs₂.headRead checks path = some h₂ → h₁ ≤ h₂

/-- When a producer's write evicts, the head is at most behind the last message that goes. -/
def HeadBehind (checks : Bool) (fs : StreamFS) (c : StreamOp × DateTime) : Prop :=
  ∀ name call s, c.1.call = some (name, call) → fs.streams[name]? = some s →
    s.HeadBehind checks fs.config call

/-- The head of a stream after writes of producers. -/
lemma head_le_of_run {between : List (StreamOp × DateTime)}
    (hproducer : ∀ c ∈ between, c.1.IsProducer) {fs fs' : StreamFS}
    (hsteps : StepsMeet (opStep checks) (HeadBehind checks) fs between)
    (hrun : run (opStep checks) fs between = some fs') {name : Bytes} {s : Stream}
    (hs : fs.streams[name]? = some s) :
    ∃ s', fs'.streams[name]? = some s' ∧ s.head ≤ s'.head := by
  induction between generalizing fs s with
  | nil =>
    obtain rfl := Option.some.inj hrun
    exact ⟨s, hs, UInt64.le_refl _⟩
  | cons c between ih =>
    obtain ⟨fs₁, hstep, hrest⟩ := exists_of_run_cons hrun
    obtain ⟨hbehind, hsteps⟩ := hsteps fs₁ hstep
    obtain rfl := Option.some.inj hstep
    obtain ⟨n, call, hcall, hcallp⟩ := hproducer c List.mem_cons_self
    have hnext : ∀ s₁, (fs.exec checks c.2 c.1).2.streams[name]? = some s₁ →
        ∃ s', fs'.streams[name]? = some s' ∧ s₁.head ≤ s'.head := fun s₁ hs₁ =>
      ih (fun c hc => hproducer c (List.mem_cons_of_mem _ hc)) hsteps hrest hs₁
    cases streams_exec checks fs c.2 c.1 name with
    | same heq _ => exact hnext s (heq.trans hs)
    | call call' s' hcall' hs' heq =>
      obtain rfl := Option.some.inj (hs.symm.trans hs')
      obtain ⟨rfl, rfl⟩ := Prod.mk.inj (Option.some.inj (hcall.symm.trans hcall'))
      obtain ⟨s₂, hs₂, hle⟩ := hnext _ heq
      have hhead := (Stream.head_le_exec_iff hcallp).2 (hbehind n call s hcall hs)
      exact ⟨s₂, hs₂, UInt64.le_trans hhead hle⟩
    | created hnone _ _ _ => rw [hnone] at hs; cases hs
    | removed hcall' _ => rw [hcall'] at hcall; cases hcall

/-- **The consumer is not moved backwards.**  In a run, writes of producers never lower the head
between two reads of it exactly when each write that evicts finds the head at most behind the
last message that goes. -/
theorem neverBackwards_iff (checks : Bool) (config : StreamConfig)
    (calls : List (StreamOp × DateTime)) :
    NeverBackwards checks config calls ↔
      StepsMeet (opStep checks) (HeadBehind checks) (.new config) calls := by
  constructor
  · refine fun h => stepsMeet_of_forall fun before c after heq fs hfs name call s hcall hs => ?_
    intro id m hstores
    have hproducer : call.IsProducer := Stream.isProducer_of_stores hstores
    have hname : IsStreamName name := by
      have hreachable : Reachable (opStep checks) (.new config) fs := ⟨before, hfs⟩
      exact named_of_reachable hreachable name s hs
    have hpath : parsePath (normalizePath (partPath name (ascii "head"))) = some (.Head name) := by
      rw [normalizePath_partPath, parsePath_headPath hname]
    have hle := h before [c] after (by rw [heq, List.append_assoc, List.singleton_append])
      (by simpa using ⟨name, call, hcall, hproducer⟩) fs _ hfs rfl _ name hpath
      s.head (s.exec checks fs.config call).2.head
    rw [headRead_eq hpath, headRead_eq hpath, hs, get?_exec_of_call hcall hs] at hle
    exact (Stream.head_le_exec_iff hproducer).1 (hle rfl rfl) id m hstores
  · intro hsteps before between after heq hproducer fs₁ fs₂ hbefore hbetween path name hpath h₁ h₂
      hread₁ hread₂
    rw [heq, List.append_assoc, stepsMeet_append] at hsteps
    have hsteps' := (stepsMeet_append.1 (hsteps.2 fs₁ hbefore)).1
    rw [headRead_eq hpath, Option.map_eq_some_iff] at hread₁ hread₂
    obtain ⟨s₁, hs₁, rfl⟩ := hread₁
    obtain ⟨s₂, hs₂, rfl⟩ := hread₂
    obtain ⟨s, hs, hle⟩ := head_le_of_run hproducer hsteps' hbetween hs₁
    obtain rfl := Option.some.inj (hs.symm.trans hs₂)
    exact hle

/-- Three messages are written to a stream with room for two, and the consumer, who has read the
first two, has set the head to three before the last one is written. -/
def consumerAhead : List (StreamOp × DateTime) :=
  [(.mkdir ⟨ascii "/streams/s"⟩ 0o755, 0),
    (.write ⟨ascii "/streams/s/tail"⟩ ⟨ascii "a", by decide⟩ 0 .NONE, 1),
    (.write ⟨ascii "/streams/s/tail"⟩ ⟨ascii "b", by decide⟩ 0 .NONE, 2),
    (.write ⟨ascii "/streams/s/head"⟩ ⟨ascii "3", by decide⟩ 0 .NONE, 3),
    (.write ⟨ascii "/streams/s/tail"⟩ ⟨ascii "c", by decide⟩ 0 .NONE, 4)]

/-- The eviction of the first message sets the head back to two. -/
theorem not_neverBackwards_consumerAhead :
    ¬ ∀ checks config calls, NeverBackwards checks config calls := by
  intro h
  have hproducer : ∀ c ∈ consumerAhead.drop 4, c.1.IsProducer :=
    List.forall_mem_singleton.2 ⟨ascii "s", .writeTail ⟨ascii "c", by decide⟩, rfl, trivial⟩
  have hle := h true ⟨2, 1, none⟩ consumerAhead (consumerAhead.take 4) (consumerAhead.drop 4) []
    rfl hproducer _ _ rfl rfl ⟨ascii "/streams/s/head"⟩ (ascii "s") (by decide) 3 2 (by decide)
    (by decide)
  exact absurd hle (by decide)

end StreamFS

end Racfs.StreamFs
