/-
# Runs of the queue filesystem

A queue is meant to be a log: the messages in the order in which they were sent, and the
identifiers of those that have been acknowledged (`History`).  The history of a queue begins
when the queue is created.  We run the filesystem together with the histories of its queues,
which are written from the calls that succeed only, and show that the queue that is stored
always represents its history (`Represents`), as long as no queue gets 2^64 messages.

So no message is lost or given twice, and the count is right (`messages_accounted`).
-/
import Racfs.QueueFs.Model
import Racfs.Lib.Run
import Mathlib.Data.List.Dedup

namespace Racfs.QueueFs

/-- What has happened to a queue since it was created. -/
structure History where
  /-- The identifiers and the data of the messages, the oldest first. -/
  sent : List (Bytes × Bytes)
  /-- The acknowledged identifiers, one for each call. -/
  acked : List Bytes

namespace History

/-- A new queue. -/
def empty : History := ⟨[], []⟩

/-- A message is sent. -/
def send (h : History) (id data : Bytes) : History := { h with sent := h.sent ++ [(id, data)] }

/-- A message is acknowledged. -/
def ack (h : History) (id : Bytes) : History := { h with acked := h.acked ++ [id] }

/-- The messages that are not acknowledged, the oldest first. -/
def pending (h : History) : List (Bytes × Bytes) := h.sent.filter fun e => e.1 ∉ h.acked

end History

/-- A call. -/
inductive Event
  | mkdir (path : PathBuf) (perm : UInt32)
  | remove (path : PathBuf)
  | removeAll (path : PathBuf)
  | write (path : PathBuf) (data : Bytes) (offset : Int64) (flags : WriteFlags)

/-- The filesystem and the histories of its queues. -/
structure State where
  fs : QueueFS
  hist : AssocMap Bytes History

/-- No queues. -/
def init : State := ⟨.new, ∅⟩

/-- Run a call. -/
def exec (fs : QueueFS) : Event → Outcome Unit × QueueFS
  | .mkdir path perm => fs.mkdir path perm
  | .remove path => fs.remove path
  | .removeAll path => fs.removeAll path
  | .write path data offset flags =>
    let r := fs.write path data offset flags
    (r.1.map fun _ => (), r.2)

open QueueFS

/-- The histories after a call that succeeds.  The identifier of a message is the one that
`enqueue` returns. -/
def record (s : State) : Event → AssocMap Bytes History
  | .mkdir path _ => s.hist.insert (parseQueuePath path).1 .empty
  | .remove path => s.hist.erase (parseQueuePath path).1
  | .removeAll path => s.hist.erase (parseQueuePath path).1
  | .write path data _ _ =>
    match parseQueuePath path with
    | (name, [_]) =>
      match s.fs.queues.get? name with
      | some q => s.hist.modify name fun h => h.send (q.enqueue data).1 data
      | none => s.hist
    | (name, [_, id]) => s.hist.modify name fun h => h.ack id
    | _ => s.hist

/-- One call. -/
def step (s : State) (ev : Event) : Option State :=
  some ⟨(exec s.fs ev).2, if (exec s.fs ev).1.isOk then record s ev else s.hist⟩

/-! ### What a call does -/

/-- The effect of a call: it fails and changes nothing, or it does one of four things. -/
inductive Effect (fs : QueueFS) : Event → Outcome Unit → QueueFS → Prop
  | fail {ev : Event} {r : Outcome Unit} (hr : r.isOk = false) : Effect fs ev r fs
  | mkdir {path : PathBuf} {perm : UInt32} {name : Bytes} (hpath : parseQueuePath path = (name, []))
      (hnone : fs.queues.get? name = none) :
      Effect fs (.mkdir path perm) (.ok ()) ⟨fs.queues.insert name .new⟩
  | remove {ev : Event} {path : PathBuf} {name : Bytes}
      (hev : ev = .remove path ∨ ev = .removeAll path) (hpath : parseQueuePath path = (name, [])) :
      Effect fs ev (.ok ()) ⟨fs.queues.erase name⟩
  | enqueue {path : PathBuf} {data : Bytes} {offset : Int64} {flags : WriteFlags} {name : Bytes}
      {q : Queue} (hpath : parseQueuePath path = (name, [ascii "tail"]))
      (hq : fs.queues.get? name = some q) :
      Effect fs (.write path data offset flags) (.ok ())
        ⟨fs.queues.modify name fun _ => (q.enqueue data).2⟩
  | dequeue {path : PathBuf} {data : Bytes} {offset : Int64} {flags : WriteFlags} {name id : Bytes}
      {q q' : Queue} (hpath : parseQueuePath path = (name, [ascii ".ack", id]))
      (hq : fs.queues.get? name = some q) (hid : q.dequeue id = .ok q') :
      Effect fs (.write path data offset flags) (.ok ()) ⟨fs.queues.modify name fun _ => q'⟩

lemma effect_mkdir (fs : QueueFS) (path : PathBuf) (perm : UInt32) :
    Effect fs (.mkdir path perm) (fs.mkdir path perm).1 (fs.mkdir path perm).2 := by
  rcases hparse : parseQueuePath path with ⟨name, rest⟩
  simp only [QueueFS.mkdir, hparse]
  split_ifs with h1 h2 h3
  · exact .fail rfl
  · exact .fail rfl
  · exact .fail rfl
  · simp only [ne_eq, not_not] at h2
    rw [Bool.not_eq_true, AssocMap.contains_eq_false_iff] at h3
    exact .mkdir (by rw [hparse, h2]) h3

lemma effect_remove (fs : QueueFS) (ev : Event) (path : PathBuf)
    (hev : ev = .remove path ∨ ev = .removeAll path) :
    Effect fs ev (fs.remove path).1 (fs.remove path).2 := by
  rcases hparse : parseQueuePath path with ⟨name, rest⟩
  simp only [QueueFS.remove, hparse]
  split_ifs with h1 h2
  · exact .remove hev (by rw [hparse, h1])
  · exact .fail rfl
  · exact .fail rfl

lemma effect_write (fs : QueueFS) (path : PathBuf) (data : Bytes) (offset : Int64)
    (flags : WriteFlags) :
    Effect fs (.write path data offset flags) ((fs.write path data offset flags).1.map fun _ => ())
      (fs.write path data offset flags).2 := by
  rcases hparse : parseQueuePath path with ⟨name, rest⟩
  simp only [QueueFS.write, hparse]
  by_cases hname : fs.queues.contains name = true
  · obtain ⟨q, hq⟩ := AssocMap.contains_iff.1 hname
    match rest with
    | [] => exact .fail rfl
    | [f] =>
      by_cases hf : f = ascii "tail"
      · simp only [hname, hf, onQueue, hq]
        exact .enqueue (by rw [hparse, hf]) hq
      · simp only [hname, hf]
        exact .fail rfl
    | [d, id] =>
      by_cases hd : d = ascii ".ack"
      · simp only [hname, hd]
        by_cases hflags : offset ≠ 0 ∨ (!flags.isEmpty) = true
        · simp only [hflags]
          exact .fail rfl
        · simp only [hflags]
          cases hutf : utf8Error data with
          | some e => exact .fail rfl
          | none =>
            by_cases htrim : trim data = ascii "done"
            · simp only [htrim, onQueue, hq]
              cases hdeq : q.dequeue id with
              | ok q' => exact .dequeue (by rw [hparse, hd]) hq hdeq
              | err e => exact .fail rfl
              | panic => exact .fail rfl
            · simp only [ne_eq, htrim]
              exact .fail rfl
      · simp only [hname, hd]
        exact .fail rfl
    | _ :: _ :: _ :: _ =>
      simp only [hname]
      exact .fail rfl
  · rw [Bool.not_eq_true] at hname
    simp only [hname, Bool.not_false, if_true]
    split_ifs with hrest
    · exact .fail rfl
    · exact .fail rfl

lemma effect_exec (fs : QueueFS) (ev : Event) : Effect fs ev (exec fs ev).1 (exec fs ev).2 := by
  cases ev with
  | mkdir path perm => exact effect_mkdir fs path perm
  | remove path => exact effect_remove fs _ path (Or.inl rfl)
  | removeAll path => exact effect_remove fs _ path (Or.inr rfl)
  | write path data offset flags => exact effect_write fs path data offset flags

/-! ### A queue and its history -/

/-- The stored queue is the one that the history describes. -/
structure Represents (q : Queue) (h : History) : Prop where
  /-- The counter is one ahead of the messages. -/
  next : q.nextId = UInt64.ofNat (h.sent.length + 1)
  /-- The messages are numbered from one. -/
  ids : h.sent.map Prod.fst = (List.range h.sent.length).map fun i => zeroPadded 6 (i + 1)
  /-- The table has the messages with their marks. -/
  get : ∀ id m, q.messages[id]? = some m ↔
    ∃ data, (id, data) ∈ h.sent ∧ m = ⟨id, data, decide (id ∈ h.acked)⟩
  /-- Only messages of the queue are acknowledged. -/
  acked : ∀ id ∈ h.acked, id ∈ h.sent.map Prod.fst

lemma getElem?_insert_message (t : Std.TreeMap Bytes Message) (id id' : Bytes) (m : Message) :
    (t.insert id m)[id']? = if id = id' then some m else t[id']? := by
  simp [Std.TreeMap.getElem?_insert]

lemma represents_new : Represents .new .empty where
  next := rfl
  ids := rfl
  get := by simp [Queue.new, History.empty]
  acked := by simp [History.empty]

namespace Represents

variable {q : Queue} {h : History}

/-- The identifier of the message at a position. -/
lemma id_eq (hq : Represents q h) {i : ℕ} {e : Bytes × Bytes} (he : h.sent[i]? = some e) :
    e.1 = zeroPadded 6 (i + 1) := by
  have hi : i < h.sent.length := by
    rw [List.getElem?_eq_some_iff] at he
    exact he.1
  have hmap : (h.sent.map Prod.fst)[i]? = some e.1 := by rw [List.getElem?_map, he]; rfl
  rw [hq.ids, List.getElem?_map, List.getElem?_range hi] at hmap
  exact (Option.some.inj hmap).symm

/-- No identifier is given twice. -/
lemma nodup (hq : Represents q h) : (h.sent.map Prod.fst).Nodup := by
  rw [hq.ids]
  refine List.Nodup.map ?_ List.nodup_range
  intro i j hij
  exact Nat.succ_injective (zeroPadded_injective 6 hij)

lemma toNat_nextId (hq : Represents q h) : q.nextId.toNat = (h.sent.length + 1) % 2 ^ 64 := by
  rw [hq.next]
  exact UInt64.toNat_ofNat'

/-- The identifier of the next message is new. -/
lemma fresh (hq : Represents q h) (hlen : h.sent.length < 2 ^ 64) (data : Bytes) :
    (q.enqueue data).1 ∉ h.sent.map Prod.fst := by
  show zeroPadded 6 q.nextId.toNat ∉ _
  rw [hq.ids, hq.toNat_nextId, List.mem_map]
  rintro ⟨i, hi, heq⟩
  have hnum := zeroPadded_injective 6 heq
  rw [List.mem_range] at hi
  omega

lemma enqueue (hq : Represents q h) (data : Bytes) (hlen : h.sent.length + 1 < 2 ^ 64) :
    Represents (q.enqueue data).2 (h.send (q.enqueue data).1 data) := by
  have hfresh := hq.fresh (by omega) data
  have hid : (q.enqueue data).1 = zeroPadded 6 (h.sent.length + 1) := by
    show zeroPadded 6 q.nextId.toNat = _
    rw [hq.toNat_nextId, Nat.mod_eq_of_lt hlen]
  refine ⟨?_, ?_, fun id m => ?_, fun id hmem => ?_⟩
  · show q.nextId + 1 = UInt64.ofNat ((h.sent ++ [_]).length + 1)
    rw [hq.next, List.length_append]
    simp
  · show (h.sent ++ [_]).map Prod.fst = _
    rw [History.send, List.map_append, hq.ids, List.length_append, List.length_singleton,
      List.range_succ, List.map_append, hid]
    rfl
  · show (q.messages.insert (q.enqueue data).1 ⟨(q.enqueue data).1, data, false⟩)[id]? = _ ↔ _
    rw [getElem?_insert_message]
    split_ifs with heq
    · subst heq
      have hnot : (q.enqueue data).1 ∉ h.acked := fun hmem => hfresh (hq.acked _ hmem)
      constructor
      · rintro ⟨⟩
        exact ⟨data, by simp [History.send], by simp [History.send, hnot]⟩
      · rintro ⟨data', hdata', rfl⟩
        rcases List.mem_append.1 hdata' with hold | hnew
        · exact absurd (List.mem_map_of_mem hold) hfresh
        · rw [List.mem_singleton, Prod.mk.injEq] at hnew
          simp [History.send, hnot, hnew.2]
    · rw [hq.get]
      have hne : ∀ data', (id, data') ≠ ((q.enqueue data).1, data) := fun data' heq' =>
        heq (congrArg Prod.fst heq').symm
      simp only [History.send, List.mem_append, List.mem_singleton, hne, or_false]
      rfl
  · show id ∈ (h.sent ++ [_]).map Prod.fst
    rw [List.map_append, List.mem_append]
    exact Or.inl (hq.acked id hmem)

lemma dequeue (hq : Represents q h) {q' : Queue} {id : Bytes} (hid : q.dequeue id = .ok q') :
    Represents q' (h.ack id) := by
  rw [Queue.dequeue] at hid
  cases hget : q.messages[id]? with
  | none => simp [hget] at hid
  | some m₀ =>
    obtain ⟨data₀, hdata₀, rfl⟩ := (hq.get id m₀).1 hget
    rw [hget] at hid
    cases hid
    refine ⟨hq.next, hq.ids, fun id' m => ?_, fun id' hmem => ?_⟩
    · rw [Std.TreeMap.getElem?_modify]
      by_cases heq : id = id'
      · subst heq
        simp only [Std.LawfulEqCmp.compare_eq_iff_eq, if_true, hget, Option.map_some,
          Option.some.injEq, History.ack, List.mem_append, List.mem_singleton, or_true,
          decide_true]
        constructor
        · rintro rfl
          exact ⟨data₀, hdata₀, rfl⟩
        · rintro ⟨data, hdata, rfl⟩
          have hm := (hq.get id _).2 ⟨data, hdata, rfl⟩
          rw [hget] at hm
          cases hm
          rfl
      · have hmem : id' ∈ (h.ack id).acked ↔ id' ∈ h.acked := by
          simp [History.ack, Ne.symm heq]
        simp only [Std.LawfulEqCmp.compare_eq_iff_eq, heq, if_false, hmem]
        exact hq.get id' m
    · rcases List.mem_append.1 hmem with hmem | hmem
      · exact hq.acked id' hmem
      · rw [List.mem_singleton.1 hmem]
        exact List.mem_map_of_mem hdata₀

/-! ### The messages that are not acknowledged -/

/-- The entries of the table for the messages that are not acknowledged. -/
def unmarked (q : Queue) : List (Bytes × Message) :=
  q.messages.toList.filter fun e => !e.2.acknowledged

/-- The entry of a message that is not acknowledged. -/
def entry (e : Bytes × Bytes) : Bytes × Message := (e.1, ⟨e.1, e.2, false⟩)

lemma mem_unmarked_iff (hq : Represents q h) {e : Bytes × Message} :
    e ∈ unmarked q ↔ e ∈ h.pending.map entry := by
  obtain ⟨id, m⟩ := e
  rw [unmarked, List.mem_filter, Std.TreeMap.mem_toList_iff_getElem?_eq_some, hq.get]
  simp only [History.pending, List.mem_map, List.mem_filter, decide_eq_true_eq, entry,
    Prod.mk.injEq]
  constructor
  · rintro ⟨⟨data, hdata, rfl⟩, hack⟩
    have hnot : id ∉ h.acked := by simpa using hack
    exact ⟨(id, data), ⟨hdata, hnot⟩, rfl, by simp [hnot]⟩
  · rintro ⟨⟨id', data⟩, ⟨hdata, hnot⟩, rfl, rfl⟩
    exact ⟨⟨data, hdata, by simpa using hnot⟩, rfl⟩

/-- The table lists every message that is not acknowledged, and each of them once. -/
lemma unmarked_perm (hq : Represents q h) : (unmarked q).Perm (h.pending.map entry) := by
  refine (List.perm_ext_iff_of_nodup ?_ ?_).2 fun e => hq.mem_unmarked_iff
  · refine List.Nodup.filter _ (List.Pairwise.imp ?_ Std.TreeMap.distinct_keys_toList)
    rintro a b hab rfl
    exact hab Std.ReflOrd.compare_self
  · have hpending : h.pending.Nodup := (List.Nodup.of_map _ hq.nodup).filter _
    refine hpending.map ?_
    rintro ⟨a, b⟩ ⟨c, d⟩ heq
    simp only [entry, Prod.mk.injEq, Message.mk.injEq] at heq
    exact Prod.ext heq.1 heq.2.2.1

lemma unacknowledged_eq (q : Queue) : q.unacknowledged = (unmarked q).map Prod.snd := by
  rw [Queue.unacknowledged, unmarked, List.filter_map]
  rfl

/-- Each message is pending or one of the acknowledged ones. -/
lemma length_pending (hq : Represents q h) :
    h.pending.length + h.acked.dedup.length = h.sent.length := by
  have hacked : (h.sent.filter fun e => e.1 ∈ h.acked).length = h.acked.dedup.length := by
    rw [← List.length_map (f := Prod.fst)]
    refine List.Perm.length_eq ((List.perm_ext_iff_of_nodup ?_ (List.nodup_dedup _)).2 ?_)
    · exact hq.nodup.sublist (List.filter_sublist.map Prod.fst)
    · intro id
      simp only [List.mem_map, List.mem_filter, decide_eq_true_eq, List.mem_dedup]
      constructor
      · rintro ⟨e, ⟨-, hmem⟩, rfl⟩
        exact hmem
      · intro hmem
        obtain ⟨e, he, rfl⟩ := List.mem_map.1 (hq.acked id hmem)
        exact ⟨e, ⟨he, hmem⟩, rfl⟩
  rw [← hacked, Nat.add_comm, History.pending]
  have hsplit := h.sent.length_eq_length_filter_add fun e => decide (e.1 ∈ h.acked)
  simpa using hsplit.symm

lemma getCount_eq (hq : Represents q h) (hlen : h.sent.length < 2 ^ 64) :
    q.getCount.toNat = h.sent.length - h.acked.dedup.length := by
  have hpending := hq.length_pending
  have hcount : q.unacknowledged.length = h.pending.length := by
    rw [unacknowledged_eq, List.length_map, hq.unmarked_perm.length_eq, List.length_map]
  rw [Queue.getCount, hcount]
  show h.pending.length % 2 ^ 64 = _
  omega

end Represents

/-! ### Runs -/

/-- Every stored queue represents its history. -/
def Inv (s : State) : Prop :=
  ∀ name, Option.Rel Represents (s.fs.queues.get? name) (s.hist.get? name)

/-- No queue has had 2^64 messages. -/
def CounterOk (s : State) : Prop :=
  ∀ name h, s.hist.get? name = some h → h.sent.length < 2 ^ 64

lemma Inv.exists_history {s : State} (hs : Inv s) {name : Bytes} {q : Queue}
    (hq : s.fs.queues.get? name = some q) :
    ∃ h, s.hist.get? name = some h ∧ Represents q h := by
  have hrel := hs name
  rw [hq] at hrel
  cases hh : s.hist.get? name with
  | none => rw [hh] at hrel; cases hrel
  | some h =>
    rw [hh] at hrel
    cases hrel with
    | some hrep => exact ⟨h, rfl, hrep⟩

lemma Inv.exists_queue {s : State} (hs : Inv s) {name : Bytes} {h : History}
    (hh : s.hist.get? name = some h) :
    ∃ q, s.fs.queues.get? name = some q ∧ Represents q h := by
  have hrel := hs name
  rw [hh] at hrel
  cases hq : s.fs.queues.get? name with
  | none => rw [hq] at hrel; cases hrel
  | some q =>
    rw [hq] at hrel
    cases hrel with
    | some hrep => exact ⟨q, rfl, hrep⟩

/-- The two tables change at one name in the same way. -/
lemma Inv.modify {s : State} (hs : Inv s) {name : Bytes} {q q' : Queue} {h : History}
    {f : History → History} (hq : s.fs.queues.get? name = some q)
    (hh : s.hist.get? name = some h) (hrep : Represents q' (f h)) :
    Inv ⟨⟨s.fs.queues.modify name fun _ => q'⟩, s.hist.modify name f⟩ := by
  intro name'
  show Option.Rel _ (AssocMap.get? _ _) (AssocMap.get? _ _)
  rw [AssocMap.get?_modify, AssocMap.get?_modify]
  by_cases heq : (name == name') = true
  · rw [beq_iff_eq] at heq
    subst heq
    simp only [beq_self_eq_true, if_true, hq, hh, Option.map_some]
    exact .some hrep
  · rw [if_neg heq, if_neg heq]
    exact hs name'

lemma inv_init : Inv init := fun _ => .none

theorem Inv.step {s s' : State} {ev : Event} (hs : Inv s) (hcounter : CounterOk s')
    (hstep : step s ev = some s') : Inv s' := by
  obtain rfl := Option.some.inj hstep
  have heffect := effect_exec s.fs ev
  generalize (exec s.fs ev).1 = r at heffect hcounter ⊢
  generalize (exec s.fs ev).2 = fs' at heffect hcounter ⊢
  cases heffect with
  | fail hr =>
    rw [hr]
    exact hs
  | @mkdir path perm name hpath hnone =>
    intro name'
    show Option.Rel _ (AssocMap.get? (s.fs.queues.insert _ _) _)
      (AssocMap.get? (s.hist.insert (parseQueuePath path).1 .empty) _)
    rw [hpath, AssocMap.get?_insert, AssocMap.get?_insert]
    split_ifs with heq
    · exact .some represents_new
    · exact hs name'
  | @remove ev path name hev hpath =>
    have hrecord : record s ev = s.hist.erase name := by
      rcases hev with rfl | rfl <;> simp [record, hpath]
    intro name'
    show Option.Rel _ (AssocMap.get? (s.fs.queues.erase _) _) (AssocMap.get? (record s ev) _)
    rw [hrecord, AssocMap.get?_erase, AssocMap.get?_erase]
    split_ifs with heq
    · exact .none
    · exact hs name'
  | @enqueue path data offset flags name q hpath hq =>
    obtain ⟨h, hh, hrep⟩ := hs.exists_history hq
    have hrecord : record s (.write path data offset flags) =
        s.hist.modify name fun h => h.send (q.enqueue data).1 data := by
      simp [record, hpath, hq]
    have hlen : (h.send (q.enqueue data).1 data).sent.length < 2 ^ 64 := by
      refine hcounter name _ ?_
      show AssocMap.get? (record s (.write path data offset flags)) name = _
      rw [hrecord, AssocMap.get?_modify, if_pos (by simp), hh]
      rfl
    rw [History.send, List.length_append] at hlen
    show Inv ⟨_, record s (.write path data offset flags)⟩
    rw [hrecord]
    exact hs.modify hq hh (hrep.enqueue data hlen)
  | @dequeue path data offset flags name id q q' hpath hq hid =>
    obtain ⟨h, hh, hrep⟩ := hs.exists_history hq
    have hrecord : record s (.write path data offset flags) =
        s.hist.modify name fun h => h.ack id := by
      simp [record, hpath]
    show Inv ⟨_, record s (.write path data offset flags)⟩
    rw [hrecord]
    exact hs.modify hq hh (f := fun h => h.ack id) (hrep.dequeue hid)

/-- The queues represent their histories after every run. -/
lemma inv_of_run {evs : List Event} {s : State} (hrun : run step init evs = some s)
    (hcounter : StatesMeet step CounterOk init evs) : Inv s ∧ CounterOk s :=
  hcounter.run_invariant (fun _ _ _ hs hc hstep => hs.step hc hstep) inv_init hrun

/-- Whether the histories are at most so long. -/
def SentLe (n : ℕ) (s : State) : Prop :=
  ∀ name h, s.hist.get? name = some h → h.sent.length ≤ n

lemma SentLe.succ {n : ℕ} {s : State} (hs : SentLe n s) (fs : QueueFS) :
    SentLe (n + 1) ⟨fs, s.hist⟩ := by
  intro name h hh
  have hle := hs name h hh
  omega

lemma SentLe.modify {n : ℕ} {s : State} (hs : SentLe n s) (fs : QueueFS) (name : Bytes)
    {f : History → History} (hf : ∀ h, (f h).sent.length ≤ h.sent.length + 1) :
    SentLe (n + 1) ⟨fs, s.hist.modify name f⟩ := by
  intro name' h hh
  have hget : (s.hist.get? name').map (if (name == name') = true then f else id) = some h := by
    rw [← hh, AssocMap.get?_modify]
    split_ifs <;> simp
  obtain ⟨h₀, hh₀, rfl⟩ := Option.map_eq_some_iff.1 hget
  have h1 := hs name' h₀ hh₀
  have h2 := hf h₀
  split_ifs
  · omega
  · show h₀.sent.length ≤ n + 1
    omega

lemma SentLe.erase {n : ℕ} {s : State} (hs : SentLe n s) (fs : QueueFS) (name : Bytes) :
    SentLe (n + 1) ⟨fs, s.hist.erase name⟩ :=
  fun name' h hh => hs.succ fs name' h (AssocMap.get?_of_get?_erase hh)

/-- A call sends at most one message. -/
lemma SentLe.step {n : ℕ} {s s' : State} {ev : Event} (hs : SentLe n s)
    (hstep : step s ev = some s') : SentLe (n + 1) s' := by
  obtain rfl := Option.some.inj hstep
  show SentLe (n + 1) ⟨(exec s.fs ev).2, if _ then record s ev else s.hist⟩
  split_ifs with hok
  · cases ev with
    | mkdir path perm =>
      intro name' h hh
      have hget := AssocMap.get?_insert s.hist (parseQueuePath path).1 name' History.empty
      rw [show (s.hist.insert (parseQueuePath path).1 .empty).get? name' = some h from hh] at hget
      split_ifs at hget
      · cases hget
        simp [History.empty]
      · exact hs.succ s.fs name' h hget.symm
    | remove path => exact hs.erase _ _
    | removeAll path => exact hs.erase _ _
    | write path data offset flags =>
      simp only [record]
      split
      · split
        · exact hs.modify _ _ fun h => by simp [History.send]
        · exact hs.succ _
      · exact hs.modify _ _ fun h => by simp [History.ack]
      · exact hs.succ _
  · exact hs.succ _

/-- A run of less than 2^64 calls meets the bound. -/
lemma counterOk_of_length {evs : List Event} {n : ℕ} {s : State} (hs : SentLe n s)
    (hlen : n + evs.length < 2 ^ 64) : StatesMeet step CounterOk s evs := by
  have hcounter : CounterOk s := fun name h hh => by
    have := hs name h hh
    omega
  induction evs generalizing n s with
  | nil => exact hcounter
  | cons ev evs ih =>
    refine ⟨hcounter, fun s' hs' => ?_⟩
    have hs'' := hs.step hs'
    rw [List.length_cons] at hlen
    exact ih hs'' (by omega) fun name h hh => by
      have := hs'' name h hh
      omega

lemma sentLe_init : SentLe 0 init := fun name h hh => by simp [init] at hh

/-! ### No message is lost or given twice -/

/-- The message with an identifier in a queue, acknowledged or not. -/
def QueueFS.message? (fs : QueueFS) (name id : Bytes) : Option Message :=
  (fs.queues.get? name).bind fun q => q.messages[id]?

/-- Between two states a queue gets one message, under a new identifier, and nothing else
changes. -/
def AddsOne (s : State) (fs : QueueFS) (name data : Bytes) : Prop :=
  ∃ h id, s.hist.get? name = some h ∧ id ∉ h.sent.map Prod.fst ∧
    s.fs.message? name id = none ∧ fs.message? name id = some ⟨id, data, false⟩ ∧
    ∀ name' id', (name', id') ≠ (name, id) → fs.message? name' id' = s.fs.message? name' id'

/-- What the files of a queue show of its history. -/
structure Accounted (fs : QueueFS) (name : Bytes) (h : History) : Prop where
  /-- A message can be read until it is acknowledged. -/
  pending : ∀ id data, (id, data) ∈ h.sent → id ∉ h.acked → ∀ path,
    parseQueuePath path = (name, [ascii "messages", id]) → fs.read path 0 (-1) = .ok data
  /-- An acknowledged message cannot be read. -/
  acked : ∀ id ∈ h.acked, ∀ path offset size,
    parseQueuePath path = (name, [ascii "messages", id]) →
      fs.read path offset size = .err (.NotFound ⟨id⟩)
  /-- The listing has the other messages, each of them once. -/
  listed : ∀ path now, parseQueuePath path = (name, [ascii "messages"]) →
    ∃ entries, fs.readDir path now = .ok entries ∧
      (entries.map FileMetadata.path).Perm (h.pending.map fun e => messagePath name e.1)
  /-- An acknowledged message is not in the listing. -/
  unlisted : ∀ path now entries, parseQueuePath path = (name, [ascii "messages"]) →
    fs.readDir path now = .ok entries → ∀ id ∈ h.acked, ∀ e ∈ entries,
      e.path.bytes ≠ (messagePath name id).bytes
  /-- The count is the number of messages without the distinct acknowledged ones. -/
  count : ∀ path, parseQueuePath path = (name, [ascii "metadata", ascii "count"]) →
    fs.read path 0 (-1) = .ok (decimal (h.sent.length - h.acked.dedup.length))

/-- A read of a file of a queue that exists. -/
lemma read_eq {fs : QueueFS} {path : PathBuf} {name : Bytes} {q : Queue} {rest : List Bytes}
    (hq : fs.queues.get? name = some q) (hpath : parseQueuePath path = (name, rest))
    (hrest : rest ≠ []) (offset size : Int64) :
    fs.read path offset size =
      (content path name q rest).bind fun data => readSlice data offset size := by
  have hcontains : fs.queues.contains name = true := AssocMap.contains_iff.2 ⟨q, hq⟩
  simp [QueueFS.read, hpath, hrest, ensureQueueExists, hcontains, getQueue, hq]

/-- A read of the whole content. -/
lemma read_whole {fs : QueueFS} {path : PathBuf} {name : Bytes} {q : Queue} {rest : List Bytes}
    {data : Bytes} (hq : fs.queues.get? name = some q) (hpath : parseQueuePath path = (name, rest))
    (hrest : rest ≠ []) (hdata : content path name q rest = .ok data) :
    fs.read path 0 (-1) = .ok data := by
  rw [read_eq hq hpath hrest, hdata, Outcome.ok_bind, readSlice, MemFs.MemFS.readData_whole]

lemma readDir_messages {fs : QueueFS} {path : PathBuf} {name : Bytes} {q : Queue}
    (hq : fs.queues.get? name = some q)
    (hpath : parseQueuePath path = (name, [ascii "messages"])) (now : DateTime) :
    fs.readDir path now = .ok (q.unacknowledged.map fun m =>
      FileMetadata.file (messagePath name m.id) m.data.length.toUInt64 now) := by
  have hcontains : fs.queues.contains name = true := AssocMap.contains_iff.2 ⟨q, hq⟩
  simp [QueueFS.readDir, hpath, ensureQueueExists, hcontains, getQueue, hq]

lemma messagePath_injective (name : Bytes) : Function.Injective (messagePath name) := by
  intro id id' h
  exact List.append_cancel_left (congrArg PathBuf.bytes h)

namespace Represents

variable {q : Queue} {h : History} {fs : QueueFS} {name : Bytes}

lemma getMessage_of_acked (hq : Represents q h) {id : Bytes} (hid : id ∈ h.acked) :
    q.getMessage id = .err (.NotFound ⟨id⟩) := by
  obtain ⟨⟨_, data⟩, hdata, rfl⟩ := List.mem_map.1 (hq.acked id hid)
  have hget := (hq.get _ _).2 ⟨data, hdata, rfl⟩
  rw [Queue.getMessage, hget, decide_eq_true hid]
  rfl

lemma getMessage_of_pending (hq : Represents q h) {id data : Bytes} (hdata : (id, data) ∈ h.sent)
    (hid : id ∉ h.acked) : q.getMessage id = .ok ⟨id, data, false⟩ := by
  have hget := (hq.get _ _).2 ⟨data, hdata, rfl⟩
  rw [Queue.getMessage, hget, decide_eq_false hid]
  rfl

lemma listed (hq : Represents q h) (hname : fs.queues.get? name = some q) {path : PathBuf}
    (hpath : parseQueuePath path = (name, [ascii "messages"])) (now : DateTime) :
    ∃ entries, fs.readDir path now = .ok entries ∧
      (entries.map FileMetadata.path).Perm (h.pending.map fun e => messagePath name e.1) := by
  refine ⟨_, readDir_messages hname hpath now, ?_⟩
  have hperm := hq.unmarked_perm.map fun e => messagePath name e.2.id
  rw [unacknowledged_eq, List.map_map, List.map_map]
  rw [List.map_map] at hperm
  exact hperm

theorem accounted (hq : Represents q h) (hname : fs.queues.get? name = some q)
    (hlen : h.sent.length < 2 ^ 64) : Accounted fs name h where
  pending := by
    intro id data hdata hid path hpath
    refine read_whole hname hpath (by simp) ?_
    show (q.getMessage id).map Message.data = _
    rw [hq.getMessage_of_pending hdata hid]
    rfl
  acked := by
    intro id hid path offset size hpath
    rw [read_eq hname hpath (by simp)]
    show ((q.getMessage id).map Message.data).bind _ = _
    rw [hq.getMessage_of_acked hid]
    rfl
  listed := fun path now hpath => hq.listed hname hpath now
  unlisted := by
    intro path now entries hpath hentries id hid e he heq
    obtain ⟨entries', hentries', hperm⟩ := hq.listed hname hpath now
    obtain rfl : entries' = entries := Outcome.ok.inj (hentries'.symm.trans hentries)
    obtain ⟨e', he', hpath'⟩ := List.mem_map.1 (hperm.mem_iff.1 (List.mem_map_of_mem he))
    have hpending := (List.mem_filter.1 he').2
    have hid' : e'.1 = id := by
      refine messagePath_injective name ?_
      rw [hpath']
      exact congrArg PathBuf.mk heq
    rw [hid', decide_eq_true_eq] at hpending
    exact hpending hid
  count := by
    intro path hpath
    refine read_whole hname hpath (by simp) ?_
    show Outcome.ok (decimal q.getCount.toNat) = _
    rw [hq.getCount_eq hlen]

/-- A write to a tail. -/
lemma addsOne (hq : Represents q h) {s : State} (hname : s.fs.queues.get? name = some q)
    (hhist : s.hist.get? name = some h) (hlen : h.sent.length < 2 ^ 64) (data : Bytes) :
    AddsOne s ⟨s.fs.queues.modify name fun _ => (q.enqueue data).2⟩ name data := by
  have hget : ∀ name' id, (QueueFS.mk (s.fs.queues.modify name fun _ =>
      (q.enqueue data).2)).message? name' id =
        if name = name' then (q.enqueue data).2.messages[id]? else s.fs.message? name' id := by
    intro name' id
    simp only [QueueFS.message?, AssocMap.get?_modify, beq_iff_eq]
    split_ifs with heq
    · simp [← heq, hname]
    · rfl
  have hmessages : ∀ id, (q.enqueue data).2.messages[id]? =
      if (q.enqueue data).1 = id then some ⟨(q.enqueue data).1, data, false⟩
      else q.messages[id]? :=
    fun id => getElem?_insert_message q.messages (q.enqueue data).1 id _
  have hfresh := hq.fresh hlen data
  refine ⟨h, (q.enqueue data).1, hhist, hfresh, ?_, ?_, ?_⟩
  · simp only [QueueFS.message?, hname, Option.bind_some]
    by_contra hne
    obtain ⟨m, hm⟩ := Option.ne_none_iff_exists'.1 hne
    obtain ⟨data', hdata', -⟩ := (hq.get _ _).1 hm
    exact hfresh (List.mem_map_of_mem hdata')
  · rw [hget, if_pos rfl, hmessages, if_pos rfl]
  · intro name' id' hne
    rw [hget]
    split_ifs with heq
    · subst heq
      have hid : (q.enqueue data).1 ≠ id' := fun h => hne (by rw [h])
      rw [hmessages, if_neg hid, QueueFS.message?, hname, Option.bind_some]
    · rfl

end Represents

/-- What holds after every run: a write to a tail that succeeds adds one message under a new
identifier, and the files of every queue show its history. -/
theorem messages_accounted (evs : List Event) (s : State) (hrun : run step init evs = some s)
    (hcounter : StatesMeet step CounterOk init evs) :
    (∀ path data offset flags n name, parseQueuePath path = (name, [ascii "tail"]) →
      (s.fs.write path data offset flags).1 = .ok n →
        AddsOne s (s.fs.write path data offset flags).2 name data) ∧
    ∀ name h, s.hist.get? name = some h → Accounted s.fs name h := by
  obtain ⟨hinv, hcount⟩ := inv_of_run hrun hcounter
  refine ⟨fun path data offset flags n name hpath hok => ?_, fun name h hh => ?_⟩
  · have heffect := effect_write s.fs path data offset flags
    rw [hok] at heffect
    generalize (s.fs.write path data offset flags).2 = fs' at heffect ⊢
    cases heffect with
    | fail hr => cases hr
    | remove hev => rcases hev with hev | hev <;> cases hev
    | @enqueue _ _ _ _ name' q hpath' hq =>
      obtain ⟨rfl, -⟩ : name = name' ∧ _ := Prod.ext_iff.1 (hpath.symm.trans hpath')
      obtain ⟨h, hh, hrep⟩ := hinv.exists_history hq
      exact hrep.addsOne hq hh (hcount name h hh) data
    | dequeue hpath' => simp [hpath] at hpath'
  · obtain ⟨q, hq, hrep⟩ := hinv.exists_queue hh
    exact hrep.accounted hq (hcount name h hh)

/-- A queue with two messages, of which the first is acknowledged. -/
def twoMessages : List Event :=
  [.mkdir ⟨ascii "/q"⟩ 0o755, .write ⟨ascii "/q/tail"⟩ (ascii "a") 0 .NONE,
    .write ⟨ascii "/q/tail"⟩ (ascii "b") 0 .NONE,
    .write ⟨ascii "/q/.ack/000001"⟩ (ascii "done") 0 .NONE]

theorem messages_accounted_twoMessages :
    StatesMeet step CounterOk init twoMessages ∧
      ∃ s, run step init twoMessages = some s ∧
        s.hist.get? (ascii "q") = some ⟨[(ascii "000001", ascii "a"), (ascii "000002", ascii "b")],
          [ascii "000001"]⟩ ∧
        ∀ name h, s.hist.get? name = some h → Accounted s.fs name h := by
  have hcounter : StatesMeet step CounterOk init twoMessages :=
    counterOk_of_length sentLe_init (by decide)
  exact ⟨hcounter, _, rfl, rfl, (messages_accounted twoMessages _ rfl hcounter).2⟩

end Racfs.QueueFs
