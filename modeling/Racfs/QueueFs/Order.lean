/-
# The order of a queue

The file `head` is documented to name the next message.  It names the first one in the table,
whose order is that of the texts of the message numbers.  The numbers have at least six digits,
so up to 999999 the order of the texts is that of the numbers; but `1000000` is before `100001`.

`read_head_iff` says when the file is right: the number of the oldest message that is not
acknowledged is at most what the others begin with.  `head_ne_earliest` is a run of a million
messages in which it is not.
-/
import Racfs.QueueFs.Runs

namespace Racfs.QueueFs

open QueueFS

/-- The oldest message that is not acknowledged. -/
def History.earliest (h : History) : Option (Bytes × Bytes) :=
  h.sent.find? fun e => e.1 ∉ h.acked

/-- The message at a position is not acknowledged. -/
def History.IsPending (h : History) (i : ℕ) : Prop :=
  ∃ e, h.sent[i]? = some e ∧ e.1 ∉ h.acked

/-- The number of the first message that is not acknowledged is at most the number that is made
of as many leading digits of any other one.  Messages are numbered from one and positions are
counted from zero. -/
def History.InOrder (h : History) : Prop :=
  ∀ k m, h.IsPending k → (∀ i < k, ¬ h.IsPending i) → h.IsPending m →
    k + 1 ≤ (m + 1) / 10 ^ (width 6 (m + 1) - width 6 (k + 1))

/-- The first of a sorted list is the one that is before all others. -/
lemma head?_eq_some_iff {V : Type*} {l : List (Bytes × V)}
    (hl : l.Pairwise fun a b => compare a.1 b.1 = .lt) {e : Bytes × V} (he : e ∈ l) :
    l.head? = some e ↔ ∀ e' ∈ l, e' = e ∨ compare e.1 e'.1 = .lt := by
  cases l with
  | nil => simp at he
  | cons a l =>
    rw [List.pairwise_cons] at hl
    rw [List.head?_cons, Option.some.injEq]
    constructor
    · rintro rfl e' he'
      rcases List.mem_cons.1 he' with rfl | he'
      · exact Or.inl rfl
      · exact Or.inr (hl.1 e' he')
    · intro h
      rcases h a List.mem_cons_self with heq | hlt
      · exact heq
      · rcases List.mem_cons.1 he with rfl | he
        · rfl
        · rw [Std.OrientedOrd.eq_swap, hl.1 e he] at hlt
          cases hlt

namespace Represents

variable {q : Queue} {h : History}

lemma getNextUnacknowledged_eq (q : Queue) :
    q.getNextUnacknowledged = (unmarked q).head?.map Prod.fst := by
  rw [Queue.getNextUnacknowledged, unmarked, List.head?_filter]

lemma unmarked_pairwise (q : Queue) :
    (unmarked q).Pairwise fun a b => compare a.1 b.1 = .lt :=
  Std.TreeMap.ordered_keys_toList.filter _

/-- The identifiers of the messages that are not acknowledged, by their positions. -/
lemma mem_unmarked_iff_isPending (hq : Represents q h) {e : Bytes × Message} :
    e ∈ unmarked q ↔ ∃ (i : ℕ) (d : Bytes × Bytes), h.sent[i]? = some d ∧ d.1 ∉ h.acked ∧
      e = entry d := by
  rw [hq.mem_unmarked_iff, List.mem_map]
  simp only [History.pending, List.mem_filter, decide_eq_true_eq]
  constructor
  · rintro ⟨d, ⟨hmem, hd⟩, rfl⟩
    obtain ⟨i, hi⟩ := List.mem_iff_getElem?.1 hmem
    exact ⟨i, d, hi, hd, rfl⟩
  · rintro ⟨i, d, hi, hd, rfl⟩
    exact ⟨d, ⟨List.mem_of_getElem? hi, hd⟩, rfl⟩

lemma earliest_eq_none_iff : h.earliest = none ↔ ∀ i, ¬ h.IsPending i := by
  rw [History.earliest, List.find?_eq_none]
  constructor
  · rintro hall i ⟨e, he, hnot⟩
    exact hall e (List.mem_of_getElem? he) (by simpa using hnot)
  · intro hall e he
    obtain ⟨i, hi⟩ := List.mem_iff_getElem?.1 he
    simpa using fun hnot => hall i ⟨e, hi, hnot⟩

lemma exists_of_earliest {e : Bytes × Bytes} (he : h.earliest = some e) :
    ∃ k, h.sent[k]? = some e ∧ e.1 ∉ h.acked ∧ ∀ i < k, ¬ h.IsPending i := by
  rw [History.earliest, List.find?_eq_some_iff_getElem] at he
  obtain ⟨hnot, k, hk, hget, hbefore⟩ := he
  refine ⟨k, by rw [List.getElem?_eq_getElem hk, hget], by simpa using hnot, ?_⟩
  rintro i hi ⟨d, hd, hpending⟩
  rw [List.getElem?_eq_getElem (by omega)] at hd
  have hi' := hbefore i hi
  rw [Option.some.inj hd] at hi'
  exact hpending (by simpa using hi')

/-- Where a message that is not acknowledged stands to the oldest one. -/
lemma before_iff (hq : Represents q h) {k m : ℕ} {d e : Bytes × Bytes} (hk : h.sent[k]? = some e)
    (hm : h.sent[m]? = some d) (hkm : k ≤ m) :
    (entry d = entry e ∨ compare (entry e).1 (entry d).1 = .lt) ↔
      k + 1 ≤ (m + 1) / 10 ^ (width 6 (m + 1) - width 6 (k + 1)) := by
  show (entry d = entry e ∨ compare e.1 d.1 = .lt) ↔ _
  rcases Nat.eq_or_lt_of_le hkm with rfl | hlt
  · obtain rfl : e = d := Option.some.inj (hk.symm.trans hm)
    exact iff_of_true (Or.inl rfl) (by simp)
  · have hne : entry d ≠ entry e := by
      intro heq
      have hid : (entry d).1 = (entry e).1 := by rw [heq]
      simp only [entry] at hid
      rw [hq.id_eq hk, hq.id_eq hm] at hid
      have := zeroPadded_injective 6 hid
      omega
    rw [hq.id_eq hk, hq.id_eq hm, compare_zeroPadded (by omega)]
    simp [hne]

/-- The first entry of the table has the identifier of a message only if it is that message. -/
lemma head?_fst_iff (hq : Represents q h) {e : Bytes × Bytes} (he : entry e ∈ unmarked q) :
    ((unmarked q).head?.map Prod.fst).getD (ascii "empty") = e.1 ↔
      (unmarked q).head? = some (entry e) := by
  cases hhead : (unmarked q).head? with
  | none =>
    rw [List.head?_eq_none_iff.1 hhead] at he
    simp at he
  | some u =>
    rw [Option.map_some, Option.getD_some, Option.some.injEq]
    constructor
    · intro hid
      obtain ⟨i, d, hi, -, rfl⟩ := hq.mem_unmarked_iff_isPending.1 (List.mem_of_head? hhead)
      obtain ⟨j, d', hj, -, heq⟩ := hq.mem_unmarked_iff_isPending.1 he
      have heq' : (entry e).1 = (entry d').1 := by rw [heq]
      have hid' : d.1 = d'.1 := hid.trans heq'
      have hdd' : d = d' := List.inj_on_of_nodup_map hq.nodup (List.mem_of_getElem? hi)
        (List.mem_of_getElem? hj) hid'
      rw [heq, hdd']
    · rintro rfl
      rfl

/-- The table names the oldest message exactly when the numbers are in order. -/
theorem getNextUnacknowledged_iff (hq : Represents q h) :
    q.getNextUnacknowledged.getD (ascii "empty") =
      (h.earliest.map Prod.fst).getD (ascii "empty") ↔ h.InOrder := by
  rw [getNextUnacknowledged_eq]
  cases hearliest : h.earliest with
  | none =>
    have hnone := earliest_eq_none_iff.1 hearliest
    have hnil : unmarked q = [] := by
      rw [List.eq_nil_iff_forall_not_mem]
      intro e he
      obtain ⟨i, d, hi, hd, -⟩ := hq.mem_unmarked_iff_isPending.1 he
      exact hnone i ⟨d, hi, hd⟩
    rw [hnil]
    exact iff_of_true rfl fun k m hk _ _ => absurd hk (hnone k)
  | some e =>
    obtain ⟨k, hk, hnot, hleast⟩ := exists_of_earliest hearliest
    have hmem : entry e ∈ unmarked q := hq.mem_unmarked_iff_isPending.2 ⟨k, e, hk, hnot, rfl⟩
    have hle : ∀ m, h.IsPending m → k ≤ m := fun m hm => by
      by_contra hlt
      exact hleast m (by omega) hm
    rw [Option.map_some, Option.getD_some, hq.head?_fst_iff hmem,
      head?_eq_some_iff (unmarked_pairwise q) hmem]
    constructor
    · rintro hall k' m hk' hleast' ⟨d, hm, hd⟩
      obtain rfl : k = k' := by
        refine Nat.le_antisymm (hle k' hk') ?_
        by_contra hlt
        exact hleast' k (by omega) ⟨e, hk, hnot⟩
      refine (hq.before_iff hk hm (hle m ⟨d, hm, hd⟩)).1 (hall _ ?_)
      exact hq.mem_unmarked_iff_isPending.2 ⟨m, d, hm, hd, rfl⟩
    · intro horder e' he'
      obtain ⟨m, d, hm, hd, rfl⟩ := hq.mem_unmarked_iff_isPending.1 he'
      have hpending : h.IsPending m := ⟨d, hm, hd⟩
      exact (hq.before_iff hk hm (hle m hpending)).2 (horder k m ⟨e, hk, hnot⟩ hleast hpending)

/-- What a read of `head` returns. -/
lemma read_head {fs : QueueFS} {name : Bytes} (hname : fs.queues.get? name = some q)
    {path : PathBuf} (hpath : parseQueuePath path = (name, [ascii "head"])) :
    fs.read path 0 (-1) = .ok (q.getNextUnacknowledged.getD (ascii "empty")) :=
  read_whole hname hpath (by simp) rfl

end Represents

/-- After a run, the file `head` of a queue names the oldest message that is not acknowledged
exactly when the numbers are in order. -/
lemma head_iff_of_inv {s : State} (hs : Inv s) {name : Bytes} {h : History}
    (hh : s.hist.get? name = some h) {path : PathBuf}
    (hpath : parseQueuePath path = (name, [ascii "head"])) :
    s.fs.read path 0 (-1) = .ok ((h.earliest.map Prod.fst).getD (ascii "empty")) ↔ h.InOrder := by
  obtain ⟨q, hq, hrep⟩ := hs.exists_queue hh
  rw [Represents.read_head hq hpath, Outcome.ok.injEq]
  exact hrep.getNextUnacknowledged_iff

/-- After every run with less than 2^64 messages in a queue, the file `head` names the oldest
message that is not acknowledged, or `empty`, exactly when the numbers are in order. -/
theorem read_head_iff (evs : List Event) (s : State) (hrun : run step init evs = some s)
    (hcounter : StatesMeet step CounterOk init evs) (name : Bytes) (h : History)
    (hh : s.hist.get? name = some h) (path : PathBuf)
    (hpath : parseQueuePath path = (name, [ascii "head"])) :
    s.fs.read path 0 (-1) = .ok ((h.earliest.map Prod.fst).getD (ascii "empty")) ↔ h.InOrder :=
  head_iff_of_inv (inv_of_run hrun hcounter).1 hh hpath

/-- The numbers are in order as long as they have six digits. -/
lemma inOrder_of_length {h : History} (hlen : h.sent.length < 10 ^ 6) : h.InOrder := by
  rintro k m ⟨e, hk, hnot⟩ hleast ⟨d, hm, hd⟩
  have hlt : ∀ {i : ℕ} {e : Bytes × Bytes}, h.sent[i]? = some e → i < h.sent.length := fun hi =>
    (List.getElem?_eq_some_iff.1 hi).1
  have hkm : k ≤ m := by
    by_contra hlt'
    exact hleast m (by omega) ⟨d, hm, hd⟩
  have h1 := hlt hk
  have h2 := hlt hm
  rw [width_eq_of_lt (by decide) (by omega), width_eq_of_lt (by decide) (by omega), Nat.sub_self,
    pow_zero, Nat.div_one]
  omega

/-- Two messages, of which the first is acknowledged. -/
theorem read_head_iff_twoMessages :
    ∃ s, run step init twoMessages = some s ∧
      s.fs.read ⟨ascii "/q/head"⟩ 0 (-1) = .ok (ascii "000002") :=
  ⟨_, rfl, (read_head_iff twoMessages _ rfl (counterOk_of_length sentLe_init (by decide))
    (ascii "q") _ rfl ⟨ascii "/q/head"⟩ rfl).2 (inOrder_of_length (by decide))⟩

/-! ### A million messages -/

/-- A call that is a write to the tail of a queue. -/
lemma exists_step_send {s : State} {name : Bytes} {q : Queue} {h : History}
    (hq : s.fs.queues.get? name = some q) (hh : s.hist.get? name = some h) {path : PathBuf}
    (hpath : parseQueuePath path = (name, [ascii "tail"])) (data : Bytes) (offset : Int64)
    (flags : WriteFlags) :
    ∃ s', step s (.write path data offset flags) = some s' ∧
      s'.hist.get? name = some (h.send (q.enqueue data).1 data) := by
  have hcontains : s.fs.queues.contains name = true := AssocMap.contains_iff.2 ⟨q, hq⟩
  have hok : (exec s.fs (.write path data offset flags)).1.isOk = true := by
    simp [exec, QueueFS.write, hpath, hcontains, onQueue, hq, Outcome.isOk]
  refine ⟨_, rfl, ?_⟩
  show AssocMap.get? (if _ then record s _ else s.hist) name = _
  rw [if_pos hok]
  simp [record, hpath, hq, AssocMap.get?_modify, hh]

/-- A call that acknowledges a message. -/
lemma exists_step_ack {s : State} {name id : Bytes} {q : Queue} {h : History}
    (hq : s.fs.queues.get? name = some q) (hh : s.hist.get? name = some h) {path : PathBuf}
    (hpath : parseQueuePath path = (name, [ascii ".ack", id]))
    (hid : ∃ m, q.messages[id]? = some m) :
    ∃ s', step s (.write path (ascii "done") 0 .NONE) = some s' ∧
      s'.hist.get? name = some (h.ack id) := by
  obtain ⟨m, hm⟩ := hid
  have hcontains : s.fs.queues.contains name = true := AssocMap.contains_iff.2 ⟨q, hq⟩
  have hutf : utf8Error (ascii "done") = none := by rfl
  have htrim : trim (ascii "done") = ascii "done" := by decide
  have hflags : WriteFlags.NONE.isEmpty = true := by decide
  have hok : (exec s.fs (.write path (ascii "done") 0 .NONE)).1.isOk = true := by
    simp [exec, QueueFS.write, hpath, hcontains, hutf, htrim, hflags, onQueue, hq, Queue.dequeue,
      hm, Outcome.isOk]
  refine ⟨_, rfl, ?_⟩
  show AssocMap.get? (if _ then record s _ else s.hist) name = _
  rw [if_pos hok]
  simp [record, hpath, AssocMap.get?_modify, hh]

/-- The path that acknowledges a message of the queue `q`. -/
def ackPath (n : ℕ) : PathBuf := ⟨ascii "/q/.ack/" ++ zeroPadded 6 n⟩

/-- The queue `q` with some empty messages. -/
def sends (n : ℕ) : List Event :=
  .mkdir ⟨ascii "/q"⟩ 0o755 :: List.replicate n (.write ⟨ascii "/q/tail"⟩ [] 0 .NONE)

/-- The first messages are acknowledged. -/
def acks (n : ℕ) : List Event :=
  (List.range n).map fun i => .write (ackPath (i + 1)) (ascii "done") 0 .NONE

lemma length_sends_acks (n k : ℕ) : (sends n ++ acks k).length = n + k + 1 := by
  simp only [sends, acks, List.cons_append, List.length_cons, List.length_append,
    List.length_replicate, List.length_map, List.length_range]

/-- A path whose components are texts. -/
lemma parseQueuePath_toPath (p : AbsPath) {name : Bytes} {rest : List Bytes}
    (hnames : p.names = name :: rest) (hutf : ∀ n ∈ p.names, isUtf8 n = true) :
    parseQueuePath p.toPath = (name, rest) := by
  have hmap : (p.names.map Component.normal).map Component.asOsStr = p.names := by
    rw [List.map_map]
    exact List.map_id _
  have hroot : isUtf8 [slash] = true := by rfl
  have hcomponents : (p.toPath.components.map Component.asOsStr).filter isUtf8 =
      [slash] :: name :: rest := by
    rw [p.components_toPath, List.map_cons, hmap, Component.asOsStr,
      List.filter_cons_of_pos hroot, List.filter_eq_self.2 hutf, hnames]
  simp [parseQueuePath, hcomponents]

lemma isName_zeroPadded (n : ℕ) : IsName (zeroPadded 6 n) := by
  have hlen := le_length_zeroPadded 6 n
  refine ⟨?_, slash_not_mem_zeroPadded 6 n, ?_, ?_⟩
  all_goals
    intro heq
    rw [heq] at hlen
    simp at hlen

lemma parseQueuePath_ackPath (n : ℕ) :
    parseQueuePath (ackPath n) = (ascii "q", [ascii ".ack", zeroPadded 6 n]) := by
  have hvalid : ∀ m ∈ [ascii "q", ascii ".ack", zeroPadded 6 n], IsName m := by
    intro m hm
    simp only [List.mem_cons, List.not_mem_nil, or_false] at hm
    rcases hm with rfl | rfl | rfl
    · decide
    · decide
    · exact isName_zeroPadded n
  have hpath : ackPath n = AbsPath.toPath ⟨_, hvalid⟩ := by
    have htext : ascii "/q/.ack/" = slash :: ascii "q" ++ slash :: ascii ".ack" ++ [slash] := by
      decide
    rw [ackPath, htext]
    simp [AbsPath.toPath, AbsPath.text, List.intercalate, List.intersperse]
  rw [hpath]
  refine parseQueuePath_toPath _ rfl fun m hm => ?_
  simp only [List.mem_cons, List.not_mem_nil, or_false] at hm
  rcases hm with rfl | rfl | rfl
  · rfl
  · rfl
  · exact isUtf8_of_isAscii (isAscii_zeroPadded 6 n)

lemma run_sends (n : ℕ) (hn : n + 1 < 2 ^ 64) :
    ∃ s h, run step init (sends n) = some s ∧ s.hist.get? (ascii "q") = some h ∧
      h.sent.length = n ∧ h.acked = [] := by
  induction n with
  | zero => exact ⟨_, _, rfl, rfl, rfl, rfl⟩
  | succ n ih =>
    obtain ⟨s, h, hrun, hh, hlen, hacked⟩ := ih (by omega)
    have hcounter : StatesMeet step CounterOk init (sends n) :=
      counterOk_of_length sentLe_init (by simp [sends]; omega)
    obtain ⟨q, hq, -⟩ := (inv_of_run hrun hcounter).1.exists_queue hh
    have hpath : parseQueuePath ⟨ascii "/q/tail"⟩ = (ascii "q", [ascii "tail"]) := rfl
    obtain ⟨s', hs', hh'⟩ := exists_step_send hq hh hpath [] 0 .NONE
    refine ⟨s', _, ?_, hh', by simp [History.send, hlen], hacked⟩
    rw [sends, List.replicate_succ', ← List.cons_append, run_append]
    show (run step init (sends n)).bind _ = _
    rw [hrun]
    simp [run, hs']

lemma run_acks (n k : ℕ) (hk : k ≤ n) (hn : n + k + 1 < 2 ^ 64) :
    ∃ s h, run step init (sends n ++ acks k) = some s ∧ s.hist.get? (ascii "q") = some h ∧
      h.sent.length = n ∧ h.acked = (List.range k).map fun i => zeroPadded 6 (i + 1) := by
  induction k with
  | zero =>
    obtain ⟨s, h, hrun, hh, hlen, hacked⟩ := run_sends n (by omega)
    exact ⟨s, h, by simpa [acks] using hrun, hh, hlen, hacked⟩
  | succ k ih =>
    obtain ⟨s, h, hrun, hh, hlen, hacked⟩ := ih (by omega) (by omega)
    have hcounter : StatesMeet step CounterOk init (sends n ++ acks k) :=
      counterOk_of_length sentLe_init (by rw [length_sends_acks]; omega)
    obtain ⟨q, hq, hrep⟩ := (inv_of_run hrun hcounter).1.exists_queue hh
    have hmessage : ∃ m, q.messages[zeroPadded 6 (k + 1)]? = some m := by
      have hlt : k < h.sent.length := by omega
      have hid := hrep.id_eq (List.getElem?_eq_getElem hlt)
      refine ⟨_, (hrep.get _ _).2 ⟨h.sent[k].2, ?_, rfl⟩⟩
      rw [← hid]
      exact List.getElem_mem hlt
    obtain ⟨s', hs', hh'⟩ := exists_step_ack hq hh (parseQueuePath_ackPath (k + 1)) hmessage
    refine ⟨s', _, ?_, hh', hlen, ?_⟩
    · rw [acks, List.range_succ, List.map_append, ← List.append_assoc, run_append]
      show (run step init (sends n ++ acks k)).bind _ = _
      rw [hrun]
      simp [run, hs']
    · simp [History.ack, hacked, List.range_succ]

/-- The numbers of a million messages are not in order when the first hundred thousand are
acknowledged: `1000000` begins with `100000`, which is less than `100001`. -/
lemma not_inOrder {q : Queue} {h : History} (hq : Represents q h) (hlen : h.sent.length = 1000000)
    (hacked : h.acked = (List.range 100000).map fun i => zeroPadded 6 (i + 1)) : ¬ h.InOrder := by
  have hpending : ∀ i < h.sent.length, (h.IsPending i ↔ 100000 ≤ i) := by
    intro i hi
    have hid := hq.id_eq (List.getElem?_eq_getElem hi)
    have hmem : h.sent[i].1 ∈ h.acked ↔ i < 100000 := by
      rw [hid, hacked, List.mem_map]
      constructor
      · rintro ⟨j, hj, heq⟩
        have := zeroPadded_injective 6 heq
        rw [List.mem_range] at hj
        omega
      · exact fun hlt => ⟨i, List.mem_range.2 hlt, rfl⟩
    rw [History.IsPending, List.getElem?_eq_getElem hi]
    simp [hmem]
  intro horder
  have hle := horder 100000 999999 ((hpending _ (by omega)).2 le_rfl)
    (fun i hi hp => absurd ((hpending i (by omega)).1 hp) (by omega))
    ((hpending _ (by omega)).2 (by omega))
  have h6 : width 6 (100000 + 1) = 6 := width_eq_of_lt (by decide) (by decide)
  have h7 : width 6 (999999 + 1) = 7 := by
    have hle7 := (decimal_length_le_iff (n := 999999 + 1) (k := 7) (by decide)).2 (by decide)
    have hgt6 := (decimal_length_le_iff (n := 999999 + 1) (k := 6) (by decide)).not.2 (by decide)
    rw [width]
    omega
  rw [h6, h7] at hle
  omega

/-- A million messages are sent and the first hundred thousand are acknowledged.  The file `head`
then does not name the oldest of the others. -/
theorem head_ne_earliest :
    ∃ s h, run step init (sends 1000000 ++ acks 100000) = some s ∧
      StatesMeet step CounterOk init (sends 1000000 ++ acks 100000) ∧
      s.hist.get? (ascii "q") = some h ∧
      s.fs.read ⟨ascii "/q/head"⟩ 0 (-1) ≠
        .ok ((h.earliest.map Prod.fst).getD (ascii "empty")) := by
  obtain ⟨s, h, hrun, hh, hlen, hacked⟩ := run_acks 1000000 100000 (by omega) (by omega)
  have hcounter : StatesMeet step CounterOk init (sends 1000000 ++ acks 100000) :=
    counterOk_of_length sentLe_init (by rw [length_sends_acks]; omega)
  have hinv := (inv_of_run hrun hcounter).1
  obtain ⟨q, -, hrep⟩ := hinv.exists_queue hh
  refine ⟨s, h, hrun, hcounter, hh, fun heq => not_inOrder hrep hlen hacked ?_⟩
  have hpath : parseQueuePath ⟨ascii "/q/head"⟩ = (ascii "q", [ascii "head"]) := rfl
  exact (head_iff_of_inv hinv hh hpath).1 heq

end Racfs.QueueFs
