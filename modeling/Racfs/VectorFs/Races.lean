/-
# Several appends to one document

A write to a document reads its row, computes a vector and stores a row, with other calls in
between, and nothing checks that the row is still the one that was read.  Here any number of calls
append to one document, and the database is an atomic map, of which the row of the document
matters.

If the content is still the one that a call has read whenever the call stores its row, the calls
that have stored one did so as if one after the other, and nothing is lost; for calls without an
offset this is also necessary (`kept_iff`).
-/
import Racfs.Lib.Run
import Racfs.VectorFs.Model

namespace Racfs.VectorFs

/-- A call that appends. -/
structure Append where
  data : Bytes
  offset : Int64
  flags : WriteFlags
  append : flags.containsAppend = true

/-- The content after the call. -/
def Append.apply (a : Append) (old : Bytes) : Bytes :=
  VectorFS.writeData old a.data a.offset a.flags

/-- Where a call is. -/
inductive Phase (V : Type*)
  | idle
  /-- It has read the row. -/
  | read (d : Document V)
  /-- It has a new content and a vector. -/
  | embedded (d : Document V) (new : Bytes) (vector : V)
  /-- It has stored the row. -/
  | persisted
  | returned
  | failed

/-- Whether the call has stored its row. -/
def Phase.stored {V : Type*} : Phase V → Bool
  | persisted | returned => true
  | _ => false

/-- The row of the document and the calls. -/
structure Writers (V : Type*) where
  row : Document V
  phases : ℕ → Phase V

/-- A segment of a call, from one `await` to the next. -/
inductive Segment (V : Type*)
  | get (i : ℕ)
  /-- The vector is that of the attribute or of the new content, or the service fails. -/
  | embed (i : ℕ) (vector : Outcome V)
  | persist (i : ℕ) (now : DateTime)
  | finish (i : ℕ)

namespace Writers

variable {V : Type*}

/-- Nobody has begun. -/
def start (row : Document V) : Writers V := ⟨row, fun _ => .idle⟩

/-- A call gets to another place. -/
def moveTo (s : Writers V) (i : ℕ) (row : Document V) (phase : Phase V) : Writers V :=
  ⟨row, Function.update s.phases i phase⟩

lemma phases_moveTo (s : Writers V) (i j : ℕ) (row : Document V) (phase : Phase V) :
    (s.moveTo i row phase).phases j = if j = i then phase else s.phases j :=
  Function.update_apply ..

/-- One segment of one of the calls. -/
def step (calls : ℕ → Append) (s : Writers V) : Segment V → Option (Writers V)
  | .get i =>
    match s.phases i with
    | .idle => some (s.moveTo i s.row (.read s.row))
    | _ => none
  | .embed i vector =>
    match s.phases i with
    | .read d =>
      match vector with
      | .ok vector => some (s.moveTo i s.row (.embedded d ((calls i).apply d.data) vector))
      | _ => some (s.moveTo i s.row .failed)
    | _ => none
  | .persist i now =>
    match s.phases i with
    | .embedded d new vector =>
      some (s.moveTo i ⟨new, vector, d.mode, d.createdAt, timestampMillis now⟩ .persisted)
    | _ => none
  | .finish i =>
    match s.phases i with
    | .persisted => some (s.moveTo i s.row .returned)
    | _ => none

/-- The content after some of the calls, one after the other. -/
def appendAll (calls : ℕ → Append) (content : Bytes) (order : List ℕ) : Bytes :=
  order.foldl (fun c i => (calls i).apply c) content

/-- The calls that have stored a row did so in some order, and what they wrote is there. -/
structure Kept (calls : ℕ → Append) (content : Bytes) (s : Writers V) : Prop where
  sequential : ∃ order : List ℕ, order.Nodup ∧ (∀ i, i ∈ order ↔ (s.phases i).stored = true) ∧
    s.row.data = appendAll calls content order
  contains : ∀ i, (s.phases i).stored = true → (calls i).data <:+: s.row.data

/-- A call that stores a row has read the content that is there. -/
def Fresh (s : Writers V) : Segment V → Prop
  | .persist i _ => ∀ d new vector, s.phases i = .embedded d new vector → d.data = s.row.data
  | _ => True

/-- The segments of a call that no other one comes in between of. -/
def writeSegments (i : ℕ) (vector : Outcome V) (now : DateTime) : List (Segment V) :=
  .get i :: .embed i vector ::
    match vector with
    | .ok _ => [.persist i now, .finish i]
    | _ => []

/-- They do to the row what the call does. -/
theorem run_writeSegments {e : Embedding V} {fs : VectorFS V} {path : PathBuf} {d : Document V}
    (hdoc : VectorFS.isDocument path = true) (hvirtual : VectorFS.isVirtualPath path = false)
    (hquery : ¬ (ascii "/search/" <:+: path.toStringLossy ∧
      ascii "/query.txt" <:+ path.toStringLossy))
    (hkey : rowKey path.toStringLossy = path.toStringLossy)
    (hd : fs.table.get? path.toStringLossy = some d) (calls : ℕ → Append) (i : ℕ)
    (now : DateTime) :
    ∃ s', run (step calls) (start d)
        (writeSegments i (fs.vectorFor e path ((calls i).apply d.data)) now) = some s' ∧
      (fs.write e (fun _ => none) path (calls i).data (calls i).offset (calls i).flags
        now).2.table.get? path.toStringLossy = some s'.row := by
  have hget : fs.getDocument (fun _ => none) .get path = .ok (some d) := by
    rw [VectorFS.getDocument, hkey, hd]
    rfl
  rw [VectorFS.write, if_neg hquery, if_neg (Bool.eq_false_iff.1 hvirtual),
    if_neg (not_not.2 hdoc), hget, VectorFS.andThen]
  dsimp only
  generalize hnew : VectorFS.writeData d.data (calls i).data (calls i).offset
    (calls i).flags = new
  have hnew' : (calls i).apply d.data = new := hnew
  rw [hnew']
  cases fs.vectorFor e path new with
  | ok vector =>
    refine ⟨⟨⟨new, vector, d.mode, d.createdAt, timestampMillis now⟩,
      Function.update (fun _ => .idle) i .returned⟩, ?_, ?_⟩
    · simp [run, step, start, moveTo, writeSegments, hnew']
    · simp [VectorFS.andThen, VectorFS.persistDocument, VectorFS.documentCount, db,
        VectorFS.updateMetadata]
  | err f =>
    refine ⟨⟨d, Function.update (fun _ => .idle) i .failed⟩, ?_, hd⟩
    simp [run, step, start, moveTo, writeSegments]
  | panic =>
    refine ⟨⟨d, Function.update (fun _ => .idle) i .failed⟩, ?_, hd⟩
    simp [run, step, start, moveTo, writeSegments]

/-! ### Appending -/

/-- The content is padded up to the offset. -/
lemma apply_eq (a : Append) (old : Bytes) : ∃ zeros, a.apply old = old ++ zeros ++ a.data := by
  rw [Append.apply, VectorFS.writeData, if_pos (Or.inl a.append)]
  dsimp only
  split_ifs with hlt
  · refine ⟨List.replicate ((max a.offset 0).toUInt64.toNat - old.length) 0, ?_⟩
    rw [resize, List.take_of_length_le hlt.le]
  · exact ⟨[], by rw [List.append_nil]⟩

lemma apply_of_offset_le {a : Append} (h : a.offset ≤ 0) (old : Bytes) :
    a.apply old = old ++ a.data := by
  have hmax : max a.offset 0 = 0 := by
    change (if a.offset ≤ 0 then 0 else a.offset) = 0
    rw [if_pos h]
  rw [Append.apply, VectorFS.writeData, if_pos (Or.inl a.append), hmax]
  rfl

lemma prefix_apply (a : Append) (old : Bytes) : old <+: a.apply old := by
  obtain ⟨zeros, heq⟩ := apply_eq a old
  rw [heq, List.append_assoc]
  exact List.prefix_append _ _

lemma suffix_apply (a : Append) (old : Bytes) : a.data <:+ a.apply old := by
  obtain ⟨zeros, heq⟩ := apply_eq a old
  rw [heq]
  exact List.suffix_append _ _

variable {calls : ℕ → Append} {content : Bytes} {s s' : Writers V}

lemma appendAll_concat (order : List ℕ) (i : ℕ) :
    appendAll calls content (order ++ [i]) = (calls i).apply (appendAll calls content order) := by
  rw [appendAll, List.foldl_append]
  rfl

/-- What each of the calls has written is there. -/
lemma infix_appendAll {order : List ℕ} {i : ℕ} (hi : i ∈ order) :
    (calls i).data <:+: appendAll calls content order := by
  induction order using List.reverseRecOn with
  | nil => cases hi
  | append_singleton order j ih =>
    rw [appendAll_concat]
    rcases List.mem_append.1 hi with hi | hi
    · exact (ih hi).trans (prefix_apply (calls j) _).isInfix
    · rw [List.mem_singleton.1 hi]
      exact (suffix_apply (calls j) _).isInfix

/-- An order of the calls is enough. -/
lemma Kept.of_order {order : List ℕ} (hnodup : order.Nodup)
    (hmem : ∀ i, i ∈ order ↔ (s.phases i).stored = true)
    (hdata : s.row.data = appendAll calls content order) : Kept calls content s where
  sequential := ⟨order, hnodup, hmem, hdata⟩
  contains := by
    intro i hi
    rw [hdata]
    exact infix_appendAll ((hmem i).2 hi)

/-- Without offsets the length does not depend on the order. -/
lemma length_appendAll (content : Bytes) (h : ∀ i, (calls i).offset ≤ 0) (order : List ℕ) :
    (appendAll calls content order).length =
      content.length + (order.map fun i => (calls i).data.length).sum := by
  induction order using List.reverseRecOn with
  | nil => rfl
  | append_singleton order j ih =>
    rw [appendAll_concat, apply_of_offset_le (h j), List.length_append, ih, List.map_append,
      List.sum_append, List.map_singleton, List.sum_singleton, Nat.add_assoc]

/-! ### The invariant -/

/-- Besides, what a call has read is the beginning of what is there. -/
structure Inv (calls : ℕ → Append) (content : Bytes) (s : Writers V) : Prop where
  kept : Kept calls content s
  read : ∀ i d, s.phases i = .read d → d.data <+: s.row.data
  embedded : ∀ i d new vector, s.phases i = .embedded d new vector →
    d.data <+: s.row.data ∧ new = (calls i).apply d.data

lemma inv_start (row : Document V) : Inv calls row.data (start row) where
  kept := .of_order List.nodup_nil (by simp [start, Phase.stored]) rfl
  read := nofun
  embedded := nofun

/-- The other calls are where they were. -/
lemma phase_of_moveTo {row : Document V} {i j : ℕ} {phase p : Phase V} (hne : phase ≠ p)
    (h : (s.moveTo i row phase).phases j = p) : j ≠ i ∧ s.phases j = p := by
  rw [phases_moveTo] at h
  split_ifs at h with hij
  · exact absurd h hne
  · exact ⟨hij, h⟩

/-- A call that gets to a place where it has stored a row just as before. -/
lemma stored_moveTo (s : Writers V) (row : Document V) {i : ℕ} {phase : Phase V}
    (h : phase.stored = (s.phases i).stored) (j : ℕ) :
    ((s.moveTo i row phase).phases j).stored = (s.phases j).stored := by
  rw [phases_moveTo]
  split_ifs with hij
  · rw [h, hij]
  · rfl

lemma Kept.moveTo (h : Kept calls content s) {i : ℕ} {phase : Phase V}
    (hphase : phase.stored = (s.phases i).stored) :
    Kept calls content (s.moveTo i s.row phase) := by
  obtain ⟨order, hnodup, hmem, hdata⟩ := h.sequential
  refine .of_order hnodup (fun j => ?_) hdata
  rw [hmem j, stored_moveTo s s.row hphase j]

lemma Inv.get (h : Inv calls content s) {i : ℕ} (hi : s.phases i = .idle) :
    Inv calls content (s.moveTo i s.row (.read s.row)) where
  kept := h.kept.moveTo (by rw [hi]; rfl)
  read := by
    intro j d hj
    rw [phases_moveTo] at hj
    split_ifs at hj with hij
    · rw [← Phase.read.inj hj]
      exact List.prefix_rfl
    · exact h.read j d hj
  embedded := by
    intro j d new vector hj
    exact h.embedded j d new vector (phase_of_moveTo (by simp) hj).2

lemma Inv.embed_ok (h : Inv calls content s) {i : ℕ} {d : Document V} (hi : s.phases i = .read d)
    (vector : V) :
    Inv calls content (s.moveTo i s.row (.embedded d ((calls i).apply d.data) vector)) where
  kept := h.kept.moveTo (by rw [hi]; rfl)
  read := fun j d' hj => h.read j d' (phase_of_moveTo (by simp) hj).2
  embedded := by
    intro j d' new vector' hj
    rw [phases_moveTo] at hj
    split_ifs at hj with hij
    · obtain ⟨rfl, rfl, rfl⟩ := Phase.embedded.inj hj
      exact ⟨h.read i _ hi, by rw [hij]⟩
    · exact h.embedded j d' new vector' hj

/-- A call that fails or returns. -/
lemma Inv.finish (h : Inv calls content s) {i : ℕ} {phase : Phase V}
    (hphase : phase.stored = (s.phases i).stored) (hread : ∀ d, phase ≠ .read d)
    (hembedded : ∀ d new vector, phase ≠ .embedded d new vector) :
    Inv calls content (s.moveTo i s.row phase) where
  kept := h.kept.moveTo hphase
  read := fun j d hj => h.read j d (phase_of_moveTo (hread d) hj).2
  embedded := fun j d new vector hj =>
    h.embedded j d new vector (phase_of_moveTo (hembedded d new vector) hj).2

/-- The calls that have stored a row once another one does. -/
lemma stored_persisted {row : Document V} {i j : ℕ} :
    ((s.moveTo i row .persisted).phases j).stored = true ↔ j = i ∨ (s.phases j).stored = true := by
  rw [phases_moveTo]
  by_cases hij : j = i
  · rw [if_pos hij]
    exact ⟨fun _ => Or.inl hij, fun _ => rfl⟩
  · rw [if_neg hij, or_iff_right hij]

/-- A call that stores a row takes its place after those that have stored one before, if it has
read what is there. -/
lemma Inv.persist (h : Inv calls content s) {i : ℕ} {d row : Document V} {new : Bytes} {vector : V}
    (hi : s.phases i = .embedded d new vector) (hfresh : d.data = s.row.data)
    (hrow : row.data = new) : Inv calls content (s.moveTo i row .persisted) := by
  have hnew : row.data = (calls i).apply s.row.data := by
    rw [hrow, (h.embedded i d new vector hi).2, hfresh]
  have hgrows : s.row.data <+: row.data := by
    rw [hnew]
    exact prefix_apply (calls i) _
  refine ⟨?_, fun j d' hj => ?_, fun j d' new' vector' hj => ?_⟩
  · obtain ⟨order, hnodup, hmem, hdata⟩ := h.kept.sequential
    have hnot : i ∉ order := by
      rw [hmem i, hi]
      exact Bool.false_ne_true
    refine @Kept.of_order V calls content _ (order ++ [i]) ?_ (fun j => ?_) ?_
    · exact List.nodup_append.2 ⟨hnodup, List.nodup_singleton i, fun a ha b hb => by
        rw [List.mem_singleton.1 hb]
        exact fun hai => hnot (hai ▸ ha)⟩
    · rw [stored_persisted, List.mem_append, List.mem_singleton, hmem j, or_comm]
    · rw [appendAll_concat, ← hdata]
      exact hnew
  · exact (h.read j d' (phase_of_moveTo (by simp) hj).2).trans hgrows
  · have hbefore := h.embedded j d' new' vector' (phase_of_moveTo (by simp) hj).2
    exact ⟨hbefore.1.trans hgrows, hbefore.2⟩

lemma inv_step {ev : Segment V} (h : Inv calls content s) (hok : s.Fresh ev)
    (hs : step calls s ev = some s') : Inv calls content s' := by
  cases ev with
  | get i =>
    rw [step] at hs
    split at hs
    case h_1 hi =>
      obtain rfl := Option.some.inj hs
      exact h.get hi
    case h_2 => cases hs
  | embed i result =>
    rw [step] at hs
    split at hs
    case h_1 d hi =>
      split at hs
      case h_1 vector =>
        obtain rfl := Option.some.inj hs
        exact h.embed_ok hi vector
      case h_2 =>
        obtain rfl := Option.some.inj hs
        exact h.finish (by rw [hi]; rfl) nofun nofun
    case h_2 => cases hs
  | persist i now =>
    rw [step] at hs
    split at hs
    case h_1 d new vector hi =>
      obtain rfl := Option.some.inj hs
      exact h.persist hi (hok d new vector hi) rfl
    case h_2 => cases hs
  | finish i =>
    rw [step] at hs
    split at hs
    case h_1 hi =>
      obtain rfl := Option.some.inj hs
      exact h.finish (by rw [hi]; rfl) nofun nofun
    case h_2 => cases hs

/-! ### Without offsets -/

/-- Orders of the calls that have stored a row, before and after a call stores one. -/
lemma sum_order {order order' : List ℕ} {row : Document V} {i : ℕ} (hnodup : order.Nodup)
    (hnodup' : order'.Nodup) (hmem : ∀ j, j ∈ order ↔ (s.phases j).stored = true)
    (hmem' : ∀ j, j ∈ order' ↔ ((s.moveTo i row .persisted).phases j).stored = true)
    (hi : (s.phases i).stored = false) (f : ℕ → ℕ) :
    (order'.map f).sum = (order.map f).sum + f i := by
  have hnot : i ∉ order := by
    rw [hmem i, hi]
    exact Bool.false_ne_true
  have hperm : order'.Perm (i :: order) := by
    rw [List.perm_ext_iff_of_nodup hnodup' (List.nodup_cons.2 ⟨hnot, hnodup⟩)]
    intro j
    rw [hmem' j, stored_persisted, List.mem_cons, hmem j]
  rw [(hperm.map f).sum_nat, List.map_cons, List.sum_cons, Nat.add_comm]

/-- The content is too short if a call stores a row that it has not made from the last one. -/
lemma fresh_of_kept {ev : Segment V} (hoffset : ∀ i, (calls i).offset ≤ 0)
    (h : Inv calls content s) (hs : step calls s ev = some s')
    (hkept : Kept calls content s') : s.Fresh ev := by
  cases ev with
  | persist i now =>
    intro d new vector hi
    rw [step, hi] at hs
    obtain rfl := Option.some.inj hs
    obtain ⟨hbegins, hnew⟩ := h.embedded i d new vector hi
    obtain ⟨order, hnodup, hmem, hdata⟩ := h.kept.sequential
    obtain ⟨order', hnodup', hmem', hdata'⟩ := hkept.sequential
    have hsum := sum_order hnodup hnodup' hmem hmem' (by rw [hi]; rfl)
      fun j => (calls j).data.length
    have hlen := length_appendAll content hoffset order
    have hlen' := length_appendAll content hoffset order'
    rw [← hdata] at hlen
    rw [← hdata'] at hlen'
    change new.length = _ at hlen'
    rw [hnew, apply_of_offset_le (hoffset i), List.length_append] at hlen'
    refine hbegins.eq_of_length ?_
    omega
  | _ => trivial

/-- Writers that store a row only while the content is the one that they have read keep what the
others have appended; when none of them has an offset, the others do not. -/
theorem kept_iff (calls : ℕ → Append) (row : Document V) (evs : List (Segment V)) :
    (StepsMeet (step calls) Fresh (start row) evs →
      StatesMeet (step calls) (Kept calls row.data) (start row) evs) ∧
    ((∀ i, (calls i).offset ≤ 0) →
      (StatesMeet (step calls) (Kept calls row.data) (start row) evs ↔
        StepsMeet (step calls) Fresh (start row) evs)) := by
  constructor
  · intro hsteps
    have hinv := statesMeet_of_stepsMeet (P := Inv calls row.data)
      (fun _ _ _ h hok hs => inv_step h hok hs) (inv_start row) hsteps
    exact hinv.imp fun _ h => h.kept
  · intro hoffset
    exact statesMeet_iff_of_invariant (I := Inv calls row.data) (fun _ h => h.kept)
      (fun _ _ _ h hs hkept => fresh_of_kept hoffset h hs hkept)
      (fun _ _ _ h hok hs => inv_step h hok hs) (inv_start row)

/-- Two calls that append a letter each. -/
def letters (i : ℕ) : Append := ⟨ascii (if i = 0 then "a" else "b"), 0, .APPEND, rfl⟩

/-- An empty document, whose vector is its content. -/
def emptyRow : Document Bytes := ⟨[], [], 0o644, 0, 0⟩

/-- The second call begins when the first one has stored its row. -/
def oneAfterTheOther : List (Segment Bytes) :=
  [.get 0, .embed 0 (.ok (ascii "a")), .persist 0 1, .get 1, .embed 1 (.ok (ascii "ab")),
    .persist 1 2, .finish 0, .finish 1]

theorem kept_iff_letters :
    StatesMeet (step letters) (Kept letters []) (start emptyRow) oneAfterTheOther ∧
    StepsMeet (step letters) Fresh (start emptyRow) oneAfterTheOther := by
  have hkept : StatesMeet (step letters) (Kept letters []) (start emptyRow)
      oneAfterTheOther := by
    refine (kept_iff letters emptyRow oneAfterTheOther).1 ?_
    simp [oneAfterTheOther, StepsMeet, step, start, moveTo, Fresh]
  have hoffset : ∀ i, (letters i).offset ≤ 0 := fun _ => Int64.le_refl 0
  exact ⟨hkept, ((kept_iff letters emptyRow oneAfterTheOther).2 hoffset).1 hkept⟩

/-- Both have read the empty document, so of the first letter nothing is left. -/
theorem not_kept_letters : ¬ StatesMeet (step letters) (Kept letters []) (start emptyRow)
    [.get 0, .get 1, .embed 0 (.ok (ascii "a")), .embed 1 (.ok (ascii "b")), .persist 0 1,
      .persist 1 2, .finish 0, .finish 1] := by
  intro h
  have hstored := (((((h.2 _ rfl).2 _ rfl).2 _ rfl).2 _ rfl).2 _ rfl).2 _ rfl
  have hlast := ((hstored.2 _ rfl).2 _ rfl).head
  have hfirst : ascii "a" <:+: ascii "b" := hlast.contains 0 rfl
  exact absurd hfirst (by decide)

end Writers

end Racfs.VectorFs
