/-
# The bytes that are locked

What the lock table (`FileLockState` of `racfs-fuse/src/advanced.rs`) means for a byte of a
file: the type of the lock that an owner holds there, if any (`view`).  A request is about a
range, and it should change the bytes of that range and no others (`assign`).

The source drops every lock of the owner that overlaps the range, also the part of it outside
of the range.  So a request does what it should exactly if the owner's locks that overlap the
range lie inside of it (`setLock_unlock_view_iff`).  No two locks of an owner on an inode share a
byte in any state, however the critical sections are interleaved (`separate_of_reachable`).
-/
import Racfs.Fuse.Locks
import Mathlib.Data.List.Find
import Mathlib.Data.List.Pairwise

namespace Racfs.Fuse

/-- The lock is one of the owner's and the byte is in its range. -/
def LockEntry.HoldsAt (owner x : UInt64) (e : LockEntry) : Prop :=
  e.owner = owner ∧ e.start ≤ x ∧ x ≤ e.stop

instance (owner x : UInt64) (e : LockEntry) : Decidable (e.HoldsAt owner x) :=
  inferInstanceAs (Decidable (_ ∧ _))

/-- The two locks have the same owner and share a byte. -/
def LockEntry.Shares (a b : LockEntry) : Prop := a.owner = b.owner ∧ a.Overlaps b

lemma LockEntry.HoldsAt.shares {a b : LockEntry} {owner x : UInt64} (ha : a.HoldsAt owner x)
    (hb : b.HoldsAt owner x) : a.Shares b :=
  ⟨ha.1.trans hb.1.symm, x, ha.2.1, ha.2.2, hb.2.1, hb.2.2⟩

lemma LockEntry.Shares.symm {a b : LockEntry} (h : a.Shares b) : b.Shares a := by
  obtain ⟨ho, x, h1, h2, h3, h4⟩ := h
  exact ⟨ho.symm, x, h3, h4, h1, h2⟩

instance : Std.Symm fun a b : LockEntry => ¬ a.Shares b := ⟨fun _ _ hab hba => hab hba.symm⟩

namespace FileLockState

/-- The type of the lock that an owner holds at a byte. -/
def typeAt (owner x : UInt64) (l : List LockEntry) : Option Int32 :=
  (l.find? fun e => decide (e.HoldsAt owner x)).map LockEntry.typ

/-- The lock table as a function of the inode, the owner and the byte. -/
def view (s : FileLockState) (ino owner x : UInt64) : Option Int32 := typeAt owner x (s.held ino)

/-- The owner's bytes of a range have a new type, or none. -/
def assign (ino lockOwner start stop : UInt64) (typ : Option Int32)
    (f : UInt64 → UInt64 → UInt64 → Option Int32) (i o x : UInt64) : Option Int32 :=
  if i = ino ∧ o = lockOwner ∧ start ≤ x ∧ x ≤ stop then typ else f i o x

/-- The owner's locks that have a byte and overlap a range lie inside of it. -/
def OwnInside (lockOwner start stop : UInt64) (l : List LockEntry) : Prop :=
  ∀ e ∈ l, e.owner = lockOwner → e.start ≤ e.stop → start ≤ e.stop → e.start ≤ stop →
    start ≤ e.start ∧ e.stop ≤ stop

/-- No two locks of an owner on an inode share a byte. -/
def Separate (s : FileLockState) : Prop :=
  ∀ ino, (s.held ino).Pairwise fun a b => ¬ a.Shares b

/-! ### The owner's locks are separate -/

lemma keeps_eq_true_iff {lockOwner start stop : UInt64} {e : LockEntry} :
    keeps lockOwner start stop e = true ↔
      e.owner = lockOwner → e.stop < start ∨ stop < e.start := by
  by_cases ho : e.owner = lockOwner <;> simp [keeps, ho]

/-- A lock that stays has no byte of the range. -/
lemma not_holdsAt_of_keeps {lockOwner start stop x : UInt64} {e : LockEntry}
    (h : keeps lockOwner start stop e = true) (hx : start ≤ x ∧ x ≤ stop) :
    ¬ e.HoldsAt lockOwner x := by
  rintro ⟨ho, hle, hge⟩
  rcases keeps_eq_true_iff.1 h ho with hlt | hlt
  · exact UInt64.not_le.2 hlt (UInt64.le_trans hx.1 hge)
  · exact UInt64.not_le.2 hlt (UInt64.le_trans hle hx.2)

lemma separate_insertLock {s : FileLockState} (h : s.Separate) (ino : UInt64) (e : LockEntry) :
    (s.insertLock ino e).Separate := by
  intro ino'
  rw [held_insertLock]
  by_cases hino : ino = ino'
  · rw [if_pos hino]
    refine List.pairwise_append.2 ⟨(h ino).filter _, List.pairwise_singleton _ _, ?_⟩
    intro a ha b hb hshares
    obtain rfl := List.mem_singleton.1 hb
    obtain ⟨ho, x, h1, h2, h3, h4⟩ := hshares
    exact not_holdsAt_of_keeps (List.mem_filter.1 ha).2 ⟨h3, h4⟩ ⟨ho, h1, h2⟩
  · rw [if_neg hino]
    exact h ino'

lemma separate_unlock {s : FileLockState} (h : s.Separate) (ino lockOwner start stop : UInt64) :
    (s.unlock ino lockOwner start stop).Separate := by
  intro ino'
  rw [held_unlock]
  split
  · exact (h ino).filter _
  · exact h ino'

lemma separate_removeOwner {s : FileLockState} (h : s.Separate) (lockOwner : UInt64) :
    (s.removeOwner lockOwner).Separate := by
  intro ino
  rw [held_removeOwner]
  exact (h ino).filter _

/-- However the critical sections are interleaved, the locks of an owner are separate. -/
lemma separate_of_reachable {s : Concurrent.State}
    (h : Reachable Concurrent.step Concurrent.init s) : s.table.Separate := by
  refine h.invariant (P := fun s => s.table.Separate) (fun ino => by simp [Concurrent.init]) ?_
  intro s ev s' hs hstep
  cases ev with
  | check i ino e =>
    simp only [Concurrent.step] at hstep
    split at hstep
    · cases hstep
    · split at hstep <;> cases hstep <;> exact hs
  | insert i =>
    simp only [Concurrent.step] at hstep
    cases hp : s.pending i with
    | none => simp [hp] at hstep
    | some q =>
      simp only [hp, Option.some.injEq] at hstep
      subst hstep
      exact separate_insertLock hs q.1 q.2
  | unlock ino lockOwner start stop =>
    cases hstep
    exact separate_unlock hs ino lockOwner start stop
  | removeOwner lockOwner =>
    cases hstep
    exact separate_removeOwner hs lockOwner

/-! ### What is left of the owner's locks -/

lemma typeAt_eq_none_iff {owner x : UInt64} {l : List LockEntry} :
    typeAt owner x l = none ↔ ∀ e ∈ l, ¬ e.HoldsAt owner x := by
  simp [typeAt]

lemma typeAt_append (owner x : UInt64) (l l' : List LockEntry) :
    typeAt owner x (l ++ l') = (typeAt owner x l).or (typeAt owner x l') := by
  rw [typeAt, List.find?_append, Option.map_or]
  rfl

/-- The owner has no byte of the range any more. -/
lemma typeAt_filter_eq_none {lockOwner start stop x : UInt64} (l : List LockEntry)
    (hx : start ≤ x ∧ x ≤ stop) :
    typeAt lockOwner x (l.filter (keeps lockOwner start stop)) = none :=
  typeAt_eq_none_iff.2 fun _ he => not_holdsAt_of_keeps (List.mem_filter.1 he).2 hx

/-- A byte that is held is held by some lock. -/
lemma exists_of_typeAt {o x : UInt64} {l : List LockEntry} {t : Int32}
    (h : typeAt o x l = some t) : ∃ e ∈ l, e.HoldsAt o x := by
  by_contra hnone
  push Not at hnone
  rw [typeAt_eq_none_iff.2 hnone] at h
  cases h

/-- The bytes outside of the range keep their locks exactly if the locks that are dropped lie
inside of it. -/
lemma typeAt_filter_eq_iff {lockOwner start stop : UInt64} {l : List LockEntry}
    (hl : l.Pairwise fun a b => ¬ a.Shares b) :
    (∀ o x, ¬ (o = lockOwner ∧ start ≤ x ∧ x ≤ stop) →
      typeAt o x (l.filter (keeps lockOwner start stop)) = typeAt o x l) ↔
      OwnInside lockOwner start stop l := by
  constructor
  · intro h e he ho hne hstop hstart
    -- a byte of the lock outside of the range would still be held, by another lock
    have hbyte : ∀ x, e.HoldsAt lockOwner x → start ≤ x ∧ x ≤ stop := by
      intro x hx
      by_contra hout
      have heq := h lockOwner x fun hin => hout hin.2
      cases hkept : typeAt lockOwner x (l.filter (keeps lockOwner start stop)) with
      | none =>
        rw [hkept] at heq
        exact typeAt_eq_none_iff.1 heq.symm e he hx
      | some t =>
        obtain ⟨f, hf, hfx⟩ := exists_of_typeAt hkept
        obtain ⟨hfl, hfkeeps⟩ := List.mem_filter.1 hf
        have hef : e = f := by
          by_contra hne
          exact hl.forall he hfl hne (hx.shares hfx)
        subst hef
        rcases keeps_eq_true_iff.1 hfkeeps ho with hlt | hlt
        · exact UInt64.not_le.2 hlt hstop
        · exact UInt64.not_le.2 hlt hstart
    exact ⟨(hbyte e.start ⟨ho, UInt64.le_refl _, hne⟩).1,
      (hbyte e.stop ⟨ho, hne, UInt64.le_refl _⟩).2⟩
  · intro h o x hout
    rw [typeAt, typeAt, List.find?_filter]
    congr 1
    -- the locks that have the byte all stay
    refine List.find?_congr fun e he => ?_
    by_cases hx : e.HoldsAt o x
    · have hkeep : keeps lockOwner start stop e = true := by
        refine keeps_eq_true_iff.2 fun ho => ?_
        by_contra hover
        push Not at hover
        obtain ⟨hin, hin'⟩ := h e he ho (UInt64.le_trans hx.2.1 hx.2.2)
          (UInt64.not_lt.1 hover.1) (UInt64.not_lt.1 hover.2)
        exact hout ⟨hx.1.symm.trans ho, UInt64.le_trans hin hx.2.1, UInt64.le_trans hx.2.2 hin'⟩
      simp [hkeep]
    · simp [hx]

/-! ### The requests -/

/-- Two functions of the bytes are the same if they are so on the inode of the request. -/
lemma view_eq_assign_iff {s s' : FileLockState} {ino lockOwner start stop : UInt64}
    {typ : Option Int32} (hother : ∀ i, ino ≠ i → s'.held i = s.held i) :
    s'.view = assign ino lockOwner start stop typ s.view ↔
      ∀ o x, s'.view ino o x =
        if o = lockOwner ∧ start ≤ x ∧ x ≤ stop then typ else s.view ino o x := by
  constructor
  · intro h o x
    rw [h, assign]
    simp
  · intro h
    funext i o x
    by_cases hi : ino = i
    · subst hi
      rw [h, assign]
      simp
    · rw [assign, if_neg fun hin => hi hin.1.symm, view, view, hother i hi]

/-- An unlock does what it should exactly if the owner's locks that overlap the range lie inside
of it. -/
lemma unlock_view_iff {s : FileLockState} (hs : s.Separate)
    (ino lockOwner start stop : UInt64) :
    (s.unlock ino lockOwner start stop).view = assign ino lockOwner start stop none s.view ↔
      OwnInside lockOwner start stop (s.held ino) := by
  rw [view_eq_assign_iff fun i hi => by rw [held_unlock, if_neg hi],
    ← typeAt_filter_eq_iff (hs ino)]
  simp only [view, held_unlock, if_true]
  constructor
  · intro h o x hout
    rw [h, if_neg hout]
  · intro h o x
    split
    · next hin => rw [hin.1, typeAt_filter_eq_none _ hin.2]
    · next hout => exact h o x hout

/-- The same of the lock that takes the place of the owner's locks. -/
lemma insertLock_view_iff {s : FileLockState} (hs : s.Separate) (ino : UInt64) (e : LockEntry) :
    (s.insertLock ino e).view = assign ino e.owner e.start e.stop (some e.typ) s.view ↔
      OwnInside e.owner e.start e.stop (s.held ino) := by
  rw [view_eq_assign_iff fun i hi => by rw [held_insertLock, if_neg hi],
    ← typeAt_filter_eq_iff (hs ino)]
  simp only [view, held_insertLock, if_true, typeAt_append]
  have hnew : ∀ o x, typeAt o x [e] =
      if o = e.owner ∧ e.start ≤ x ∧ x ≤ e.stop then some e.typ else none := by
    intro o x
    rw [typeAt, List.find?_singleton]
    by_cases h : e.HoldsAt o x
    · have hin : o = e.owner ∧ e.start ≤ x ∧ x ≤ e.stop := ⟨h.1.symm, h.2⟩
      rw [if_pos hin]
      simp [h]
    · have hin : ¬ (o = e.owner ∧ e.start ≤ x ∧ x ≤ e.stop) := fun hin => h ⟨hin.1.symm, hin.2⟩
      rw [if_neg hin]
      simp [h]
  constructor
  · intro h o x hout
    have := h o x
    rwa [hnew, if_neg hout, if_neg hout, Option.or_none] at this
  · intro h o x
    rw [hnew]
    split
    · next hin => rw [hin.1, typeAt_filter_eq_none _ hin.2, Option.none_or]
    · next hout => rw [Option.or_none, h o x hout]

/-- In every state that the critical sections lead to, a request of `set_lock` that succeeds gives
the owner's bytes of the range the type and changes no others exactly if the owner's locks that
overlap the range lie inside of it; and so does an unlock, which takes the bytes' locks away. -/
theorem setLock_unlock_view_iff {s : Concurrent.State}
    (h : Reachable Concurrent.step Concurrent.init s) (ino lockOwner start stop : UInt64) :
    (∀ typ pid sleep, (s.table.setLock ino lockOwner start stop typ pid sleep).1 = .ok () →
      ((s.table.setLock ino lockOwner start stop typ pid sleep).2.view =
          assign ino lockOwner start stop (if typ = fUnlck then none else some typ) s.table.view ↔
        OwnInside lockOwner start stop (s.table.held ino))) ∧
    ((s.table.unlock ino lockOwner start stop).view =
        assign ino lockOwner start stop none s.table.view ↔
      OwnInside lockOwner start stop (s.table.held ino)) := by
  have hs := separate_of_reachable h
  refine ⟨fun typ pid sleep hok => ?_, unlock_view_iff hs ino lockOwner start stop⟩
  rw [setLock] at hok ⊢
  by_cases ht : typ = fUnlck
  · simp only [if_pos ht]
    exact unlock_view_iff hs ino lockOwner start stop
  · simp only [if_neg ht] at hok ⊢
    cases hc : s.table.getConflict ino start stop typ lockOwner with
    | some c => cases sleep <;> simp [hc] at hok
    | none => exact insertLock_view_iff hs ino ⟨start, stop, typ, pid, lockOwner⟩

/-- An owner has a write lock on the first hundred bytes, and asks for the whole file. -/
theorem setLock_unlock_view_iff_whole :
    ∃ s, run Concurrent.step Concurrent.init
        [.check 0 10 ⟨0, 99, fWrlck, 1000, 1⟩, .insert 0] = some s ∧
      (s.table.setLock 10 1 0 1000 fRdlck 1000 false).1 = .ok () ∧
      ((s.table.setLock 10 1 0 1000 fRdlck 1000 false).2.view =
          assign 10 1 0 1000 (some fRdlck) s.table.view ↔
        OwnInside 1 0 1000 (s.table.held 10)) := by
  refine ⟨_, rfl, rfl, ?_⟩
  have h := setLock_unlock_view_iff ⟨[.check 0 10 ⟨0, 99, fWrlck, 1000, 1⟩, .insert 0], rfl⟩
    10 1 0 1000
  exact h.1 fRdlck 1000 false rfl

/-- The same owner gives up one byte and loses the others, and a read lock on one byte takes the
write locks on the others away. -/
theorem setLock_unlock_view_loses :
    ∃ s, run Concurrent.step Concurrent.init
        [.check 0 10 ⟨0, 99, fWrlck, 1000, 1⟩, .insert 0] = some s ∧
      s.table.view 10 1 0 = some fWrlck ∧
      (s.table.unlock 10 1 50 50).view 10 1 0 = none ∧
      (s.table.setLock 10 1 50 50 fRdlck 1000 false).1 = .ok () ∧
      (s.table.setLock 10 1 50 50 fRdlck 1000 false).2.view 10 1 0 = none :=
  ⟨_, rfl, by decide, by decide, rfl, by decide⟩

end FileLockState

end Racfs.Fuse
