/-
# Programs that take guards

What a call does is a tree of steps: it takes a guard and works on the shared tables under it,
drops a guard, or asks something outside (`Program`).  What comes next depends on the tables and
on the answers.  Any number of calls run at the same time, and a step of the system is a step of
one call; a call whose next guard is blocked, maybe by itself, cannot take it.

The rule is the usual one of an order of the locks, with an exception: under a condition on the
tables a call may go on to a lock that it holds (`Program.Ordered`).  Then the runs in which no
call waits for a lock that it holds and no calls wait for each other in a circle are those in
which no guard is taken under the exception (`not_hangs_iff_taken`).  A call that is blocked by
itself never goes on (`get?_of_stuck`), and the calls that come to an end when they run alone do
what `Program.alone` computes (`run_alone`).
-/
import Racfs.Lib.AssocMap
import Racfs.Lib.Run
import Racfs.Lib.RwLock

namespace Racfs.RwLock

/-- The steps of a call, for locks, shared tables, requests and answers of some types. -/
inductive Program (K S D E : Type*)
  | done
  /-- Take a guard and change the tables; the rest depends on the tables before the change. -/
  | acquire (g : Guard K) (f : S → S) (rest : S → Program K S D E)
  /-- Drop the guard of a lock that was taken last. -/
  | release (lock : K) (rest : Program K S D E)
  /-- Make a request, which may change the shared state, and get an answer. -/
  | call (request : D) (f : E → S → S) (rest : E → S → Program K S D E)

/-- A call: what it was asked to do, what it holds, and what is left to do. -/
structure Running (O K S D E : Type*) where
  op : O
  held : List (Guard K)
  program : Program K S D E

/-- The shared state and the calls that have not returned. -/
structure System (O K S D E : Type*) where
  shared : S
  calls : AssocMap ℕ (Running O K S D E)

/-- The beginning of a call, or a step of one, with the answer that it gets if it asks. -/
inductive Event (O E : Type*)
  | begin (i : ℕ) (op : O)
  | next (i : ℕ) (answer : E)

variable {O K S D E : Type*} [DecidableEq K]

/-- Drop the guard of a lock. -/
def drop (lock : K) (held : List (Guard K)) : List (Guard K) :=
  held.eraseP fun g => g.lock = lock

/-- The guard that is taken next, if the next step takes one. -/
def Program.wants : Program K S D E → Option (Guard K)
  | acquire g _ _ => some g
  | _ => none

/-- The next step takes a lock that is held. -/
def Relocks (held : List (Guard K)) (p : Program K S D E) : Prop :=
  ∃ w, p.wants = some w ∧ ∃ g ∈ held, g.lock = w.lock

/-- Locks are taken from higher to lower levels, unless a guard is taken in a state that is not
`Ok`: there the next step takes a lock that is held. -/
def Program.Ordered (level : K → ℕ) (Ok : Guard K → S → Prop) :
    List (Guard K) → Program K S D E → Prop
  | _, done => True
  | held, acquire g _ rest =>
    (∀ h ∈ held, level g.lock < level h.lock) ∧
      ∀ s, (Ok g s → (rest s).Ordered level Ok (g :: held)) ∧
        (¬ Ok g s → Relocks (g :: held) (rest s))
  | held, release lock rest => rest.Ordered level Ok (drop lock held)
  | held, call _ _ rest => ∀ e s, (rest e s).Ordered level Ok held

/-- The shared state after a program that runs alone; none if it blocks itself. -/
def Program.alone (answer : D → E) : List (Guard K) → Program K S D E → S → Option S
  | _, done, s => some s
  | held, acquire g f rest, s =>
    if held.all fun h => !h.blocks g then (rest s).alone answer (g :: held) (f s) else none
  | held, release lock rest, s => rest.alone answer (drop lock held) s
  | held, call d f rest, s => (rest (answer d) s).alone answer held (f (answer d) s)

/-- The shared state and the call after its next step; the call is gone when it has returned. -/
def Running.next (answer : E) (shared : S) (c : Running O K S D E) :
    S × Option (Running O K S D E) :=
  match c.program with
  | .done => (shared, none)
  | .acquire g f rest => (f shared, some ⟨c.op, g :: c.held, rest shared⟩)
  | .release lock rest => (shared, some ⟨c.op, drop lock c.held, rest⟩)
  | .call _ f rest => (f answer shared, some ⟨c.op, c.held, rest answer shared⟩)

namespace System

variable (s : System O K S D E)

/-- The guards that a call holds. -/
def holds (i : ℕ) : List (Guard K) := ((s.calls.get? i).map Running.held).getD []

/-- The guard that a call waits for. -/
def wants (i : ℕ) : Option (Guard K) := (s.calls.get? i).bind fun c => c.program.wants

/-- Whether nobody blocks the guard. -/
def free (g : Guard K) : Bool := s.calls.entries.all fun e => e.2.held.all fun h => !h.blocks g

/-- Some call waits for a lock that it holds, or some calls wait for each other in a circle. -/
def Hangs : Prop :=
  (∃ i c, s.calls.get? i = some c ∧ Relocks c.held c.program) ∨ CircularWait s.holds s.wants

/-- One step. -/
def step (program : O → Program K S D E) (s : System O K S D E) :
    Event O E → Option (System O K S D E)
  | .begin i op =>
    if s.calls.contains i then none
    else some { s with calls := s.calls.insert i ⟨op, [], program op⟩ }
  | .next i answer =>
    (s.calls.get? i).bind fun c =>
      if c.program.wants.all s.free then
        let r := c.next answer s.shared
        some ⟨r.1, match r.2 with
          | some c' => s.calls.insert i c'
          | none => s.calls.erase i⟩
      else none

/-- A guard that is taken is taken in a state that is `Ok`. -/
def Taken (Ok : O → Guard K → S → Prop) (s : System O K S D E) : Event O E → Prop
  | .next i _ => ∀ c g, s.calls.get? i = some c → c.program.wants = some g → Ok c.op g s.shared
  | _ => True

/-- The calls keep to the order of the locks. -/
def Inv (level : K → ℕ) (Ok : O → Guard K → S → Prop) (s : System O K S D E) : Prop :=
  ∀ i c, s.calls.get? i = some c → c.program.Ordered level (Ok c.op) c.held

variable {s} {s' : System O K S D E} {level : K → ℕ} {Ok : O → Guard K → S → Prop}
  {program : O → Program K S D E}

/-- What the beginning of a call does to the calls. -/
lemma get?_of_begin {i : ℕ} {op : O} (hs : step program s (.begin i op) = some s') :
    s.calls.get? i = none ∧
      ∀ j, s'.calls.get? j = if i = j then some ⟨op, [], program op⟩ else s.calls.get? j := by
  rw [step] at hs
  split_ifs at hs with hnew
  obtain rfl := Option.some.inj hs
  refine ⟨AssocMap.contains_eq_false_iff.1 (Bool.eq_false_iff.2 hnew), fun j => ?_⟩
  simp [AssocMap.get?_insert]

/-- What a step of a call does to the calls. -/
lemma get?_of_next {i : ℕ} {answer : E} (hs : step program s (.next i answer) = some s') :
    ∃ c, s.calls.get? i = some c ∧ (∀ w, c.program.wants = some w → s.free w = true) ∧
      ∀ j, s'.calls.get? j = if i = j then (c.next answer s.shared).2 else s.calls.get? j := by
  obtain ⟨c, hc, hs⟩ := Option.bind_eq_some_iff.1 hs
  split_ifs at hs with hfree
  obtain rfl := Option.some.inj hs
  refine ⟨c, hc, fun w hw => by simpa [hw] using hfree, fun j => ?_⟩
  cases (c.next answer s.shared).2 with
  | some c' => simp [AssocMap.get?_insert]
  | none => simp [AssocMap.get?_erase]

/-- A lock that is wanted is below those that are held. -/
lemma Inv.level_lt (h : s.Inv level Ok) {i : ℕ} {w g : Guard K} (hw : s.wants i = some w)
    (hg : g ∈ s.holds i) : level w.lock < level g.lock := by
  obtain ⟨⟨op, held, p⟩, hc, hcw⟩ := Option.bind_eq_some_iff.1 hw
  have hordered := h i _ hc
  rw [holds, hc] at hg
  cases p with
  | acquire g' f rest =>
    obtain rfl := Option.some.inj hcw
    exact hordered.1 g hg
  | _ => cases hcw

/-- In an order of the locks nobody waits forever. -/
lemma Inv.not_hangs (h : s.Inv level Ok) : ¬ s.Hangs := by
  rintro (⟨i, c, hc, w, hw, g, hg, heq⟩ | hcircle)
  · have hlt := h.level_lt (i := i) (w := w) (g := g) (by simp [wants, hc, hw])
      (by simpa [holds, hc] using hg)
    rw [heq] at hlt
    exact lt_irrefl _ hlt
  · refine not_circularWait_of_rank
      (fun i => ((s.wants i).map fun w => level w.lock).getD 0) (fun i j k hij hjk => ?_) hcircle
    obtain ⟨-, w, hwi, g, hg, hblocks⟩ := hij
    obtain ⟨-, w', hwj, -⟩ := hjk
    have hlock : g.lock = w.lock := by
      rw [Guard.blocks, Bool.and_eq_true] at hblocks
      exact of_decide_eq_true hblocks.1
    have hlt := h.level_lt hwj hg
    rw [hlock] at hlt
    simpa [hwi, hwj] using hlt

/-- A step of a call keeps to the order, if the guard that it takes is taken in a state that is
`Ok`. -/
lemma ordered_next {c c' : Running O K S D E} {answer : E} {shared : S}
    (h : c.program.Ordered level (Ok c.op) c.held)
    (hok : ∀ g, c.program.wants = some g → Ok c.op g shared)
    (hnext : (c.next answer shared).2 = some c') :
    c'.program.Ordered level (Ok c'.op) c'.held := by
  obtain ⟨op, held, p⟩ := c
  cases p with
  | done => cases hnext
  | acquire g f rest =>
    obtain rfl := Option.some.inj hnext
    exact (h.2 shared).1 (hok g rfl)
  | release lock rest =>
    obtain rfl := Option.some.inj hnext
    exact h
  | call d f rest =>
    obtain rfl := Option.some.inj hnext
    exact h answer shared

/-- Otherwise it gets to wait for itself. -/
lemma relocks_next {c : Running O K S D E} (answer : E) {shared : S} {g : Guard K}
    (h : c.program.Ordered level (Ok c.op) c.held) (hw : c.program.wants = some g)
    (hok : ¬ Ok c.op g shared) :
    ∃ c', (c.next answer shared).2 = some c' ∧ Relocks c'.held c'.program := by
  obtain ⟨op, held, p⟩ := c
  cases p with
  | acquire g' f rest =>
    obtain rfl := Option.some.inj hw
    exact ⟨_, rfl, (h.2 shared).2 hok⟩
  | _ => cases hw

/-- One step of the system. -/
lemma Inv.step (hprogram : ∀ op, (program op).Ordered level (Ok op) []) {ev : Event O E}
    (h : s.Inv level Ok) (htaken : s.Taken Ok ev) (hs : step program s ev = some s') :
    s'.Inv level Ok := by
  intro j d hd
  cases ev with
  | begin i op =>
    rw [(get?_of_begin hs).2 j] at hd
    split_ifs at hd with hij
    · obtain rfl := Option.some.inj hd
      exact hprogram op
    · exact h j d hd
  | next i answer =>
    obtain ⟨c, hc, -, hget⟩ := get?_of_next hs
    rw [hget j] at hd
    split_ifs at hd with hij
    · exact ordered_next (h i c hc) (fun g hw => htaken c g hc hw) hd
    · exact h j d hd

lemma Inv.taken (h : s.Inv level Ok) {ev : Event O E} (hs : System.step program s ev = some s')
    (hnot : ¬ s'.Hangs) : s.Taken Ok ev := by
  cases ev with
  | begin i op => trivial
  | next i answer =>
    intro c g hc hw
    by_contra hok
    obtain ⟨c', hnext, hrelocks⟩ := relocks_next answer (h i c hc) hw hok
    obtain ⟨d, hd, -, hget⟩ := get?_of_next hs
    obtain rfl := Option.some.inj (hc.symm.trans hd)
    exact hnot (Or.inl ⟨i, c', by rw [hget i, if_pos rfl, hnext], hrelocks⟩)

/-- The runs in which nobody waits forever, for any number of calls and every order of their
steps, from any shared state. -/
theorem not_hangs_iff_taken (hprogram : ∀ op, (program op).Ordered level (Ok op) []) (shared : S)
    (evs : List (Event O E)) :
    StatesMeet (step program) (fun s => ¬ s.Hangs) ⟨shared, ∅⟩ evs ↔
      StepsMeet (step program) (Taken Ok) ⟨shared, ∅⟩ evs :=
  statesMeet_iff_of_invariant (I := Inv level Ok) (fun _ h => h.not_hangs)
    (fun _ _ _ h hs hnot => h.taken hs hnot) (fun _ _ _ h htaken hs => h.step hprogram htaken hs)
    (fun _ _ hc => by cases hc)

/-! ### Calls that block themselves -/

lemma not_free_of_held {i : ℕ} {c : Running O K S D E} {w g : Guard K}
    (hc : s.calls.get? i = some c) (hg : g ∈ c.held) (hblocks : g.blocks w = true) :
    s.free w = false := by
  obtain ⟨j, hmem, -⟩ := AssocMap.mem_of_get? hc
  rw [free, List.all_eq_false]
  exact ⟨(j, c), hmem, by simpa using ⟨g, hg, hblocks⟩⟩

/-- A call that waits for a guard which one of its own excludes stays where it is. -/
theorem get?_of_stuck {i : ℕ} {c : Running O K S D E} {w g : Guard K}
    (hc : s.calls.get? i = some c) (hw : c.program.wants = some w) (hg : g ∈ c.held)
    (hblocks : g.blocks w = true) (hs : Reachable (step program) s s') :
    s'.calls.get? i = some c := by
  refine hs.invariant (P := fun t => t.calls.get? i = some c) hc fun t ev t' ht hstep => ?_
  cases ev with
  | begin j op =>
    obtain ⟨hnew, hget⟩ := get?_of_begin hstep
    have hne : j ≠ i := by
      rintro rfl
      rw [hnew] at ht
      cases ht
    rw [hget i, if_neg hne, ht]
  | next j answer =>
    obtain ⟨d, hd, hfree, hget⟩ := get?_of_next hstep
    have hne : j ≠ i := by
      rintro rfl
      obtain rfl := Option.some.inj (ht.symm.trans hd)
      exact Bool.false_ne_true ((not_free_of_held ht hg hblocks).symm.trans (hfree w hw))
    rw [hget i, if_neg hne, ht]

/-! ### One call -/

/-- A call without others. -/
def only (i : ℕ) (shared : S) (c : Running O K S D E) : System O K S D E :=
  ⟨shared, (∅ : AssocMap ℕ (Running O K S D E)).insert i c⟩

lemma free_only (i : ℕ) (shared : S) (c : Running O K S D E) (g : Guard K) :
    (only i shared c).free g = c.held.all fun h => !h.blocks g :=
  Bool.and_true _

/-- One step of the only call. -/
lemma step_only {i : ℕ} {shared : S} {c : Running O K S D E} (answer : E)
    (hfree : ∀ w, c.program.wants = some w → (c.held.all fun h => !h.blocks w) = true) :
    step program (only i shared c) (.next i answer) =
      some (match c.next answer shared with
        | (shared', some c') => only i shared' c'
        | (shared', none) => ⟨shared', ∅⟩) := by
  have hc : (only i shared c).calls.get? i = some c := AssocMap.get?_insert_self ..
  have hall : c.program.wants.all (only i shared c).free = true := by
    cases hw : c.program.wants with
    | none => rfl
    | some w => exact (free_only i shared c w).trans (hfree w hw)
  have hinsert : ∀ c', (only i shared c).calls.insert i c' = (only i shared c').calls := by
    intro c'
    simp [only, AssocMap.insert, AssocMap.upsert]
  have herase : (only i shared c).calls.erase i = ∅ := by
    simp [only, AssocMap.erase, AssocMap.retain, AssocMap.insert, AssocMap.upsert]
    rfl
  rw [step, hc, Option.bind_some, if_pos hall]
  have hshared : (only i shared c).shared = shared := rfl
  simp only [hshared]
  obtain ⟨shared', _ | c'⟩ := c.next answer shared
  · simp only [herase]
  · simp only [hinsert]
    rfl

/-- A call that runs alone comes to its end, with the state that `alone` computes. -/
theorem run_alone {answer : D → E} (i : ℕ) (op : O) {p : Program K S D E}
    {held : List (Guard K)} {shared shared' : S}
    (h : p.alone answer held shared = some shared') (e : E) :
    ∃ evs, run (step program) (only i shared ⟨op, held, p⟩) evs = some ⟨shared', ∅⟩ := by
  induction p generalizing held shared with
  | done =>
    obtain rfl := Option.some.inj h
    exact ⟨[.next i e], by rw [run, step_only e fun w hw => by cases hw]; rfl⟩
  | acquire g f rest ih =>
    rw [Program.alone] at h
    split_ifs at h with hfree
    obtain ⟨evs, hevs⟩ := ih shared h
    refine ⟨.next i e :: evs, ?_⟩
    rw [run, step_only e fun w hw => Option.some.inj hw ▸ hfree]
    exact hevs
  | release lock rest ih =>
    obtain ⟨evs, hevs⟩ := ih h
    exact ⟨.next i e :: evs, by rw [run, step_only e fun w hw => by cases hw]; exact hevs⟩
  | call d f rest ih =>
    obtain ⟨evs, hevs⟩ := ih (answer d) shared h
    exact ⟨.next i (answer d) :: evs, by rw [run, step_only _ fun w hw => by cases hw]; exact hevs⟩

end System

end Racfs.RwLock
