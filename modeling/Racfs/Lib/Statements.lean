/-
# Programs of statements without transactions

What a call does is a sequence of statements on a shared state, each of them atomic, with nothing
around them (`Program`).  A statement can be refused by the state, it can fail, or it has its effect
and only its answer is lost (`Fate`); what comes next depends on the state that it has seen.  Any
number of calls run at the same time, statement by statement (`System`).

The rule is the one of rely and guarantee.  Every statement keeps an invariant and moves the state
along a preorder (`Rule`), and so do the statements of the others: what a call knows is that the
state has moved along the preorder since its last statement.  A program is safe if each of its
statements keeps the rule, whatever the others have done before (`Program.Safe`).  Then in all runs
of safe calls the invariant holds, the state has moved along the preorder, and every answer is
right for the statement it was given after (`sound_of_run`).
-/
import Racfs.Lib.AssocMap
import Racfs.Lib.Run

namespace Racfs.Statements

/-- A sequence of statements, for states and answers of some types. -/
inductive Program (S A : Type*)
  | done (a : A)
  /-- Run a statement.  The rest depends on the message of a failure, or on the state that the
  statement has seen. -/
  | exec (stmt : S → Option S) (fail : String → Program S A) (next : S → Program S A)

/-- A call: what it was asked to do, the state at its beginning, and what is left to do. -/
structure Task (O S A : Type*) where
  op : O
  since : S
  program : Program S A

/-- A call that has returned. -/
structure Answer (O S A : Type*) where
  op : O
  since : S
  answer : A

/-- The shared state, the calls that have not returned, and the answers in their order. -/
structure System (O S A : Type*) where
  shared : S
  tasks : AssocMap ℕ (Task O S A)
  answers : List (Answer O S A)

/-- What becomes of a statement. -/
inductive Fate
  | answered
  | failed
  | lost

/-- The beginning of a call, or its next statement, and the message of a failure. -/
inductive Event (O : Type*)
  | begin (t : ℕ) (op : O)
  | next (t : ℕ) (fate : Fate) (message : String)

variable {O S A : Type*}

/-- One statement: the state after it, and the rest. -/
def Program.step (fate : Fate) (message : String) (s : S) : Program S A → S × Program S A
  | .done a => (s, .done a)
  | .exec stmt fail next =>
    match fate, stmt s with
    | .answered, some s' => (s', next s)
    | .lost, some s' => (s', fail message)
    | _, _ => (s, fail message)

/-- A statement has no effect, it has one and the answer is lost, or it is answered. -/
lemma Program.step_cases (stmt : S → Option S) (fail : String → Program S A)
    (next : S → Program S A) (s : S) (fate : Fate) (message : String) :
    (exec stmt fail next).step fate message s = (s, fail message) ∨
      ∃ s', stmt s = some s' ∧
        ((exec stmt fail next).step fate message s = (s', fail message) ∨
          (exec stmt fail next).step fate message s = (s', next s)) := by
  cases hstmt : stmt s with
  | none => cases fate <;> exact Or.inl (by simp only [step, hstmt])
  | some s' =>
    cases fate with
    | answered => exact Or.inr ⟨s', rfl, Or.inr (by simp only [step, hstmt])⟩
    | failed => exact Or.inl (by simp only [step])
    | lost => exact Or.inr ⟨s', rfl, Or.inl (by simp only [step, hstmt])⟩

lemma Program.exec_ne_done (stmt : S → Option S) (fail : String → Program S A)
    (next : S → Program S A) (a : A) : exec stmt fail next ≠ .done a := by
  intro h
  cases h

namespace System

variable (sys : System O S A)

/-- Nothing has been called. -/
def start (s : S) : System O S A := ⟨s, ∅, []⟩

/-- A call goes on with the rest of its program, or returns. -/
def proceed (t : ℕ) (op : O) (since s : S) : Program S A → System O S A
  | .done a => ⟨s, sys.tasks.erase t, sys.answers ++ [⟨op, since, a⟩]⟩
  | .exec stmt fail next =>
    ⟨s, sys.tasks.insert t ⟨op, since, .exec stmt fail next⟩, sys.answers⟩

/-- The next event. -/
def step (program : O → Program S A) (sys : System O S A) : Event O → Option (System O S A)
  | .begin t op =>
    if sys.tasks.contains t then none
    else some (sys.proceed t op sys.shared sys.shared (program op))
  | .next t fate message =>
    (sys.tasks.get? t).map fun task =>
      let r := task.program.step fate message sys.shared
      sys.proceed t task.op task.since r.1 r.2

end System

/-! ### The rule -/

/-- What all statements keep, how they move the state, and what the last one has to do with the
answer. -/
structure Rule (O S A : Type*) where
  Inv : S → Prop
  Moves : S → S → Prop
  refl : ∀ s, Moves s s
  trans : ∀ s s' s'', Moves s s' → Moves s' s'' → Moves s s''
  /-- For the state at the beginning, the answer, and the states around the last statement. -/
  Right : O → S → A → S → S → Prop

variable (rule : Rule O S A)

/-- A program that goes on after the state `s₀` keeps the rule. -/
def Program.Safe (op : O) (since : S) : S → Program S A → Prop
  | _, .done _ => True
  | s₀, .exec stmt fail next =>
    ∀ s, rule.Inv s → rule.Moves s₀ s →
      (∀ message, (fail message).Safe op since s ∧
        ∀ a, fail message = .done a → rule.Right op since a s s) ∧
      ∀ s', stmt s = some s' → rule.Inv s' ∧ rule.Moves s s' ∧
        (∀ message, (fail message).Safe op since s' ∧
          ∀ a, fail message = .done a → rule.Right op since a s s') ∧
        (next s).Safe op since s' ∧ ∀ a, next s = .done a → rule.Right op since a s s'

/-- What is left of a call when the states around its last statement are `s` and `s'`. -/
structure Program.GoesOn (op : O) (since s s' : S) (p : Program S A) : Prop where
  safe : p.Safe rule op since s'
  right : ∀ a, p = .done a → rule.Right op since a s s'

/-- A call is safe from its beginning on. -/
def Rule.Admits (program : O → Program S A) (op : O) : Prop :=
  ∀ s, rule.Inv s → (program op).GoesOn rule op s s s

variable {rule} {program : O → Program S A} {op : O} {since : S}

/-- A statement that keeps the rule, before a program that does. -/
lemma Program.GoesOn.exec {s s' : S} {stmt : S → Option S} {fail : String → Program S A}
    {next : S → Program S A}
    (hfail : ∀ s₁ s₂, rule.Inv s₁ → rule.Moves s' s₁ → rule.Inv s₂ → rule.Moves s₁ s₂ →
      ∀ message, (fail message).GoesOn rule op since s₁ s₂)
    (hnext : ∀ s₁ s₂, rule.Inv s₁ → rule.Moves s' s₁ → stmt s₁ = some s₂ →
      rule.Inv s₂ ∧ rule.Moves s₁ s₂ ∧ (next s₁).GoesOn rule op since s₁ s₂) :
    (Program.exec stmt fail next).GoesOn rule op since s s' := by
  refine ⟨fun s₁ hinv hmoves => ⟨fun message => ?_, fun s₂ hstmt => ?_⟩, fun a heq => ?_⟩
  · have hrest := hfail s₁ s₁ hinv hmoves hinv (rule.refl s₁) message
    exact ⟨hrest.safe, hrest.right⟩
  · obtain ⟨hinv₂, hmoves₂, hrest⟩ := hnext s₁ s₂ hinv hmoves hstmt
    have hlost := hfail s₁ s₂ hinv hmoves hinv₂ hmoves₂
    exact ⟨hinv₂, hmoves₂, fun message => ⟨(hlost message).safe, (hlost message).right⟩,
      hrest.safe, hrest.right⟩
  · exact absurd heq (Program.exec_ne_done stmt fail next a)

lemma Program.GoesOn.done {s s' : S} {a : A} (h : rule.Right op since a s s') :
    (Program.done a : Program S A).GoesOn rule op since s s' := by
  refine ⟨trivial, fun b heq => ?_⟩
  cases heq
  exact h

/-- One statement of a safe program. -/
lemma Program.Safe.step {s₀ s : S} {p : Program S A} (h : p.Safe rule op since s₀)
    (hinv : rule.Inv s) (hmoves : rule.Moves s₀ s) (hp : ∀ a, p ≠ .done a)
    (fate : Fate) (message : String) :
    rule.Inv (p.step fate message s).1 ∧ rule.Moves s (p.step fate message s).1 ∧
      (p.step fate message s).2.GoesOn rule op since s (p.step fate message s).1 := by
  cases p with
  | done a => exact absurd rfl (hp a)
  | exec stmt fail next =>
    obtain ⟨hfail, hnext⟩ := h s hinv hmoves
    rcases Program.step_cases stmt fail next s fate message with
      hstep | ⟨s', hstmt, hstep⟩
    · rw [hstep]
      exact ⟨hinv, rule.refl s, (hfail message).1, (hfail message).2⟩
    · obtain ⟨hinv', hmoves', hlost, hsafe, hright⟩ := hnext s' hstmt
      rcases hstep with hstep | hstep
      · rw [hstep]
        exact ⟨hinv', hmoves', (hlost message).1, (hlost message).2⟩
      · rw [hstep]
        exact ⟨hinv', hmoves', hsafe, hright⟩

/-- What holds after any run from the state `s₀`: `Answered` is what is known of the answers. -/
structure Sound (rule : Rule O S A) (Answered : List (Answer O S A) → S → Prop) (s₀ : S)
    (sys : System O S A) : Prop where
  inv : rule.Inv sys.shared
  moves : rule.Moves s₀ sys.shared
  tasks : ∀ t task, sys.tasks.get? t = some task → (∀ a, task.program ≠ .done a) ∧
    ∃ s, rule.Moves s sys.shared ∧ task.program.Safe rule task.op task.since s
  answered : Answered sys.answers sys.shared

variable {Answered : List (Answer O S A) → S → Prop} {s₀ : S} {sys : System O S A}

/-- A call goes on, from a state that its statement has left. -/
lemma Sound.proceed
    (hkeep : ∀ answers s s', Answered answers s → rule.Moves s s' → Answered answers s')
    (hadd : ∀ answers op since a s s', rule.Moves s₀ s → rule.Moves s s' → Answered answers s →
      rule.Right op since a s s' → Answered (answers ++ [⟨op, since, a⟩]) s')
    (h : Sound rule Answered s₀ sys) (t : ℕ) {s : S} {p : Program S A} (hinv : rule.Inv s)
    (hmoves : rule.Moves sys.shared s) (hp : p.GoesOn rule op since sys.shared s) :
    Sound rule Answered s₀ (sys.proceed t op since s p) := by
  have hothers : ∀ t' task, sys.tasks.get? t' = some task → (∀ a, task.program ≠ .done a) ∧
      ∃ s₁, rule.Moves s₁ s ∧ task.program.Safe rule task.op task.since s₁ := by
    intro t' task htask
    obtain ⟨hne, s₁, hs₁, hsafe⟩ := h.tasks t' task htask
    exact ⟨hne, s₁, rule.trans _ _ _ hs₁ hmoves, hsafe⟩
  have hreached : rule.Moves s₀ s := rule.trans _ _ _ h.moves hmoves
  cases p with
  | done a =>
    exact ⟨hinv, hreached, fun t' task htask => hothers t' task (AssocMap.get?_of_get?_erase htask),
      hadd _ _ _ _ _ _ h.moves hmoves h.answered (hp.right a rfl)⟩
  | exec stmt fail next =>
    refine ⟨hinv, hreached, fun t' task htask => ?_, hkeep _ _ _ h.answered hmoves⟩
    rw [System.proceed] at htask
    simp only [AssocMap.get?_insert] at htask
    split_ifs at htask with ht
    · obtain rfl := Option.some.inj htask
      exact ⟨Program.exec_ne_done stmt fail next, s, rule.refl s, hp.safe⟩
    · exact hothers t' task htask

/-- In every run of safe calls, from a state that has the invariant, the invariant holds, the
state has moved along the preorder, and what is known of the answers is true. -/
theorem sound_of_run
    (hkeep : ∀ answers s s', Answered answers s → rule.Moves s s' → Answered answers s')
    (hadd : ∀ answers op since a s s', rule.Moves s₀ s → rule.Moves s s' → Answered answers s →
      rule.Right op since a s s' → Answered (answers ++ [⟨op, since, a⟩]) s')
    (hinv : rule.Inv s₀) (hstart : Answered [] s₀) {events : List (Event O)}
    (hadmits : ∀ t op, .begin t op ∈ events → rule.Admits program op)
    (hrun : run (System.step program) (.start s₀) events = some sys) :
    Sound rule Answered s₀ sys := by
  have hsteps : ∀ (events : List (Event O)) (sys sys' : System O S A),
      (∀ t op, .begin t op ∈ events → rule.Admits program op) → Sound rule Answered s₀ sys →
      run (System.step program) sys events = some sys' → Sound rule Answered s₀ sys' := by
    intro events
    induction events with
    | nil =>
      intro sys sys' _ h hrun
      rwa [← Option.some.inj hrun]
    | cons event events ih =>
      intro sys sys' hadmits h hrun
      obtain ⟨sys₁, hstep, hrest⟩ := exists_of_run_cons hrun
      refine ih sys₁ sys' (fun t op hmem => hadmits t op (List.mem_cons_of_mem _ hmem)) ?_ hrest
      cases event with
      | begin t op =>
        rw [System.step] at hstep
        split_ifs at hstep
        obtain rfl := Option.some.inj hstep
        exact h.proceed hkeep hadd t h.inv (rule.refl _) (hadmits t op List.mem_cons_self _ h.inv)
      | next t fate message =>
        obtain ⟨task, htask, rfl⟩ := Option.map_eq_some_iff.1 hstep
        obtain ⟨hne, s₁, hs₁, hsafe⟩ := h.tasks t task htask
        obtain ⟨hinv', hmoves, hrest'⟩ := hsafe.step h.inv hs₁ hne fate message
        exact h.proceed hkeep hadd t hinv' hmoves hrest'
  refine hsteps events _ _ hadmits ⟨hinv, rule.refl s₀, fun t task htask => ?_, hstart⟩ hrun
  exact absurd htask (by simp [System.start])

/-! ### Answers -/

lemma System.right_of_proceed {t : ℕ} {s : S} {p : Program S A} {ans : Answer O S A}
    (hp : p.GoesOn rule op since sys.shared s)
    (hans : (sys.proceed t op since s p).answers = sys.answers ++ [ans]) :
    rule.Right ans.op ans.since ans.answer sys.shared (sys.proceed t op since s p).shared := by
  cases p with
  | done a =>
    obtain rfl := List.singleton_inj.1 (List.append_cancel_left hans)
    exact hp.right a rfl
  | exec stmt fail next =>
    have hsame : sys.answers = sys.answers ++ [ans] := hans
    exact absurd hsame.symm (by simp)

/-- An event of a run that lets a call return: the answer is right for the states before and after
the event. -/
theorem right_of_answer (rule : Rule O S A) {s₀ : S} {events : List (Event O)} {event : Event O}
    {sys sys' : System O S A} {ans : Answer O S A} (hinv : rule.Inv s₀)
    (hadmits : ∀ t op, .begin t op ∈ events ++ [event] → rule.Admits program op)
    (hrun : run (System.step program) (.start s₀) events = some sys)
    (hstep : sys.step program event = some sys') (hans : sys'.answers = sys.answers ++ [ans]) :
    rule.Right ans.op ans.since ans.answer sys.shared sys'.shared := by
  have hsound : Sound rule (fun _ _ => True) s₀ sys :=
    sound_of_run (fun _ _ _ _ _ => trivial) (fun _ _ _ _ _ _ _ _ _ _ => trivial) hinv trivial
      (fun t op hbegin => hadmits t op (List.mem_append_left _ hbegin)) hrun
  cases event with
  | begin t op =>
    rw [System.step] at hstep
    split_ifs at hstep
    obtain rfl := Option.some.inj hstep
    have hbegin : Event.begin t op ∈ events ++ [.begin t op] := List.mem_append_right _ (by simp)
    exact System.right_of_proceed (hadmits t op hbegin _ hsound.inv) hans
  | next t fate message =>
    obtain ⟨task, htask, rfl⟩ := Option.map_eq_some_iff.1 hstep
    obtain ⟨hne, s₁, hs₁, hsafe⟩ := hsound.tasks t task htask
    exact System.right_of_proceed (hsafe.step hsound.inv hs₁ hne fate message).2.2 hans

end Racfs.Statements
