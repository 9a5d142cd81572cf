/-
# Runs of a step function

A system that takes labelled steps: a step may be impossible in a state (`none`).  A run is
a list of labels.  Besides the state after a run (`run`) we need two statements about all
its positions: every state of the run satisfies `P` (`StatesMeet`), and every step of it is
taken under a condition `Ok` on the state before and the label (`StepsMeet`).

The rules are those used for every invariant below: `statesMeet_of_stepsMeet` (an invariant that
the steps keep under `Ok` holds in all states of a run of such steps),
`StatesMeet.run_invariant` (the same with a condition on the states) and
`statesMeet_iff_stepsMeet` (when `Ok` is exactly what a step needs to keep `P`, the runs that
stay inside `P` are exactly the runs whose steps meet `Ok`).
-/
import Mathlib.Tactic.Common

namespace Racfs

section Run

variable {S L : Type*} (step : S → L → Option S)

/-- The state after a run, if all its steps are possible. -/
def run (s : S) : List L → Option S
  | [] => some s
  | l :: ls => (step s l).bind fun s' => run s' ls

/-- Every step of the run is taken under the condition `Ok`. -/
def StepsMeet (Ok : S → L → Prop) (s : S) : List L → Prop
  | [] => True
  | l :: ls => ∀ s', step s l = some s' → Ok s l ∧ StepsMeet Ok s' ls

/-- Every state of the run, the first one included, satisfies `P`. -/
def StatesMeet (P : S → Prop) (s : S) : List L → Prop
  | [] => P s
  | l :: ls => P s ∧ ∀ s', step s l = some s' → StatesMeet P s' ls

/-- The states that a run from `s₀` ends in. -/
def Reachable (s₀ s : S) : Prop := ∃ ls, run step s₀ ls = some s

variable {step}

lemma exists_of_run_cons {s t : S} {l : L} {ls : List L} (h : run step s (l :: ls) = some t) :
    ∃ s', step s l = some s' ∧ run step s' ls = some t := by
  simpa [run, Option.bind_eq_some_iff] using h

lemma run_append (s : S) (ls ls' : List L) :
    run step s (ls ++ ls') = (run step s ls).bind fun s' => run step s' ls' := by
  induction ls generalizing s with
  | nil => rfl
  | cons l ls ih =>
    simp only [List.cons_append, run, Option.bind_assoc]
    congr 1
    funext s'
    exact ih s'

lemma StatesMeet.head {P : S → Prop} {s : S} {ls : List L} (h : StatesMeet step P s ls) :
    P s := by
  cases ls with
  | nil => exact h
  | cons l ls => exact h.1

lemma StatesMeet.imp {P Q : S → Prop} (hPQ : ∀ s, P s → Q s) {s : S} {ls : List L}
    (h : StatesMeet step P s ls) : StatesMeet step Q s ls := by
  induction ls generalizing s with
  | nil => exact hPQ s h
  | cons l ls ih => exact ⟨hPQ s h.1, fun s' hs' => ih (h.2 s' hs')⟩

/-- A statement that every step keeps under `Ok` holds in all states of a run of such steps. -/
theorem statesMeet_of_stepsMeet {P : S → Prop} {Ok : S → L → Prop}
    (hstep : ∀ s l s', P s → Ok s l → step s l = some s' → P s') {ls : List L} :
    ∀ {s : S}, P s → StepsMeet step Ok s ls → StatesMeet step P s ls := by
  induction ls with
  | nil => intro s hs _; exact hs
  | cons l ls ih =>
    intro s hs hok
    exact ⟨hs, fun s' hs' => ih (hstep s l s' hs (hok s' hs').1 hs') (hok s' hs').2⟩

/-- A statement that every step into `Q` keeps holds after a run inside `Q`. -/
theorem StatesMeet.run_invariant {P Q : S → Prop}
    (hstep : ∀ s l s', P s → Q s' → step s l = some s' → P s') {ls : List L} :
    ∀ {s t : S}, P s → StatesMeet step Q s ls → run step s ls = some t → P t ∧ Q t := by
  induction ls with
  | nil =>
    intro s t hs hmeet hrun
    obtain rfl : s = t := Option.some.inj hrun
    exact ⟨hs, hmeet⟩
  | cons l ls ih =>
    intro s t hs hmeet hrun
    obtain ⟨s', hs', hrest⟩ := exists_of_run_cons hrun
    have hmeet' := hmeet.2 s' hs'
    exact ih (hstep s l s' hs hmeet'.head hs') hmeet' hrest

/-- A statement that every step keeps holds in all reachable states. -/
theorem Reachable.invariant {P : S → Prop} {s₀ s : S} (h : Reachable step s₀ s) (h₀ : P s₀)
    (hstep : ∀ s l s', P s → step s l = some s' → P s') : P s := by
  obtain ⟨ls, hls⟩ := h
  induction ls generalizing s₀ with
  | nil =>
    obtain rfl : s₀ = s := by simpa [run] using hls
    exact h₀
  | cons l ls ih =>
    obtain ⟨s', hs', hrun⟩ := exists_of_run_cons hls
    exact ih (hstep s₀ l s' h₀ hs') hrun

/-- When `Ok` is exactly what a step out of `P` needs to stay in `P`, the runs that stay in
`P` are the runs whose steps meet `Ok`.  `A` collects facts that every step keeps anyway. -/
theorem statesMeet_iff_stepsMeet {A P : S → Prop} {Ok : S → L → Prop}
    (hA : ∀ s l s', A s → step s l = some s' → A s')
    (hstep : ∀ s l s', A s → P s → step s l = some s' → (P s' ↔ Ok s l)) {ls : List L} :
    ∀ {s : S}, A s → P s → (StatesMeet step P s ls ↔ StepsMeet step Ok s ls) := by
  induction ls with
  | nil => intro s _ hs; simp [StatesMeet, StepsMeet, hs]
  | cons l ls ih =>
    intro s ha hs
    cases hl : step s l with
    | none => simp [StatesMeet, StepsMeet, hl, hs]
    | some s' =>
      have ha' := hA s l s' ha hl
      have hiff := hstep s l s' ha hs hl
      simp only [StatesMeet, StepsMeet, hl, Option.some.injEq, forall_eq']
      constructor
      · rintro ⟨-, hrest⟩
        exact ⟨hiff.1 hrest.head, (ih ha' hrest.head).1 hrest⟩
      · rintro ⟨hok, hrest⟩
        exact ⟨hs, (ih ha' (hiff.2 hok)).2 hrest⟩

/-- The same when `P` alone is too weak to go on with: `I` is what the steps under `Ok` keep, and
from there a step into `P` is one under `Ok`. -/
theorem statesMeet_iff_of_invariant {I P : S → Prop} {Ok : S → L → Prop} (hP : ∀ s, I s → P s)
    (hok : ∀ s l s', I s → step s l = some s' → P s' → Ok s l)
    (hI : ∀ s l s', I s → Ok s l → step s l = some s' → I s') {ls : List L} :
    ∀ {s : S}, I s → (StatesMeet step P s ls ↔ StepsMeet step Ok s ls) := by
  induction ls with
  | nil => intro s hs; simp [StatesMeet, StepsMeet, hP s hs]
  | cons l ls ih =>
    intro s hs
    constructor
    · rintro ⟨-, hrest⟩ s' hs'
      have hl := hok s l s' hs hs' (hrest s' hs').head
      exact ⟨hl, (ih (hI s l s' hs hl hs')).1 (hrest s' hs')⟩
    · intro hsteps
      refine ⟨hP s hs, fun s' hs' => ?_⟩
      obtain ⟨hl, hrest⟩ := hsteps s' hs'
      exact (ih (hI s l s' hs hl hs')).2 hrest

/-- Conditions that come to the same under an invariant, which the steps under one of them keep. -/
theorem stepsMeet_iff_of_invariant {I : S → Prop} {Ok Ok' : S → L → Prop}
    (hiff : ∀ s l, I s → (Ok' s l ↔ Ok s l))
    (hI : ∀ s l s', I s → Ok s l → step s l = some s' → I s') {ls : List L} :
    ∀ {s : S}, I s → (StepsMeet step Ok' s ls ↔ StepsMeet step Ok s ls) := by
  induction ls with
  | nil => intro s _; exact Iff.rfl
  | cons l ls ih =>
    intro s hs
    refine forall₂_congr fun s' hs' => ?_
    rw [hiff s l hs]
    exact and_congr_right fun hok => ih (hI s l s' hs hok hs')

lemma stepsMeet_cons {Ok : S → L → Prop} {ls : List L} {s s' : S} {l : L} (hs' : step s l = some s')
    (hl : Ok s l) (h : StepsMeet step Ok s' ls) : StepsMeet step Ok s (l :: ls) := by
  intro t ht
  obtain rfl := Option.some.inj (hs'.symm.trans ht)
  exact ⟨hl, h⟩

lemma stepsMeet_append {Ok : S → L → Prop} {ls ls' : List L} {s : S} :
    StepsMeet step Ok s (ls ++ ls') ↔
      StepsMeet step Ok s ls ∧ ∀ t, run step s ls = some t → StepsMeet step Ok t ls' := by
  induction ls generalizing s with
  | nil => simp [StepsMeet, run]
  | cons l ls ih =>
    cases hl : step s l with
    | none => simp [StepsMeet, run, hl]
    | some s' => simp [StepsMeet, run, hl, ih, and_assoc]

/-- It is enough to look at each step by itself. -/
lemma stepsMeet_of_forall {Ok : S → L → Prop} {ls : List L} {s : S}
    (h : ∀ before l after, ls = before ++ l :: after → ∀ t, run step s before = some t → Ok t l) :
    StepsMeet step Ok s ls := by
  induction ls generalizing s with
  | nil => trivial
  | cons l ls ih =>
    intro s' hs'
    refine ⟨h [] l ls rfl s rfl, ih fun before l' after heq t ht => ?_⟩
    refine h (l :: before) l' after (by rw [heq, List.cons_append]) t ?_
    rw [run, hs']
    exact ht

end Run

end Racfs
