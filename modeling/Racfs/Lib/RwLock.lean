/-
# Reader-writer locks and circular waits

Participants hold guards of locks and wait for guards.  A reader is blocked while a writer
holds the lock, a writer while anyone holds it.  A circular wait is a set of participants each
of which waits for a lock that another one of the set holds; none of them can ever go on.

There are two rules.  Two participants that wait for each other are a circular wait
(`circularWait_of_two`).  There is none when the participants can be ranked so that a waiting
participant is ranked below those who wait for it (`not_circularWait_of_rank`); a fixed order in
which all locks are taken is such a ranking.
-/
import Mathlib.Data.Set.Insert
import Mathlib.Tactic.Common

namespace Racfs.RwLock

/-- How a lock is held. -/
inductive Mode
  | read
  | write
deriving DecidableEq

/-- Two guards of one lock exclude each other unless both only read. -/
def Mode.excludes : Mode → Mode → Bool
  | .read, .read => false
  | _, _ => true

/-- A lock, and how it is held. -/
structure Guard (K : Type*) where
  lock : K
  mode : Mode
deriving DecidableEq

variable {ι K : Type*} [DecidableEq K]

/-- Whether a guard that is held blocks one that is wanted. -/
def Guard.blocks (held wanted : Guard K) : Bool :=
  decide (held.lock = wanted.lock) && held.mode.excludes wanted.mode

variable (holds : ι → List (Guard K)) (wants : ι → Option (Guard K))

/-- `i` waits for a lock that `j` holds. -/
def WaitsFor (i j : ι) : Prop :=
  i ≠ j ∧ ∃ w, wants i = some w ∧ ∃ g ∈ holds j, g.blocks w = true

/-- A set of participants each of which waits for a lock that another one of them holds. -/
def CircularWait : Prop :=
  ∃ D : Set ι, D.Nonempty ∧ ∀ i ∈ D, ∃ j ∈ D, WaitsFor holds wants i j

variable {holds wants}

lemma circularWait_of_two {i j : ι} (hij : WaitsFor holds wants i j)
    (hji : WaitsFor holds wants j i) : CircularWait holds wants := by
  refine ⟨{i, j}, ⟨i, by simp⟩, fun k hk => ?_⟩
  rcases hk with rfl | hk
  · exact ⟨j, by simp, hij⟩
  · rw [Set.mem_singleton_iff] at hk
    exact ⟨i, by simp, hk ▸ hji⟩

/-- In a circular wait everyone who is waited for waits too, so the ranks would go down
forever. -/
theorem not_circularWait_of_rank (rank : ι → ℕ)
    (h : ∀ i j k, WaitsFor holds wants i j → WaitsFor holds wants j k → rank j < rank i) :
    ¬ CircularWait holds wants := by
  rintro ⟨D, ⟨i₀, hi₀⟩, hD⟩
  induction hn : rank i₀ using Nat.strong_induction_on generalizing i₀ with
  | _ n ih =>
    obtain ⟨j, hj, hij⟩ := hD i₀ hi₀
    obtain ⟨k, -, hjk⟩ := hD j hj
    exact ih (rank j) (hn ▸ h i₀ j k hij hjk) j hj rfl

end Racfs.RwLock
