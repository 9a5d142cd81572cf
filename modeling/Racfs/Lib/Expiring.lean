/-
# Tables whose entries expire

A table keeps answers for keys, each with the time at which it expires.  It is not told when the
answers change.  What bounds their age is that an entry is made from an answer that has been seen
at some time and expires a bounded time after that (`Backed`): whatever is taken out of the
table or overwritten, an entry that has not expired was seen within the bound (`Backed.hit`).

An entry that may have expired is still young for someone who has found the table empty before
(`Backed.hit_of_le`).
-/
import Mathlib.Data.Int.Order.Basic
import Mathlib.Tactic.Common

namespace Racfs.Expiring

variable {K V : Type*}

/-- Every entry is an answer that was seen at most `bound` before the entry expires. -/
def Backed (seen : K → ℤ → V → Prop) (bound : ℤ) (table : K → Option (V × ℤ)) : Prop :=
  ∀ k v expires, table k = some (v, expires) → ∃ τ, seen k τ v ∧ expires ≤ τ + bound

variable {seen seen' : K → ℤ → V → Prop} {bound bound' : ℤ} {table table' : K → Option (V × ℤ)}

lemma Backed.mono (h : Backed seen bound table) (hseen : ∀ k τ v, seen k τ v → seen' k τ v)
    (hbound : bound ≤ bound') : Backed seen' bound' table := by
  intro k v expires hk
  obtain ⟨τ, hτ, hle⟩ := h k v expires hk
  exact ⟨τ, hseen k τ v hτ, by omega⟩

/-- Entries may be taken out. -/
lemma Backed.of_subset (h : Backed seen bound table)
    (hsub : ∀ k e, table' k = some e → table k = some e) : Backed seen bound table' :=
  fun k v expires hk => h k v expires (hsub k _ hk)

/-- An entry is made at the time `now` from an answer that was seen at most `delay` before. -/
lemma Backed.put (h : Backed seen bound table) {now ttl delay : ℤ} (hbound : ttl + delay ≤ bound)
    (hput : ∀ k v expires, table' k = some (v, expires) → table k = some (v, expires) ∨
      expires = now + ttl ∧ ∃ τ, seen k τ v ∧ now ≤ τ + delay) :
    Backed seen bound table' := by
  intro k v expires hk
  rcases hput k v expires hk with hk | ⟨rfl, τ, hτ, hle⟩
  · exact h k v expires hk
  · exact ⟨τ, hτ, by omega⟩

/-- An entry that has not expired was seen within the bound. -/
lemma Backed.hit (h : Backed seen bound table) {k : K} {v : V} {expires now : ℤ}
    (hk : table k = some (v, expires)) (hvalid : now < expires) :
    ∃ τ, seen k τ v ∧ now < τ + bound := by
  obtain ⟨τ, hτ, hle⟩ := h k v expires hk
  exact ⟨τ, hτ, by omega⟩

/-- An entry that was made at the time `since` or later was seen at most the delay before. -/
lemma Backed.hit_of_le {ttl delay : ℤ} (h : Backed seen (ttl + delay) table) {k : K} {v : V}
    {expires since : ℤ} (hk : table k = some (v, expires)) (hmade : since + ttl ≤ expires) :
    ∃ τ, seen k τ v ∧ since ≤ τ + delay := by
  obtain ⟨τ, hτ, hle⟩ := h k v expires hk
  exact ⟨τ, hτ, by omega⟩

end Racfs.Expiring
