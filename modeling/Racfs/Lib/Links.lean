/-
# Chains of links

A place has nothing, something that is not a link, or a link to another place.  Following the
links from a place ends where there is no link, after at most a given number of steps (`follow`);
it does not end where there is nothing, or in a cycle.

The rules say what a change of the places does to a chain: more places do not change where a
chain ends (`follow_extend`), and a chain that starts at `t` is never helped by new links to `t`
(`follow_of_newLinks`).

Where every place has something the chains are iterations of a partial function (`after`).  A
chain ends exactly if it never comes back to a place (`ends_iff_noReturn`), and then after fewer
steps than there are links and one.  All chains still end after a link has been added exactly if
its target does not reach its place (`forall_ends_add_iff`).  Places are compared by a Boolean
equality, and equal places have the same link.
-/
import Mathlib.Data.Fintype.Pigeonhole

namespace Racfs.Links

variable {A : Type*}

/-- Where the links from a place lead, in at most `fuel` steps.  The function has `none` where
there is nothing, `some none` where there is no link, and else the link. -/
def follow (link : A → Option (Option A)) : ℕ → A → Option A
  | 0, _ => none
  | fuel + 1, a =>
    match link a with
    | none => none
    | some none => some a
    | some (some b) => follow link fuel b

variable {link link' : A → Option (Option A)} {n : ℕ} {a b z : A}

lemma follow_of_end (h : link a = some none) : follow link (n + 1) a = some a := by
  simp [follow, h]

lemma follow_of_link (h : link a = some (some b)) :
    follow link (n + 1) a = follow link n b := by
  simp [follow, h]

/-- A first step of a chain. -/
lemma follow_succ (h : follow link (n + 1) a = some z) :
    (link a = some none ∧ a = z) ∨ ∃ b, link a = some (some b) ∧ follow link n b = some z := by
  simp only [follow] at h
  split at h
  · cases h
  · next hend => exact Or.inl ⟨hend, Option.some.inj h⟩
  · next b hlink => exact Or.inr ⟨b, hlink, h⟩

/-- More steps do no harm. -/
lemma follow_succ_of_follow (h : follow link n a = some z) : follow link (n + 1) a = some z := by
  induction n generalizing a with
  | zero => cases h
  | succ n ih =>
    rcases follow_succ h with ⟨hend, rfl⟩ | ⟨b, hlink, hb⟩
    · exact follow_of_end hend
    · rw [follow_of_link hlink]
      exact ih hb

lemma follow_mono {m : ℕ} (hle : m ≤ n) (h : follow link m a = some z) :
    follow link n a = some z := by
  induction hle with
  | refl => exact h
  | step _ ih => exact follow_succ_of_follow ih

/-- There are more places, or the same. -/
lemma follow_extend (hext : ∀ a x, link a = some x → link' a = some x)
    (h : follow link n a = some z) : follow link' n a = some z := by
  induction n generalizing a with
  | zero => cases h
  | succ n ih =>
    rcases follow_succ h with ⟨hend, rfl⟩ | ⟨b, hlink, hb⟩
    · exact follow_of_end (hext a none hend)
    · rw [follow_of_link (hext a (some b) hlink)]
      exact ih hb

/-- Some places have got a link to `b`: a chain avoids these, or comes to `b` with fewer steps
left. -/
lemma follow_or_of_newLinks (hnew : ∀ a, link' a = some (some b) ∨ link' a = link a)
    (h : follow link' n a = some z) :
    follow link n a = some z ∨ ∃ m, m < n ∧ follow link' m b = some z := by
  induction n generalizing a with
  | zero => cases h
  | succ n ih =>
    rcases hnew a with ha | ha
    · rw [follow_of_link ha] at h
      exact Or.inr ⟨n, Nat.lt_succ_self n, h⟩
    · rcases follow_succ h with ⟨hend, rfl⟩ | ⟨c, hlink, hc⟩
      · exact Or.inl (follow_of_end (ha.symm.trans hend))
      · rcases ih hc with hold | ⟨m, hm, hrest⟩
        · rw [follow_of_link (ha.symm.trans hlink)]
          exact Or.inl hold
        · exact Or.inr ⟨m, Nat.lt_succ_of_lt hm, hrest⟩

/-- A chain from `b` cannot use a link to `b`, for it would come back with fewer steps left. -/
lemma follow_of_newLinks (hnew : ∀ a, link' a = some (some b) ∨ link' a = link a)
    (h : follow link' n b = some z) : follow link n b = some z := by
  induction n using Nat.strongRecOn with
  | ind n ih =>
    rcases follow_or_of_newLinks hnew h with hold | ⟨m, hm, hrest⟩
    · exact hold
    · exact follow_mono (Nat.le_of_lt hm) (ih m hm hrest)

/-! ### Chains that end -/

section Ends

/-- The place after exactly `n` links. -/
def after (link : A → Option A) : ℕ → A → Option A
  | 0, a => some a
  | n + 1, a => (link a).bind (after link n)

/-- The chain from `a` ends. -/
def Ends (link : A → Option A) (a : A) : Prop := ∃ n, after link n a = none

variable {link link' : A → Option A} {n : ℕ} {a b t : A}

lemma after_succ_of_link (h : link a = some b) : after link (n + 1) a = after link n b := by
  rw [after, h, Option.bind_some]

lemma after_succ_of_none (h : link a = none) : after link (n + 1) a = none := by
  rw [after, h, Option.bind_none]

lemma after_add (m n : ℕ) (a : A) :
    after link (m + n) a = (after link m a).bind (after link n) := by
  induction m generalizing a with
  | zero =>
    rw [Nat.zero_add]
    rfl
  | succ m ih =>
    rw [Nat.succ_add, after, after]
    cases link a with
    | none => rfl
    | some b => exact ih b

lemma after_eq_none_of_le {m : ℕ} (h : after link m a = none) (hle : m ≤ n) :
    after link n a = none := by
  obtain ⟨k, rfl⟩ := Nat.exists_eq_add_of_le hle
  rw [after_add, h, Option.bind_none]

lemma ends_of_none (h : link a = none) : Ends link a := ⟨1, after_succ_of_none h⟩

lemma ends_iff_of_link (h : link a = some b) : Ends link a ↔ Ends link b := by
  constructor
  · rintro ⟨n, hn⟩
    refine ⟨n, ?_⟩
    rw [← after_succ_of_link h]
    exact after_eq_none_of_le hn (Nat.le_succ n)
  · rintro ⟨n, hn⟩
    exact ⟨n + 1, (after_succ_of_link h).trans hn⟩

/-- Fewer links make no chain longer. -/
lemma Ends.of_sub (hsub : ∀ a, link' a = none ∨ link' a = link a) (h : Ends link a) :
    Ends link' a := by
  obtain ⟨n, hn⟩ := h
  induction n generalizing a with
  | zero => cases hn
  | succ n ih =>
    rcases hsub a with hnone | hsame
    · exact ends_of_none hnone
    · cases hlink : link a with
      | none => exact ends_of_none (hsame.trans hlink)
      | some b =>
        rw [after_succ_of_link hlink] at hn
        exact (ends_iff_of_link (hsame.trans hlink)).2 (ih hn)

/-! ### Cycles -/

variable [BEq A]

/-- The chain from `a` comes to `b`. -/
def LeadsTo (link : A → Option A) (a b : A) : Prop :=
  ∃ n p, after link n a = some p ∧ (p == b) = true

/-- The chain from `a` never comes back to a place. -/
def NoReturn (link : A → Option A) (a : A) : Prop :=
  ∀ i j p q, i < j → after link i a = some p → after link j a = some q → (p == q) = false

lemma leadsTo_iff_of_link (h : link a = some b) (hne : (a == t) = false) :
    LeadsTo link a t ↔ LeadsTo link b t := by
  constructor
  · rintro ⟨n, p, hp, hpt⟩
    cases n with
    | zero =>
      obtain rfl : a = p := Option.some.inj hp
      rw [hpt] at hne
      cases hne
    | succ n => exact ⟨n, p, (after_succ_of_link h).symm.trans hp, hpt⟩
  · rintro ⟨n, p, hp, hpt⟩
    exact ⟨n + 1, p, (after_succ_of_link h).trans hp, hpt⟩

lemma not_leadsTo_of_none (h : link a = none) (hne : (a == t) = false) : ¬ LeadsTo link a t := by
  rintro ⟨n, p, hp, hpt⟩
  cases n with
  | zero =>
    obtain rfl : a = p := Option.some.inj hp
    rw [hpt] at hne
    cases hne
  | succ n =>
    rw [after_succ_of_none h] at hp
    cases hp

/-- With more links a chain comes at least as far. -/
lemma LeadsTo.of_sub (hsub : ∀ a, link' a = none ∨ link' a = link a) (h : LeadsTo link' a b) :
    LeadsTo link a b := by
  obtain ⟨n, p, hp, hpb⟩ := h
  refine ⟨n, p, ?_, hpb⟩
  induction n generalizing a with
  | zero => exact hp
  | succ n ih =>
    rcases hsub a with hnone | hsame
    · rw [after_succ_of_none hnone] at hp
      cases hp
    · cases hlink : link a with
      | none =>
        rw [after_succ_of_none (hsame.trans hlink)] at hp
        cases hp
      | some c =>
        rw [after_succ_of_link (hsame.trans hlink)] at hp
        rw [after_succ_of_link hlink]
        exact ih hp

lemma leadsTo_self (h : (a == t) = true) : LeadsTo link a t := ⟨0, a, rfl, h⟩

section Returns

variable (hcongr : ∀ a b, (a == b) = true → link a = link b)
include hcongr

/-- A chain that ends does not come back, for it would go round for ever. -/
lemma noReturn_of_ends (h : Ends link a) : NoReturn link a := by
  intro i j p q hij hp hq
  by_contra hne
  have hpq : link p = link q := hcongr p q (by simpa using hne)
  have hall : ∀ n, after link n a ≠ none := by
    intro n
    induction n using Nat.strongRecOn with
    | ind n ih =>
      intro hnone
      rcases Nat.lt_or_ge j n with hlt | hle
      · -- the same place has been passed before
        obtain ⟨d, rfl⟩ := Nat.exists_eq_add_of_lt hlt
        refine ih (i + (d + 1)) (by omega) ?_
        rw [Nat.add_assoc, after_add, hq, Option.bind_some, after, ← hpq] at hnone
        rw [after_add, hp, Option.bind_some, after, hnone]
      · rw [after_eq_none_of_le hnone hle] at hq
        cases hq
  obtain ⟨n, hn⟩ := h
  exact hall n hn

end Returns

/-- When only some places have links, a chain that does not come back is not longer. -/
lemma after_eq_none_of_noReturn [PartialEquivBEq A] (places : List A)
    (hplaces : ∀ a, link a ≠ none → ∃ k ∈ places, (k == a) = true) (h : NoReturn link a) :
    after link (places.length + 1) a = none := by
  by_contra hne
  have hsome : ∀ i : Fin (places.length + 1), ∃ p, after link i a = some p ∧ link p ≠ none := by
    intro i
    have hnext : after link (i + 1) a ≠ none :=
      fun hnone => hne (after_eq_none_of_le hnone (by omega))
    rw [after_add] at hnext
    cases hp : after link i a with
    | none => simp [hp] at hnext
    | some p =>
      refine ⟨p, rfl, fun hnone => hnext ?_⟩
      rw [hp, Option.bind_some, after_succ_of_none hnone]
  choose p hp hlink using hsome
  have hindex : ∀ i, ∃ k : Fin places.length, (places[k] == p i) = true := by
    intro i
    obtain ⟨k, hk, hkp⟩ := hplaces (p i) (hlink i)
    obtain ⟨m, hm, rfl⟩ := List.mem_iff_getElem.1 hk
    exact ⟨⟨m, hm⟩, hkp⟩
  choose k hk using hindex
  -- one step more than there are places
  obtain ⟨i, j, hij, heq⟩ := Fintype.exists_ne_map_eq_of_card_lt k (by simp)
  have hdiff : ∀ i j, i < j → k i ≠ k j := by
    intro i j hlt heq
    have hbeq : (p i == p j) = true := BEq.trans (BEq.symm (hk i)) (heq ▸ hk j)
    rw [h i j (p i) (p j) hlt (hp i) (hp j)] at hbeq
    cases hbeq
  rcases lt_or_gt_of_ne hij with hlt | hgt
  · exact hdiff i j hlt heq
  · exact hdiff j i hgt heq.symm

/-- A chain ends exactly if it never comes back to a place. -/
theorem ends_iff_noReturn [PartialEquivBEq A]
    (hcongr : ∀ a b, (a == b) = true → link a = link b) (places : List A)
    (hplaces : ∀ a, link a ≠ none → ∃ k ∈ places, (k == a) = true) :
    Ends link a ↔ NoReturn link a :=
  ⟨noReturn_of_ends hcongr, fun h => ⟨_, after_eq_none_of_noReturn places hplaces h⟩⟩

/-! ### A new link -/

section Add

variable (hnew : ∀ p, (p == a) = true → link' p = some t)
  (hold : ∀ p, (p == a) = false → link' p = link p)
include hnew hold

/-- A chain that ends, and that came to `a` without the new link, goes on to `t`. -/
lemma exists_lt_of_leadsTo {p : A} (hreach : LeadsTo link p a) (h : after link' n p = none) :
    ∃ m, m < n ∧ after link' m t = none := by
  induction n generalizing p with
  | zero => cases h
  | succ n ih =>
    cases hpa : p == a with
    | true =>
      rw [after_succ_of_link (hnew p hpa)] at h
      exact ⟨n, Nat.lt_succ_self n, h⟩
    | false =>
      cases hlink : link p with
      | none => exact absurd hreach (not_leadsTo_of_none hlink hpa)
      | some q =>
        rw [after_succ_of_link ((hold p hpa).trans hlink)] at h
        obtain ⟨m, hm, hrest⟩ := ih ((leadsTo_iff_of_link hlink hpa).1 hreach) h
        exact ⟨m, Nat.lt_succ_of_lt hm, hrest⟩

omit hnew in
/-- A chain that does not come to `a` is as it was. -/
lemma ends_of_not_leadsTo {p : A} (h : Ends link p) (hnot : ¬ LeadsTo link p a) :
    Ends link' p := by
  obtain ⟨n, hn⟩ := h
  induction n generalizing p with
  | zero => cases hn
  | succ n ih =>
    cases hpa : p == a with
    | true => exact absurd (leadsTo_self hpa) hnot
    | false =>
      cases hlink : link p with
      | none => exact ends_of_none ((hold p hpa).trans hlink)
      | some q =>
        rw [after_succ_of_link hlink] at hn
        rw [leadsTo_iff_of_link hlink hpa] at hnot
        exact (ends_iff_of_link ((hold p hpa).trans hlink)).2 (ih hnot hn)

/-- If the chain from `t` ends, every other one that ended still does. -/
lemma ends_of_target {p : A} (h : Ends link p) (ht : Ends link' t) : Ends link' p := by
  obtain ⟨n, hn⟩ := h
  induction n generalizing p with
  | zero => cases hn
  | succ n ih =>
    cases hpa : p == a with
    | true => exact (ends_iff_of_link (hnew p hpa)).2 ht
    | false =>
      cases hlink : link p with
      | none => exact ends_of_none ((hold p hpa).trans hlink)
      | some q =>
        rw [after_succ_of_link hlink] at hn
        exact (ends_iff_of_link ((hold p hpa).trans hlink)).2 (ih hn)

/-- A new link from `a` to `t` closes a cycle exactly if there is a chain from `t` to `a`. -/
theorem forall_ends_add_iff (hends : ∀ p, Ends link p) :
    (∀ p, Ends link' p) ↔ ¬ LeadsTo link t a := by
  constructor
  · intro h hleads
    -- the chain from `t` would come to `t` again, with fewer steps left
    have hnever : ∀ n, after link' n t ≠ none := by
      intro n
      induction n using Nat.strongRecOn with
      | ind n ih =>
        intro hnone
        obtain ⟨m, hm, hrest⟩ := exists_lt_of_leadsTo hnew hold hleads hnone
        exact ih m hm hrest
    obtain ⟨n, hn⟩ := h t
    exact hnever n hn
  · intro hnot p
    exact ends_of_target hnew hold (hends p) (ends_of_not_leadsTo hold (hends t) hnot)

omit hnew in
/-- A chain comes to a place without the new link, or it comes to the new link. -/
lemma leadsTo_or_leadsTo {p c : A} (h : LeadsTo link' p c) :
    LeadsTo link p c ∨ LeadsTo link p a := by
  obtain ⟨n, q, hq, hqc⟩ := h
  induction n generalizing p with
  | zero => exact Or.inl ⟨0, q, hq, hqc⟩
  | succ n ih =>
    cases hpa : p == a with
    | true => exact Or.inr (leadsTo_self hpa)
    | false =>
      cases hlink : link p with
      | none =>
        rw [after_succ_of_none ((hold p hpa).trans hlink)] at hq
        cases hq
      | some d =>
        rw [after_succ_of_link ((hold p hpa).trans hlink)] at hq
        rw [leadsTo_iff_of_link hlink hpa]
        refine (ih hq).imp (fun hd => ?_) id
        obtain ⟨m, q', hq', hqc'⟩ := hd
        exact ⟨m + 1, q', (after_succ_of_link hlink).trans hq', hqc'⟩

/-- When all chains end, a link has no part in the chain from its target. -/
lemma leadsTo_target_iff (hnone : ∀ p, (p == a) = true → link p = none)
    (hends : ∀ p, Ends link' p) {c : A} : LeadsTo link' t c ↔ LeadsTo link t c := by
  have hsub : ∀ p, link p = none ∨ link p = link' p := by
    intro p
    cases hpa : p == a with
    | true => exact Or.inl (hnone p hpa)
    | false => exact Or.inr (hold p hpa).symm
  have hnot := (forall_ends_add_iff hnew hold fun p => (hends p).of_sub hsub).1 hends
  exact ⟨fun h => (leadsTo_or_leadsTo hold h).resolve_right hnot, fun h => h.of_sub hsub⟩

end Add

end Ends

end Racfs.Links
