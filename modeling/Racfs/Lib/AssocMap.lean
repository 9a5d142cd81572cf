/-
# Finite maps with keys up to an equivalence

A hash table whose keys are compared by a user-defined equality: two keys may be equal for
the table and still be different values (two spellings of one path, say).  We model such a
table by the list of its entries, no two of which have equal keys.  The order of the list
stands for the iteration order of the table, which no result here depends on.

The operations are those of a hash table: `get?`, `contains`, `insert` (which keeps the key
that is already stored and replaces the value), `erase`, `modify` and `retain`.
-/
import Mathlib.Data.List.Basic
import Mathlib.Tactic.Common

namespace Racfs

lemma prod_beq {A B : Type*} [BEq A] [BEq B] (p q : A × B) :
    (p == q) = (p.1 == q.1 && p.2 == q.2) := rfl

instance equivBEqProd {A B : Type*} [BEq A] [BEq B] [EquivBEq A] [EquivBEq B] :
    EquivBEq (A × B) where
  rfl := by simp
  symm := by
    intro p q h
    rw [prod_beq, Bool.and_eq_true] at *
    exact ⟨BEq.symm h.1, BEq.symm h.2⟩
  trans := by
    intro p q r h h'
    rw [prod_beq, Bool.and_eq_true] at *
    exact ⟨BEq.trans h.1 h'.1, BEq.trans h.2 h'.2⟩

instance partialEquivBEqNat : PartialEquivBEq ℕ := inferInstance

instance partialEquivBEqUInt64 : PartialEquivBEq UInt64 := inferInstance

variable {K V : Type*} [BEq K]

/-- A finite map: its entries, with pairwise different keys. -/
structure AssocMap (K V : Type*) [BEq K] where
  /-- The entries, in the iteration order of the table. -/
  entries : List (K × V)
  /-- No two entries have equal keys. -/
  distinct : entries.Pairwise fun a b => (a.1 == b.1) = false

namespace AssocMap

/-! ### Operations on the list of entries -/

/-- The value stored at the key `k`. -/
def lookup (k : K) : List (K × V) → Option V
  | [] => none
  | (a, v) :: l => if a == k then some v else lookup k l

/-- Replace the value at the key `k`, or add an entry when there is none. -/
def upsert (k : K) (v : V) : List (K × V) → List (K × V)
  | [] => [(k, v)]
  | (a, w) :: l => if a == k then (a, v) :: l else (a, w) :: upsert k v l

lemma lookup_eq_none_iff {k : K} {l : List (K × V)} :
    lookup k l = none ↔ ∀ e ∈ l, (e.1 == k) = false := by
  induction l with
  | nil => simp [lookup]
  | cons e l ih =>
    obtain ⟨a, v⟩ := e
    by_cases h : (a == k) = true
    · simp [lookup, h]
    · simp [lookup, h, ih]

lemma exists_of_lookup {k : K} {v : V} {l : List (K × V)} (h : lookup k l = some v) :
    ∃ a, (a, v) ∈ l ∧ (a == k) = true := by
  induction l with
  | nil => simp [lookup] at h
  | cons e l ih =>
    obtain ⟨a, w⟩ := e
    by_cases hak : (a == k) = true
    · simp only [lookup, hak, if_true, Option.some.injEq] at h
      exact ⟨a, by simp [h], hak⟩
    · simp only [lookup, hak, if_false, Bool.false_eq_true] at h
      obtain ⟨b, hb, hbk⟩ := ih h
      exact ⟨b, List.mem_cons_of_mem _ hb, hbk⟩

/-- The keys of the entries after an `upsert` are the old ones and, at most, the new one. -/
lemma key_of_mem_upsert {k : K} {v : V} {l : List (K × V)} {e : K × V}
    (h : e ∈ upsert k v l) : e = (k, v) ∨ ∃ w, (e.1, w) ∈ l := by
  induction l with
  | nil => exact Or.inl (by simpa [upsert] using h)
  | cons e' l ih =>
    obtain ⟨a, w⟩ := e'
    by_cases hak : (a == k) = true
    · simp only [upsert, hak, if_true, List.mem_cons] at h
      rcases h with rfl | h
      · exact Or.inr ⟨w, by simp⟩
      · exact Or.inr ⟨e.2, by simp [h]⟩
    · simp only [upsert, hak, if_false, Bool.false_eq_true, List.mem_cons] at h
      rcases h with rfl | h
      · exact Or.inr ⟨w, by simp⟩
      · rcases ih h with h | ⟨w', hw'⟩
        · exact Or.inl h
        · exact Or.inr ⟨w', by simp [hw']⟩

lemma lookup_upsert_of_ne [PartialEquivBEq K] {k k' : K} {v : V} {l : List (K × V)}
    (h : (k == k') = false) : lookup k' (upsert k v l) = lookup k' l := by
  induction l with
  | nil => simp [upsert, lookup, h]
  | cons e l ih =>
    obtain ⟨a, w⟩ := e
    by_cases hak : (a == k) = true
    · have hak' : (a == k') = false := by
        rw [← h]
        exact BEq.congr_left hak
      simp [upsert, lookup, hak, hak']
    · by_cases hak' : (a == k') = true <;> simp [upsert, lookup, hak, hak', ih]

lemma lookup_upsert_self [EquivBEq K] {k k' : K} {v : V} {l : List (K × V)}
    (h : (k == k') = true) : lookup k' (upsert k v l) = some v := by
  induction l with
  | nil => simp [upsert, lookup, h]
  | cons e l ih =>
    obtain ⟨a, w⟩ := e
    by_cases hak : (a == k) = true
    · simp [upsert, lookup, hak, BEq.trans hak h]
    · have hak' : (a == k') = false := by
        rw [← BEq.congr_right h]
        simpa using hak
      simp [upsert, lookup, hak, hak', ih]

lemma lookup_filter [PartialEquivBEq K] {p : K × V → Bool} {k : K} {l : List (K × V)}
    (hp : ∀ a v, (a == k) = true → p (a, v) = p (k, v))
    (hl : l.Pairwise fun a b => (a.1 == b.1) = false) :
    lookup k (l.filter p) = (lookup k l).filter fun v => p (k, v) := by
  induction l with
  | nil => rfl
  | cons e l ih =>
    obtain ⟨a, w⟩ := e
    rw [List.pairwise_cons] at hl
    have ih' := ih hl.2
    by_cases hak : (a == k) = true
    · -- keys are distinct: no later entry has this one
      have hnone : lookup k l = none := by
        rw [lookup_eq_none_iff]
        intro e' he'
        have := hl.1 e' he'
        rw [BEq.congr_left hak, BEq.comm] at this
        exact this
      have hpk := hp a w hak
      by_cases hpa : p (a, w) = true
      · rw [hpa] at hpk
        simp [hpa, lookup, hak, Option.filter_some, ← hpk]
      · rw [Bool.not_eq_true] at hpa
        rw [hpa] at hpk
        simp [hpa, lookup, hak, ih', hnone, Option.filter_some, ← hpk]
    · by_cases hpa : p (a, w) = true <;> simp [hpa, lookup, hak, ih']

/-! ### The operations of the table -/

/-- Lookups after the keys have been changed. -/
lemma lookup_map_key {f : K → K} {k k' : K} {l : List (K × V)}
    (h : ∀ e ∈ l, (f e.1 == k') = (e.1 == k)) :
    lookup k' (l.map fun e => (f e.1, e.2)) = lookup k l := by
  induction l with
  | nil => rfl
  | cons e l ih =>
    obtain ⟨a, v⟩ := e
    rw [List.map_cons, lookup, lookup, h (a, v) (by simp), ih fun e he => h e (by simp [he])]

/-- The empty table. -/
def empty : AssocMap K V := ⟨[], List.Pairwise.nil⟩

instance : EmptyCollection (AssocMap K V) := ⟨empty⟩

instance : Inhabited (AssocMap K V) := ⟨empty⟩

/-- The value stored at a key. -/
def get? (m : AssocMap K V) (k : K) : Option V := lookup k m.entries

/-- Whether a key is stored. -/
def contains (m : AssocMap K V) (k : K) : Bool := (m.get? k).isSome

/-- The stored keys. -/
def keys (m : AssocMap K V) : List K := m.entries.map Prod.fst

/-- The number of entries. -/
def size (m : AssocMap K V) : ℕ := m.entries.length

lemma distinct_upsert [PartialEquivBEq K] {k : K} {v : V} {l : List (K × V)}
    (hl : l.Pairwise fun a b => (a.1 == b.1) = false) :
    (upsert k v l).Pairwise fun a b => (a.1 == b.1) = false := by
  induction l with
  | nil => simp [upsert]
  | cons e l ih =>
    obtain ⟨a, w⟩ := e
    rw [List.pairwise_cons] at hl
    by_cases hak : (a == k) = true
    · simp only [upsert, hak, if_true, List.pairwise_cons]
      exact hl
    · simp only [upsert, hak, if_false, Bool.false_eq_true, List.pairwise_cons]
      refine ⟨fun e he => ?_, ih hl.2⟩
      rcases key_of_mem_upsert he with rfl | ⟨w', hw'⟩
      · simpa using hak
      · exact hl.1 (e.1, w') hw'

/-- Insert a value: an equal key that is already stored is kept, its value replaced. -/
def insert [PartialEquivBEq K] (m : AssocMap K V) (k : K) (v : V) : AssocMap K V :=
  ⟨upsert k v m.entries, distinct_upsert m.distinct⟩

/-- Keep the entries that satisfy `p`. -/
def retain (m : AssocMap K V) (p : K → V → Bool) : AssocMap K V :=
  ⟨m.entries.filter fun e => p e.1 e.2, m.distinct.sublist List.filter_sublist⟩

/-- Remove a key. -/
def erase (m : AssocMap K V) (k : K) : AssocMap K V := m.retain fun a _ => !(a == k)

/-- Replace the value at a key, if there is one. -/
def modify (m : AssocMap K V) (k : K) (f : V → V) : AssocMap K V where
  entries := m.entries.map fun e => if e.1 == k then (e.1, f e.2) else e
  distinct := by
    refine List.Pairwise.map _ (fun a b h => ?_) m.distinct
    split <;> split <;> exact h

/-- Replace every value. -/
def mapValues (m : AssocMap K V) (f : V → V) : AssocMap K V where
  entries := m.entries.map fun e => (e.1, f e.2)
  distinct := List.Pairwise.map _ (fun _ _ h => h) m.distinct

/-- Replace every value by one that may depend on the key. -/
def mapWithKey {W : Type*} (m : AssocMap K V) (f : K → V → W) : AssocMap K W where
  entries := m.entries.map fun e => (e.1, f e.1 e.2)
  distinct := List.Pairwise.map _ (fun _ _ h => h) m.distinct

/-! ### Lookups after an operation -/

@[simp] lemma get?_empty (k : K) : (∅ : AssocMap K V).get? k = none := rfl

@[simp] lemma entries_empty : (∅ : AssocMap K V).entries = [] := rfl

lemma get?_insert [EquivBEq K] (m : AssocMap K V) (k k' : K) (v : V) :
    (m.insert k v).get? k' = if k == k' then some v else m.get? k' := by
  by_cases h : (k == k') = true
  · simp only [h, if_true]
    exact lookup_upsert_self h
  · rw [Bool.not_eq_true] at h
    simp only [h, if_false, Bool.false_eq_true]
    exact lookup_upsert_of_ne h

@[simp] lemma get?_insert_self [EquivBEq K] (m : AssocMap K V) (k : K) (v : V) :
    (m.insert k v).get? k = some v := by
  simp [get?_insert]

lemma get?_retain [PartialEquivBEq K] (m : AssocMap K V) {p : K → V → Bool} {k : K}
    (hp : ∀ a v, (a == k) = true → p a v = p k v) :
    (m.retain p).get? k = (m.get? k).filter (p k) :=
  lookup_filter (p := fun e => p e.1 e.2) hp m.distinct

/-- Keeping entries by their keys. -/
lemma get?_retain_key [PartialEquivBEq K] (m : AssocMap K V) {f : K → Bool} {k : K}
    (hf : ∀ a, (a == k) = true → f a = f k) :
    (m.retain fun a _ => f a).get? k = if f k then m.get? k else none := by
  rw [get?_retain m fun a _ ha => hf a ha]
  cases hm : m.get? k <;> cases f k <;> simp

lemma get?_erase [PartialEquivBEq K] (m : AssocMap K V) (k k' : K) :
    (m.erase k).get? k' = if k == k' then none else m.get? k' := by
  rw [erase, get?_retain m (fun a v h => by rw [BEq.congr_left h]), BEq.comm]
  by_cases h : (k == k') = true
  · simp [h]
  · cases hm : m.get? k' <;> simp [h]

/-- An entry that is taken out and put back, with its own key or an equal one. -/
lemma get?_insert_erase [EquivBEq K] (m : AssocMap K V) {k k' : K} (h : (k == k') = true) (v : V)
    (a : K) : ((m.erase k).insert k' v).get? a = if k' == a then some v else m.get? a := by
  rw [get?_insert, get?_erase, BEq.congr_left h]
  split_ifs <;> rfl

/-- What is left after an entry has been erased was there before. -/
lemma get?_of_get?_erase [PartialEquivBEq K] {m : AssocMap K V} {k k' : K} {v : V}
    (h : (m.erase k).get? k' = some v) : m.get? k' = some v := by
  rw [get?_erase] at h
  split_ifs at h
  exact h

@[simp] lemma get?_erase_self [EquivBEq K] (m : AssocMap K V) (k : K) :
    (m.erase k).get? k = none := by
  simp [get?_erase]

/-- Nothing is removed exactly if there is nothing to remove. -/
lemma erase_eq_self_iff [EquivBEq K] {m : AssocMap K V} {k : K} :
    m.erase k = m ↔ m.get? k = none := by
  constructor
  · intro h
    rw [← h, get?_erase_self]
  · intro h
    have hkeys := lookup_eq_none_iff.1 h
    obtain ⟨entries, distinct⟩ := m
    simp only [erase, retain, AssocMap.mk.injEq]
    exact List.filter_eq_self.2 fun e he => by simp [hkeys e he]

/-- Removing a list of keys one after the other. -/
lemma get?_foldl_erase [EquivBEq K] {A : Type*} (key : A → K) (l : List A) (m : AssocMap K V)
    (k : K) : (l.foldl (fun m a => m.erase (key a)) m).get? k =
      if l.any (fun a => key a == k) then none else m.get? k := by
  induction l generalizing m with
  | nil => simp
  | cons a l ih =>
    rw [List.foldl_cons, ih, List.any_cons, get?_erase]
    by_cases hl : l.any (fun a => key a == k) = true
    · simp [hl]
    · by_cases ha : (key a == k) = true <;> simp [hl, ha]

lemma get?_modify [PartialEquivBEq K] (m : AssocMap K V) (k k' : K) (f : V → V) :
    (m.modify k f).get? k' = if k == k' then (m.get? k').map f else m.get? k' := by
  obtain ⟨l, hl⟩ := m
  simp only [get?, modify]
  clear hl
  induction l with
  | nil => simp [lookup]
  | cons e l ih =>
    obtain ⟨a, w⟩ := e
    by_cases hak' : (a == k') = true
    · have hkk : (a == k) = (k == k') := by rw [BEq.congr_left hak', BEq.comm]
      by_cases hak : (a == k) = true
      · simp [lookup, hak, hak', ← hkk]
      · simp [lookup, hak, hak', ← hkk]
    · rw [List.map_cons, lookup, lookup]
      by_cases hak : (a == k) = true <;> simp [hak, hak', ih]

lemma get?_mapValues (m : AssocMap K V) (f : V → V) (k : K) :
    (m.mapValues f).get? k = (m.get? k).map f := by
  obtain ⟨l, hl⟩ := m
  simp only [get?, mapValues]
  clear hl
  induction l with
  | nil => rfl
  | cons e l ih =>
    obtain ⟨a, w⟩ := e
    by_cases hak : (a == k) = true <;> simp [lookup, hak, ih]

lemma get?_mapWithKey_cases {W : Type*} (m : AssocMap K V) (f : K → V → W) (k : K) :
    (m.get? k = none ∧ (m.mapWithKey f).get? k = none) ∨
      ∃ a v, (a == k) = true ∧ m.get? k = some v ∧ (m.mapWithKey f).get? k = some (f a v) := by
  obtain ⟨l, hl⟩ := m
  simp only [get?, mapWithKey]
  clear hl
  induction l with
  | nil => exact Or.inl ⟨rfl, rfl⟩
  | cons e l ih =>
    obtain ⟨a, v⟩ := e
    by_cases hak : (a == k) = true
    · exact Or.inr ⟨a, v, hak, by simp [lookup, hak], by simp [lookup, hak]⟩
    · simpa [lookup, hak] using ih

/-! ### Lookups and entries -/

lemma mem_of_get? {m : AssocMap K V} {k : K} {v : V} (h : m.get? k = some v) :
    ∃ a, (a, v) ∈ m.entries ∧ (a == k) = true :=
  exists_of_lookup h

lemma get?_of_mem [EquivBEq K] {m : AssocMap K V} {k : K} {v : V} (h : (k, v) ∈ m.entries) :
    m.get? k = some v := by
  obtain ⟨l, hl⟩ := m
  simp only [get?] at *
  induction l with
  | nil => simp at h
  | cons e l ih =>
    obtain ⟨a, w⟩ := e
    rw [List.pairwise_cons] at hl
    rcases List.mem_cons.1 h with heq | hmem
    · obtain ⟨rfl, rfl⟩ := Prod.mk.injEq .. ▸ heq
      simp [lookup]
    · have hak : (a == k) = false := hl.1 _ hmem
      simp only [lookup, hak, if_false, Bool.false_eq_true]
      exact ih hl.2 hmem

lemma get?_congr [PartialEquivBEq K] (m : AssocMap K V) {k k' : K} (h : (k == k') = true) :
    m.get? k = m.get? k' := by
  obtain ⟨l, hl⟩ := m
  simp only [get?]
  clear hl
  induction l with
  | nil => rfl
  | cons e l ih => simp only [lookup, ih, BEq.congr_right h]

/-- A test of the stored keys that equal keys pass alike. -/
lemma any_keys_filter [EquivBEq K] (m : AssocMap K V) {f : K → Bool} {k : K}
    (hf : ∀ a, (a == k) = true → f a = f k) :
    (m.keys.filter f).any (fun a => a == k) = (m.contains k && f k) := by
  rw [Bool.eq_iff_iff, List.any_eq_true, Bool.and_eq_true]
  constructor
  · rintro ⟨a, ha, hak⟩
    obtain ⟨hmem, hfa⟩ := List.mem_filter.1 ha
    obtain ⟨⟨a, v⟩, he, rfl⟩ := List.mem_map.1 hmem
    exact ⟨by rw [contains, ← get?_congr m hak, get?_of_mem he]; rfl, hf a hak ▸ hfa⟩
  · rintro ⟨hcontains, hfk⟩
    obtain ⟨v, hv⟩ := Option.isSome_iff_exists.1 hcontains
    obtain ⟨a, ha, hak⟩ := mem_of_get? hv
    exact ⟨a, List.mem_filter.2 ⟨List.mem_map_of_mem (f := Prod.fst) ha, hf a hak ▸ hfk⟩, hak⟩

/-- An entry for a new key leaves the others as they are. -/
lemma get?_insert_of_new [EquivBEq K] {m : AssocMap K V} {k k' : K} {v w : V}
    (hnew : m.get? k = none) (h : m.get? k' = some w) : (m.insert k v).get? k' = some w := by
  rw [get?_insert, if_neg, h]
  intro hbeq
  rw [← get?_congr m hbeq, hnew] at h
  cases h

/-- What is left was there before. -/
lemma get?_of_get?_retain [EquivBEq K] {m : AssocMap K V} {p : K → V → Bool} {k : K} {v : V}
    (h : (m.retain p).get? k = some v) : m.get? k = some v := by
  obtain ⟨a, ha, hak⟩ := mem_of_get? h
  rw [← get?_congr m hak]
  exact get?_of_mem (List.mem_of_mem_filter ha)

lemma contains_iff {m : AssocMap K V} {k : K} :
    m.contains k = true ↔ ∃ v, m.get? k = some v := by
  rw [contains, Option.isSome_iff_exists]

lemma contains_eq_false_iff {m : AssocMap K V} {k : K} :
    m.contains k = false ↔ m.get? k = none := by
  rw [contains, Option.isSome_eq_false_iff, Option.isNone_iff_eq_none]

/-! ### The stored keys -/

lemma mem_keys [LawfulBEq K] {m : AssocMap K V} {k : K} : k ∈ m.keys ↔ ∃ v, m.get? k = some v := by
  constructor
  · intro h
    obtain ⟨⟨a, v⟩, he, rfl⟩ := List.mem_map.1 h
    exact ⟨v, get?_of_mem he⟩
  · rintro ⟨v, hv⟩
    obtain ⟨a, ha, hak⟩ := mem_of_get? hv
    obtain rfl := eq_of_beq hak
    exact List.mem_map_of_mem (f := Prod.fst) ha

lemma nodup_keys [LawfulBEq K] (m : AssocMap K V) : m.keys.Nodup := by
  rw [keys, List.Nodup, List.pairwise_map]
  exact m.distinct.imp fun h heq => by simp [heq] at h

lemma forall_keys_insert [PartialEquivBEq K] {m : AssocMap K V} {P : K → Prop}
    (h : ∀ a ∈ m.keys, P a) {k : K} (hk : P k) (v : V) : ∀ a ∈ (m.insert k v).keys, P a := by
  intro a ha
  obtain ⟨e, he, rfl⟩ := List.mem_map.1 ha
  rcases key_of_mem_upsert he with rfl | ⟨w, hw⟩
  · exact hk
  · exact h e.1 (List.mem_map.2 ⟨(e.1, w), hw, rfl⟩)

lemma forall_keys_retain {m : AssocMap K V} {P : K → Prop} (h : ∀ a ∈ m.keys, P a)
    (p : K → V → Bool) : ∀ a ∈ (m.retain p).keys, P a := by
  intro a ha
  obtain ⟨e, he, rfl⟩ := List.mem_map.1 ha
  exact h e.1 (List.mem_map_of_mem (f := Prod.fst) (List.mem_of_mem_filter he))

lemma forall_keys_foldl_erase {A : Type*} (key : A → K) (l : List A) {P : K → Prop} :
    ∀ {m : AssocMap K V}, (∀ a ∈ m.keys, P a) →
      ∀ a ∈ (l.foldl (fun m a => m.erase (key a)) m).keys, P a := by
  induction l with
  | nil => exact fun h => h
  | cons a l ih => exact fun h => ih (forall_keys_retain h _)

@[simp] lemma keys_modify (m : AssocMap K V) (k : K) (f : V → V) :
    (m.modify k f).keys = m.keys := by
  rw [keys, keys, modify, List.map_map]
  refine List.map_congr_left fun e _ => ?_
  simp only [Function.comp_apply]
  split <;> rfl

/-! ### Taking an entry out and putting it back -/

lemma upsert_of_lookup_eq_none {k : K} {v : V} {l : List (K × V)} (h : lookup k l = none) :
    upsert k v l = l ++ [(k, v)] := by
  induction l with
  | nil => rfl
  | cons e l ih =>
    obtain ⟨a, w⟩ := e
    by_cases hak : (a == k) = true
    · simp [lookup, hak] at h
    · simp only [lookup, hak, if_false, Bool.false_eq_true] at h
      simp [upsert, hak, ih h]

/-- The entry of a key is the only one with that key. -/
lemma filter_beq_of_mem [PartialEquivBEq K] {k a : K} {v : V} {l : List (K × V)}
    (hl : l.Pairwise fun a b => (a.1 == b.1) = false) (h : (a, v) ∈ l) (hak : (a == k) = true) :
    l.filter (fun e => e.1 == k) = [(a, v)] := by
  induction l with
  | nil => cases h
  | cons e l ih =>
    rw [List.pairwise_cons] at hl
    rcases List.mem_cons.1 h with rfl | hmem
    · have hrest : l.filter (fun e => e.1 == k) = [] := by
        rw [List.filter_eq_nil_iff]
        intro e he hek
        have := hl.1 e he
        rw [BEq.trans hak (BEq.symm hek)] at this
        cases this
      simp [hak, hrest]
    · have hek : (e.1 == k) = false := by
        by_contra hek
        have := hl.1 _ hmem
        rw [BEq.trans ((Bool.not_eq_false _).mp hek) (BEq.symm hak)] at this
        cases this
      rw [List.filter_cons_of_neg (by simp [hek]), ih hl.2 hmem]

lemma perm_erase [PartialEquivBEq K] {m : AssocMap K V} {k a : K} {v : V}
    (h : (a, v) ∈ m.entries) (hak : (a == k) = true) :
    m.entries.Perm ((m.erase k).entries ++ [(a, v)]) := by
  rw [← filter_beq_of_mem m.distinct h hak]
  refine ((List.filter_append_perm (fun e => e.1 == k) m.entries).symm).trans ?_
  exact List.perm_append_comm

lemma not_mem_erase {m : AssocMap K V} {k a : K} {v : V} (hak : (a == k) = true) :
    (a, v) ∉ (m.erase k).entries := by
  simp [erase, retain, hak]

/-- Putting an entry back restores the table exactly when the key is spelled as it was. -/
lemma perm_insert_erase_iff [EquivBEq K] {m : AssocMap K V} {k a : K} {v : V}
    (h : (a, v) ∈ m.entries) (hak : (a == k) = true) :
    m.entries.Perm ((m.erase k).insert k v).entries ↔ a = k := by
  have hins : ((m.erase k).insert k v).entries = (m.erase k).entries ++ [(k, v)] :=
    upsert_of_lookup_eq_none (get?_erase_self m k)
  rw [hins]
  constructor
  · intro hperm
    have hmem : (a, v) ∈ (m.erase k).entries ++ [(k, v)] := hperm.mem_iff.1 h
    rw [List.mem_append, List.mem_singleton] at hmem
    rcases hmem with hmem | heq
    · exact absurd hmem (not_mem_erase hak)
    · exact (Prod.mk.inj heq).1
  · rintro rfl
    exact perm_erase h hak

/-! ### The number of entries -/

lemma length_upsert (k : K) (v : V) (l : List (K × V)) :
    (upsert k v l).length = if (lookup k l).isSome then l.length else l.length + 1 := by
  induction l with
  | nil => simp [upsert, lookup]
  | cons e l ih =>
    obtain ⟨a, w⟩ := e
    by_cases hak : (a == k) = true
    · simp [upsert, lookup, hak]
    · by_cases hk : (lookup k l).isSome = true <;> simp [upsert, lookup, hak, ih, hk]

lemma size_insert [PartialEquivBEq K] (m : AssocMap K V) (k : K) (v : V) :
    (m.insert k v).size = if m.contains k then m.size else m.size + 1 :=
  length_upsert k v m.entries

lemma size_retain_le (m : AssocMap K V) (p : K → V → Bool) : (m.retain p).size ≤ m.size :=
  List.length_filter_le _ _

lemma size_erase_le (m : AssocMap K V) (k : K) : (m.erase k).size ≤ m.size :=
  size_retain_le m _

lemma size_foldl_erase_le {A : Type*} (key : A → K) (l : List A) (m : AssocMap K V) :
    (l.foldl (fun m a => m.erase (key a)) m).size ≤ m.size := by
  induction l generalizing m with
  | nil => exact Nat.le_refl _
  | cons a l ih => exact Nat.le_trans (ih _) (size_erase_le m (key a))

@[simp] lemma size_modify (m : AssocMap K V) (k : K) (f : V → V) :
    (m.modify k f).size = m.size := by
  simp [modify, size]

end AssocMap
end Racfs
