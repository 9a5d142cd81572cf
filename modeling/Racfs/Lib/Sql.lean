/-
# Tables of a SQL database

What programs rely on of SQLite.  A table is a map from its primary key to its rows, in the
order of the row numbers: a new row comes last and a changed one stays where it is.  A
statement either takes effect or fails and leaves the table alone.  It fails when the primary
key of a new or changed row is in use, or when a row is too big; what is too big is up to the
database (`fits`).

A text is compared by its bytes, but `LIKE` and `SUBSTR` count characters.  In a pattern, `%`
stands for any text and `_` for any character, and `LIKE` does not tell the upper and lower case
of ASCII letters apart.  Texts with NUL characters are outside what SQLite documents.
-/
import Racfs.Lib.AssocMap
import Racfs.Lib.Bytes
import Mathlib.Data.List.Infix
import Mathlib.Data.List.Nodup

namespace Racfs

namespace Utf8

/-- The first `fuel` characters of a text. -/
def charsAux : ℕ → Bytes → List Bytes
  | 0, _ => []
  | _ + 1, [] => []
  | fuel + 1, b :: bs =>
    (b :: bs).take (chunk (b :: bs)).1 :: charsAux fuel ((b :: bs).drop (chunk (b :: bs)).1)

/-- The characters of a text. -/
def chars (bs : Bytes) : List Bytes := charsAux bs.length bs

lemma chars_of_ne_nil {bs : Bytes} (hne : bs ≠ []) :
    chars bs = bs.take (chunk bs).1 :: chars (bs.drop (chunk bs).1) :=
  chunkwise_of_ne_nil (F := charsAux) (g := fun bs cs => bs.take (chunk bs).1 :: cs)
    (fun fuel => by cases fuel <;> rfl) (fun _ _ _ => rfl) hne

lemma chars_cons {c : UInt8} (t : Bytes) (hc : c < 0x80) : chars (c :: t) = [c] :: chars t := by
  rw [chars_of_ne_nil (by simp), chunk_cons_of_lt t hc]
  rfl

/-- The characters before and after an ASCII byte. -/
lemma chars_append (a : Bytes) {c : UInt8} (t : Bytes) (hc : c < 0x80) :
    chars (a ++ c :: t) = chars a ++ [c] :: chars t := by
  induction a using chunk_induction with
  | hnil => exact chars_cons t hc
  | hcons a hne ih =>
    have hpos := chunk_pos hne
    rw [chars_of_ne_nil hne, @chars_of_ne_nil (a ++ c :: t) (by simp), chunk_append hne hc,
      List.take_append_of_le_length hpos.2, List.drop_append_of_le_length hpos.2, ih,
      List.cons_append]

lemma length_chars_le (bs : Bytes) : (chars bs).length ≤ bs.length := by
  induction bs using chunk_induction with
  | hnil => exact Nat.le_refl 0
  | hcons bs hne ih =>
    have hpos := chunk_pos hne
    rw [List.length_drop] at ih
    rw [chars_of_ne_nil hne, List.length_cons]
    omega

lemma flatten_chars (bs : Bytes) : (chars bs).flatten = bs := by
  induction bs using chunk_induction with
  | hnil => rfl
  | hcons bs hne ih => rw [chars_of_ne_nil hne, List.flatten_cons, ih, List.take_append_drop]

end Utf8

namespace Sql

open Utf8

/-! ### Texts -/

/-- The pattern `%`. -/
def percent : Bytes := [37]

/-- The pattern `_`. -/
def underscore : Bytes := [95]

/-- The lower case of an ASCII letter; any other character stays. -/
def foldCase : Bytes → Bytes
  | [b] => if 65 ≤ b && b ≤ 90 then [b + 32] else [b]
  | c => c

/-- Whether a pattern matches a text, both as characters. -/
def likeChars : List Bytes → List Bytes → Bool
  | [], text => text.isEmpty
  | c :: pattern, text =>
    if c = percent then text.tails.any (likeChars pattern)
    else
      match text with
      | [] => false
      | d :: rest => (c == underscore || foldCase c == foldCase d) && likeChars pattern rest

/-- `text LIKE pattern`. -/
def like (text pattern : Bytes) : Bool := likeChars (chars pattern) (chars text)

/-- `SUBSTR(text, n)` for a positive `n`: the text from its `n`-th character on. -/
def substr (text : Bytes) (n : ℕ) : Bytes := ((chars text).drop (n - 1)).flatten

lemma substr_append (a : Bytes) {c : UInt8} (hc : c < 0x80) (t : Bytes) :
    substr (a ++ c :: t) ((chars a).length + 1) = c :: t := by
  rw [substr, chars_append a t hc, Nat.add_sub_cancel, List.drop_left, List.flatten_cons,
    flatten_chars, List.singleton_append]

lemma likeChars_percent_cons (pattern text : List Bytes) :
    likeChars (percent :: pattern) text = text.tails.any (likeChars pattern) := by
  rw [likeChars.eq_def]
  exact if_pos rfl

lemma likeChars_percent (text : List Bytes) : likeChars [percent] text = true := by
  rw [likeChars_percent_cons, List.any_eq_true]
  exact ⟨[], (List.mem_tails _ _).2 List.nil_suffix, rfl⟩

/-- A pattern matches its own text, wildcards or not. -/
lemma likeChars_self (cs : List Bytes) : likeChars cs cs = true := by
  induction cs with
  | nil => rfl
  | cons c cs ih =>
    by_cases hc : c = percent
    · -- the wildcard takes the `%` of the text
      rw [hc, likeChars_percent_cons, List.any_eq_true]
      exact ⟨cs, (List.mem_tails _ _).2 (List.suffix_cons _ _), ih⟩
    · simp [likeChars, hc, ih]

/-- A longer text matches when what is left of the pattern can take the rest of it. -/
lemma likeChars_append (cs : List Bytes) {pattern pattern' text more : List Bytes}
    (hend : ∀ rest, likeChars pattern rest = true → likeChars pattern' (rest ++ more) = true)
    (h : likeChars (cs ++ pattern) text = true) :
    likeChars (cs ++ pattern') (text ++ more) = true := by
  induction cs generalizing text with
  | nil => exact hend text h
  | cons c cs ih =>
    rw [List.cons_append] at h ⊢
    by_cases hc : c = percent
    · rw [hc, likeChars_percent_cons, List.any_eq_true] at h ⊢
      obtain ⟨rest, hrest, hlike⟩ := h
      obtain ⟨front, rfl⟩ := (List.mem_tails _ _).1 hrest
      refine ⟨rest ++ more, (List.mem_tails _ _).2 ⟨front, ?_⟩, ih hlike⟩
      rw [List.append_assoc]
    · cases text with
      | nil => simp [likeChars, hc] at h
      | cons d rest =>
        simp only [likeChars, hc, if_false, Bool.and_eq_true] at h
        simp only [List.cons_append, likeChars, hc, if_false, Bool.and_eq_true]
        exact ⟨h.1, ih h.2⟩

/-- What is below a path that matches, matches the pattern for it. -/
lemma like_append_of_like_self {c : UInt8} (hc : c < 0x80) {a text : Bytes}
    (h : like text a = true) (t : Bytes) : like (text ++ c :: t) (a ++ c :: percent) = true := by
  rw [like, chars_append text t hc, chars_append a percent hc]
  rw [like, ← List.append_nil (chars a)] at h
  refine likeChars_append (chars a) (fun rest hrest => ?_) h
  obtain rfl : rest = [] := List.isEmpty_iff.1 hrest
  exact @likeChars_append [[c]] [] _ [[c]] _ (fun _ _ => likeChars_percent _) (likeChars_self [[c]])

/-- Everything below a path in text matches the pattern for it. -/
lemma like_of_prefix {c : UInt8} (hc : c < 0x80) (a t : Bytes) :
    like (a ++ c :: t) (a ++ c :: percent) = true :=
  like_append_of_like_self hc (likeChars_self (chars a)) t

/-- What is below something that matches the pattern for a path matches it too. -/
lemma like_append_of_like {c : UInt8} (hc : c < 0x80) {a text : Bytes}
    (h : like text (a ++ c :: percent) = true) {d : UInt8} (hd : d < 0x80) (t : Bytes) :
    like (text ++ d :: t) (a ++ c :: percent) = true := by
  have hpattern : chars (a ++ c :: percent) = (chars a ++ [[c]]) ++ [percent] := by
    rw [chars_append a percent hc, List.append_assoc]
    rfl
  rw [like, hpattern] at h ⊢
  rw [chars_append text t hd]
  exact likeChars_append _ (fun _ _ => likeChars_percent _) h

/-- No wildcards. -/
def Plain (a : Bytes) : Prop := ∀ c ∈ chars a, c ≠ percent ∧ c ≠ underscore

instance (a : Bytes) : Decidable (Plain a) := by
  unfold Plain
  infer_instance

lemma likeChars_plain_iff {cs : List Bytes} (h : ∀ c ∈ cs, c ≠ percent ∧ c ≠ underscore)
    (text : List Bytes) :
    likeChars (cs ++ [percent]) text = true ↔ cs.map foldCase <+: text.map foldCase := by
  induction cs generalizing text with
  | nil => exact iff_of_true (likeChars_percent text) List.nil_prefix
  | cons c cs ih =>
    obtain ⟨hpercent, hunderscore⟩ := h c List.mem_cons_self
    cases text with
    | nil => simp [likeChars, hpercent]
    | cons d rest =>
      simp only [List.cons_append, likeChars, hpercent, if_false, Bool.and_eq_true,
        Bool.or_eq_true, beq_iff_eq, hunderscore, false_or, List.map_cons,
        List.cons_prefix_cons]
      exact and_congr_right fun _ => ih (fun c hc => h c (List.mem_cons_of_mem _ hc)) rest

/-- Without wildcards the pattern for what is below a path only forgets the case of letters. -/
lemma like_below_iff {a : Bytes} (h : Plain a) (text : Bytes) :
    like text (a ++ slash :: percent) = true ↔
      (chars a ++ [[slash]]).map foldCase <+: (chars text).map foldCase := by
  have hpattern : chars (a ++ slash :: percent) = (chars a ++ [[slash]]) ++ [percent] := by
    rw [chars_append a percent (by decide), List.append_assoc]
    rfl
  rw [like, hpattern, likeChars_plain_iff]
  intro c hc
  rcases List.mem_append.1 hc with hc | hc
  · exact h c hc
  · rw [List.mem_singleton.1 hc]
    decide

lemma eq_slash_of_foldCase {d : Bytes} (h : foldCase d = [slash]) : d = [slash] := by
  match d, h with
  | [b], h =>
    rw [foldCase] at h
    split_ifs at h with hletter
    · -- a letter has no separator as its lower case
      rw [List.cons.injEq] at h
      rw [UInt8.eq_sub_iff_add_eq.2 h.1] at hletter
      exact absurd hletter (by decide)
    · exact h

/-- The separators of a pattern are in the text. -/
lemma count_slash_le_of_likeChars {pattern text : List Bytes}
    (h : likeChars pattern text = true) : pattern.count [slash] ≤ text.count [slash] := by
  induction pattern generalizing text with
  | nil => exact Nat.zero_le _
  | cons c pattern ih =>
    by_cases hc : c = percent
    · rw [hc, likeChars_percent_cons, List.any_eq_true] at h
      obtain ⟨rest, hrest, hlike⟩ := h
      rw [hc, List.count_cons_of_ne (by decide)]
      exact (ih hlike).trans (((List.mem_tails _ _).1 hrest).sublist.count_le _)
    · cases text with
      | nil => simp [likeChars, hc] at h
      | cons d rest =>
        simp only [likeChars, hc, if_false, Bool.and_eq_true, Bool.or_eq_true, beq_iff_eq] at h
        obtain ⟨hcd, hlike⟩ := h
        have hrest := ih hlike
        by_cases hslash : c = [slash]
        · subst hslash
          have hd : d = [slash] := by
            rcases hcd with hcd | hcd
            · exact absurd hcd (by decide)
            · exact eq_slash_of_foldCase hcd.symm
          rw [hd, List.count_cons_self, List.count_cons_self]
          omega
        · rw [List.count_cons_of_ne hslash]
          exact hrest.trans ((List.sublist_cons_self d rest).count_le _)

/-- What is below a path by the pattern has more separators. -/
lemma count_slash_lt_of_like {text a : Bytes}
    (h : like text (a ++ slash :: percent) = true) :
    (chars a).count [slash] < (chars text).count [slash] := by
  have hle := count_slash_le_of_likeChars h
  rw [chars_append a percent (by decide), List.count_append, List.count_cons_self] at hle
  omega

/-! ### Tables -/

/-- Why a statement fails. -/
inductive SqlError
  | unique
  | tooBig
deriving DecidableEq, Repr

/-- The message of an error that is about a column. -/
def SqlError.message (column : String) : SqlError → String
  | unique => "UNIQUE constraint failed: " ++ column
  | tooBig => "string or blob too big"

section Table

variable {K V : Type*} [BEq K] [LawfulBEq K] (fits : K → V → Bool)

/-- `INSERT`. -/
def insertRow (t : AssocMap K V) (k : K) (v : V) : Except SqlError (AssocMap K V) :=
  if fits k v = false then .error .tooBig
  else if t.contains k then .error .unique
  else .ok (t.insert k v)

/-- `UPDATE` of the row with a key. -/
def updateRow (t : AssocMap K V) (k : K) (f : V → V) : Except SqlError (AssocMap K V) :=
  if (t.get? k).any fun v => !fits k (f v) then .error .tooBig
  else .ok (t.modify k f)

lemma distinct_moved {l : List (K × V)} (hl : l.Pairwise fun a b => (a.1 == b.1) = false)
    (k : K) {k' : K} (hnew : AssocMap.lookup k' l = none) :
    (l.map fun e => if e.1 == k then (k', e.2) else e).Pairwise
      fun a b => (a.1 == b.1) = false := by
  rw [AssocMap.lookup_eq_none_iff] at hnew
  rw [List.pairwise_map]
  refine hl.imp_of_mem fun {a b} ha hb hab => ?_
  simp only [beq_eq_false_iff_ne, ne_eq] at hab hnew ⊢
  by_cases hak : a.1 = k <;> by_cases hbk : b.1 = k
  · exact absurd (hak.trans hbk.symm) hab
  · simpa [hak, hbk] using fun h => hnew b hb h.symm
  · simpa [hak, hbk] using hnew a ha
  · simpa [hak, hbk] using hab

lemma lookup_moved {l : List (K × V)} {k k' : K} (hne : k ≠ k')
    (hnew : AssocMap.lookup k' l = none) (a : K) :
    AssocMap.lookup a (l.map fun e => if e.1 == k then (k', e.2) else e) =
      if k' == a then AssocMap.lookup k l else if k == a then none else AssocMap.lookup a l := by
  induction l with
  | nil => simp [AssocMap.lookup]
  | cons e l ih =>
    obtain ⟨b, w⟩ := e
    have hb : b ≠ k' := by
      rintro rfl
      simp [AssocMap.lookup] at hnew
    have hrest : AssocMap.lookup k' l = none := by
      simpa [AssocMap.lookup, hb] using hnew
    rw [List.map_cons]
    by_cases hbk : b = k
    · subst hbk
      by_cases hka : k' = a
      · simp [AssocMap.lookup, hka]
      · by_cases hba : b = a <;> simp [AssocMap.lookup, ih hrest, hka, hba]
    · by_cases hka : k' = a
      · subst hka
        simp [AssocMap.lookup, ih hrest, hbk, hb]
      · by_cases hba : b = a
        · subst hba
          simp [AssocMap.lookup, hbk, hka, Ne.symm hbk]
        · simp [AssocMap.lookup, ih hrest, hbk, hka, hba]

/-- `UPDATE` of the primary key of one row. -/
def moveRow (t : AssocMap K V) (k k' : K) : Except SqlError (AssocMap K V) :=
  match t.get? k with
  | none => .ok t
  | some v =>
    if k == k' then .ok t
    else if fits k' v = false then .error .tooBig
    else if h : t.get? k' = none then .ok ⟨_, distinct_moved t.distinct k h⟩
    else .error .unique

/-- `UPDATE` of the primary keys of the rows with the given keys, one after the other. -/
def moveRows (t : AssocMap K V) (ks : List K) (f : K → K) : Except SqlError (AssocMap K V) :=
  ks.foldlM (fun t k => moveRow fits t k (f k)) t

variable {fits} {t : AssocMap K V} {k k' : K} {v : V}

/-- A row that is there after an insertion was there before or is the new one. -/
lemma get?_of_insertRow {t' : AssocMap K V} (h : insertRow fits t k v = .ok t') {a : K} {w : V}
    (hw : t'.get? a = some w) : t.get? a = some w ∨ w = v := by
  rw [insertRow] at h
  split_ifs at h
  obtain rfl := Except.ok.inj h
  rw [AssocMap.get?_insert] at hw
  split_ifs at hw
  · exact Or.inr (Option.some.inj hw).symm
  · exact Or.inl hw

omit [LawfulBEq K] in
/-- A row that is there after a change was there before, or is the changed one. -/
lemma get?_of_updateRow [PartialEquivBEq K] {t' : AssocMap K V} {f : V → V}
    (h : updateRow fits t k f = .ok t') {a : K} {w : V} (hw : t'.get? a = some w) :
    t.get? a = some w ∨ ∃ v, t.get? a = some v ∧ w = f v := by
  rw [updateRow] at h
  split_ifs at h
  obtain rfl := Except.ok.inj h
  rw [AssocMap.get?_modify] at hw
  split_ifs at hw
  · obtain ⟨v, hv, rfl⟩ := Option.map_eq_some_iff.1 hw
    exact Or.inr ⟨v, hv, rfl⟩
  · exact Or.inl hw

/-- Moving a row does not change the rows. -/
lemma get?_of_moveRow {t' : AssocMap K V} (h : moveRow fits t k k' = .ok t') {a : K} {w : V}
    (hw : t'.get? a = some w) : ∃ b, t.get? b = some w := by
  rw [moveRow] at h
  split at h
  · obtain rfl := Except.ok.inj h
    exact ⟨a, hw⟩
  · split_ifs at h with hk _ hnew
    · obtain rfl := Except.ok.inj h
      exact ⟨a, hw⟩
    · obtain rfl := Except.ok.inj h
      have hmoved := lookup_moved (fun heq => hk (beq_iff_eq.2 heq)) hnew a
      rw [AssocMap.get?] at hw
      rw [hw] at hmoved
      split_ifs at hmoved
      · exact ⟨k, hmoved.symm⟩
      · exact ⟨a, hmoved.symm⟩

lemma get?_of_moveRows {f : K → K} {ks : List K} : ∀ {t t' : AssocMap K V},
    moveRows fits t ks f = .ok t' → ∀ {a : K} {w : V}, t'.get? a = some w →
      ∃ b, t.get? b = some w := by
  induction ks with
  | nil =>
    intro t t' h a w hw
    obtain rfl := Except.ok.inj h
    exact ⟨a, hw⟩
  | cons k ks ih =>
    intro t t' h a w hw
    cases hfirst : moveRow fits t k (f k) with
    | error e =>
      rw [moveRows, List.foldlM_cons, hfirst] at h
      cases h
    | ok t₁ =>
      rw [moveRows, List.foldlM_cons, hfirst] at h
      obtain ⟨b, hb⟩ := ih h hw
      exact get?_of_moveRow hfirst hb

/-- The table after a row has been moved. -/
lemma get?_moveRow {t' : AssocMap K V} (h : moveRow fits t k k' = .ok t')
    (hold : t.get? k = some v) (hne : k ≠ k') :
    t.get? k' = none ∧
      ∀ a, t'.get? a = if k' == a then some v else if k == a then none else t.get? a := by
  rw [moveRow, hold] at h
  simp only [beq_iff_eq, hne, if_false] at h
  split_ifs at h with _ hnew
  obtain rfl := Except.ok.inj h
  refine ⟨hnew, fun a => ?_⟩
  rw [← hold]
  exact lookup_moved hne hnew a

lemma moveRow_of_not_fits (hold : t.get? k = some v) (hne : k ≠ k') (hfits : fits k' v = false) :
    moveRow fits t k k' = .error .tooBig := by
  rw [moveRow, hold]
  simp [hne, hfits]

/-- A moved row stays where it is in the order of the rows. -/
lemma entries_moveRow {t' : AssocMap K V} (h : moveRow fits t k k' = .ok t') :
    t'.entries = t.entries.map fun e => (if e.1 == k then k' else e.1, e.2) := by
  have hsame (hk : ∀ e ∈ t.entries, (e.1 == k) = true → k = k') :
      t.entries = t.entries.map fun e => (if e.1 == k then k' else e.1, e.2) := by
    refine (List.map_id' _).symm.trans (List.map_congr_left fun e he => ?_)
    split_ifs with hek
    · rw [← hk e he hek, ← beq_iff_eq.1 hek]
    · rfl
  rw [moveRow] at h
  split at h
  · next hnone =>
    obtain rfl := Except.ok.inj h
    refine hsame fun e he hek => ?_
    rw [← beq_iff_eq.1 hek, AssocMap.get?_of_mem he] at hnone
    cases hnone
  · split_ifs at h with hkk _ hnew
    · obtain rfl := Except.ok.inj h
      exact hsame fun _ _ _ => beq_iff_eq.1 hkk
    · obtain rfl := Except.ok.inj h
      refine List.map_congr_left fun e _ => ?_
      split_ifs <;> rfl

/-- The keys of rows that are moved are free or their own. -/
lemma eq_or_not_mem_of_moveRow {t' : AssocMap K V} (h : moveRow fits t k k' = .ok t')
    (hold : k ∈ t.keys) : k = k' ∨ k' ∉ t.keys := by
  obtain ⟨v, hv⟩ := AssocMap.mem_keys.1 hold
  by_cases hne : k = k'
  · exact Or.inl hne
  · have hfree := (get?_moveRow h hv hne).1
    refine Or.inr fun hmem => ?_
    obtain ⟨w, hw⟩ := AssocMap.mem_keys.1 hmem
    rw [hfree] at hw
    cases hw

/-- Rows that are moved one after the other stay in the order of the rows, and each has the key
that was computed for it. -/
lemma entries_moveRows {f : K → K} {ks : List K} : ∀ {t t' : AssocMap K V},
    moveRows fits t ks f = .ok t' → ks.Nodup → (∀ k ∈ ks, k ∈ t.keys) →
      t'.entries = t.entries.map fun e => (if e.1 ∈ ks then f e.1 else e.1, e.2) := by
  induction ks with
  | nil =>
    intro t t' h _ _
    obtain rfl := Except.ok.inj h
    simp
  | cons k ks ih =>
    intro t t' h hnodup hold
    obtain ⟨hk, hks⟩ := List.nodup_cons.1 hnodup
    cases hfirst : moveRow fits t k (f k) with
    | error e =>
      rw [moveRows, List.foldlM_cons, hfirst] at h
      cases h
    | ok t₁ =>
      rw [moveRows, List.foldlM_cons, hfirst] at h
      have hentries := entries_moveRow hfirst
      -- the new key is not that of a row that is still to be moved
      have hfk : f k ∉ ks := by
        rcases eq_or_not_mem_of_moveRow hfirst (hold k List.mem_cons_self) with heq | hfree
        · rwa [← heq]
        · exact fun hmem => hfree (hold _ (List.mem_cons_of_mem _ hmem))
      have hstill : ∀ a ∈ ks, a ∈ t₁.keys := by
        intro a ha
        obtain ⟨e, he, rfl⟩ := List.mem_map.1 (hold a (List.mem_cons_of_mem _ ha))
        have hek : e.1 ≠ k := fun heq => hk (heq ▸ ha)
        rw [AssocMap.keys, hentries, List.map_map]
        exact List.mem_map.2 ⟨e, he, if_neg fun heq => hek (beq_iff_eq.1 heq)⟩
      rw [ih h hks hstill, hentries, List.map_map]
      refine List.map_congr_left fun e _ => ?_
      by_cases hek : e.1 = k
      · simp [hek, hfk]
      · simp [hek]

/-- Rows that are given new keys are given different ones. -/
lemma inj_of_entries_map {t' : AssocMap K V} {g : K → K}
    (h : t'.entries = t.entries.map fun e => (g e.1, e.2)) {a b : K} (ha : a ∈ t.keys)
    (hb : b ∈ t.keys) (hab : g a = g b) : a = b := by
  have hkeys : t'.keys = t.keys.map g := by
    rw [AssocMap.keys, h, AssocMap.keys, List.map_map, List.map_map]
    rfl
  exact List.inj_on_of_nodup_map (hkeys ▸ t'.nodup_keys) ha hb hab

omit [LawfulBEq K] in
/-- When the rows have got new keys, every statement about some way to get them is one about
these. -/
lemma exists_path_iff {t' : AssocMap K V} {g : K → K} {P : K → K → Prop}
    (h : t'.entries = t.entries.map fun e => (g e.1, e.2)) :
    (∃ path : K → K, t'.entries = t.entries.map (fun e => (path e.1, e.2)) ∧
      ∀ key ∈ t.keys, P key (path key)) ↔ ∀ key ∈ t.keys, P key (g key) := by
  constructor
  · rintro ⟨path, hpath, hkeys⟩ key hkey
    have hmoved := hkeys key hkey
    obtain ⟨e, he, rfl⟩ := List.mem_map.1 hkey
    have heq : path e.1 = g e.1 :=
      congrArg Prod.fst (List.map_inj_left.1 (hpath.symm.trans h) e he)
    rwa [heq] at hmoved
  · exact fun hkeys => ⟨g, h, hkeys⟩

/-- Rows that are moved, and one more row after them. -/
lemma entries_moveRows_moveRow {f : K → K} {ks : List K} {t₁ t₂ : AssocMap K V}
    (hchildren : moveRows fits t ks f = .ok t₁) (hself : moveRow fits t₁ k k' = .ok t₂)
    (hnodup : ks.Nodup) (hold : ∀ a ∈ ks, a ∈ t.keys) (hk : k ∈ t.keys) (hnot : k ∉ ks) :
    t₂.entries = t.entries.map fun e =>
      (if e.1 == k then k' else if e.1 ∈ ks then f e.1 else e.1, e.2) := by
  have hfirst := entries_moveRows hchildren hnodup hold
  rw [entries_moveRow hself, hfirst, List.map_map]
  refine List.map_congr_left fun e he => ?_
  by_cases heq : e.1 = k
  · simp only [Function.comp_apply, heq, if_neg hnot, BEq.rfl, if_true]
  · -- no other row has got this key in between
    have hne : (if e.1 ∈ ks then f e.1 else e.1) ≠ k := by
      intro hmoved
      refine heq (inj_of_entries_map (g := fun a => if a ∈ ks then f a else a) hfirst
        (List.mem_map_of_mem (f := Prod.fst) he) hk ?_)
      simp only [hmoved, if_neg hnot]
    simp only [Function.comp_apply, beq_iff_eq, hne, if_false, heq]

/-- The table after rows have been moved, none of them to the key of another: the new keys were
free, what was moved is at its new key, and nothing else has changed. -/
lemma get?_moveRows {f : K → K} {ks : List K} {t' : AssocMap K V}
    (h : moveRows fits t ks f = .ok t') (hnodup : ks.Nodup)
    (hold : ∀ k ∈ ks, t.contains k = true) (hfree : ∀ k ∈ ks, f k ∉ ks) :
    (∀ k ∈ ks, t.get? (f k) = none ∧ t'.get? (f k) = t.get? k) ∧
      ∀ a, (∀ k ∈ ks, f k ≠ a) → t'.get? a = if a ∈ ks then none else t.get? a := by
  have hmem (k : K) (hk : k ∈ ks) : k ∈ t.keys :=
    AssocMap.mem_keys.2 (AssocMap.contains_iff.1 (hold k hk))
  have hentries := entries_moveRows h hnodup hmem
  have hrow (k : K) (v : V) (hv : t.get? k = some v) :
      t'.get? (if k ∈ ks then f k else k) = some v := by
    obtain ⟨b, hb, hbk⟩ := AssocMap.mem_of_get? hv
    obtain rfl : b = k := beq_iff_eq.1 hbk
    refine AssocMap.get?_of_mem ?_
    rw [hentries]
    exact List.mem_map_of_mem (f := fun e => (if e.1 ∈ ks then f e.1 else e.1, e.2)) hb
  refine ⟨fun k hk => ⟨?_, ?_⟩, fun a ha => ?_⟩
  · -- a row at the new key would stay there
    cases hget : t.get? (f k) with
    | none => rfl
    | some w =>
      have heq : k = f k := by
        refine inj_of_entries_map (g := fun a => if a ∈ ks then f a else a) hentries (hmem k hk)
          (AssocMap.mem_keys.2 ⟨w, hget⟩) ?_
        simp only [if_pos hk, if_neg (hfree k hk)]
      exact absurd (heq ▸ hk) (hfree k hk)
  · obtain ⟨v, hv⟩ := AssocMap.contains_iff.1 (hold k hk)
    have hmoved := hrow k v hv
    rwa [if_pos hk, ← hv] at hmoved
  · cases hget : t'.get? a with
    | some w =>
      obtain ⟨b, hb, hba⟩ := AssocMap.mem_of_get? hget
      obtain rfl : b = a := beq_iff_eq.1 hba
      rw [hentries] at hb
      obtain ⟨e, he, heq⟩ := List.mem_map.1 hb
      obtain ⟨hkey, hval⟩ := Prod.mk.inj heq
      split_ifs at hkey with hks
      · exact absurd hkey (ha e.1 hks)
      · rw [← hkey, if_neg hks, AssocMap.get?_of_mem he, hval]
    | none =>
      split_ifs with hks
      · rfl
      · cases hv : t.get? a with
        | none => rfl
        | some v =>
          have hstays := hrow a v hv
          rw [if_neg hks, hget] at hstays
          cases hstays

/-- Without a limit, a new row only needs a new key. -/
lemma insertRow_of_fits (hfits : fits k v = true) :
    insertRow fits t k v = if t.contains k then .error .unique else .ok (t.insert k v) := by
  rw [insertRow, hfits, if_neg (by simp)]

omit [LawfulBEq K] in
/-- Without a limit, a change of a row cannot fail. -/
lemma updateRow_of_fits {f : V → V} (hfits : ∀ w, fits k w = true) :
    updateRow fits t k f = .ok (t.modify k f) := by
  rw [updateRow, if_neg]
  simp [hfits]

variable (fits) in
/-- Moving a row to a free key. -/
lemma exists_moveRow (hfits : fits k' v = true) (hne : k ≠ k') (hold : t.get? k = some v)
    (hnew : t.get? k' = none) :
    ∃ t', moveRow fits t k k' = .ok t' ∧
      (∀ a, t'.get? a = if k' == a then some v else if k == a then none else t.get? a) ∧
      ∀ a ∈ t'.keys, a = k' ∨ a ∈ t.keys := by
  have hbeq : (k == k') = false := beq_eq_false_iff_ne.2 hne
  rw [moveRow, hold]
  simp only [hbeq, if_neg Bool.false_ne_true, hfits, Bool.true_eq_false, if_false, dif_pos hnew]
  refine ⟨_, rfl, fun a => ?_, ?_⟩
  · rw [← hold]
    exact lookup_moved hne hnew a
  · intro a ha
    obtain ⟨e', he', rfl⟩ := List.mem_map.1 ha
    obtain ⟨e, he, rfl⟩ := List.mem_map.1 he'
    by_cases hek : (e.1 == k) = true
    · left
      rw [if_pos hek]
    · right
      rw [if_neg hek]
      exact List.mem_map_of_mem (f := Prod.fst) he

end Table

end Sql

end Racfs
