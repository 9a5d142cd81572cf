/-
# Byte strings and UTF-8

Texts and file contents are lists of bytes; a text is the list of its UTF-8 bytes.  The two
things the standard library does with them that matter here:

* slicing a text at a byte index panics unless the index is a character boundary
  (`isCharBoundary`);
* the lossy conversion of arbitrary bytes to a text (`fromUtf8Lossy`) keeps every well-formed
  character and replaces every maximal ill-formed sequence by U+FFFD.

The conversion never shortens its input (`length_le_fromUtf8Lossy`), is the identity on ASCII
and turns any other input into a text that is not ASCII, and it can be done piecewise at
ASCII bytes (`fromUtf8Lossy_append`).
-/
import Mathlib.Algebra.Group.Nat.Defs
import Mathlib.Data.List.GetD
import Mathlib.Data.Nat.Basic
import Mathlib.Tactic.Common

namespace Racfs

/-- A byte string. -/
abbrev Bytes := List UInt8

instance : LawfulBEq Bytes := inferInstance

instance : PartialEquivBEq Bytes := inferInstance

/-- The bytes of an ASCII literal. -/
def ascii (s : String) : Bytes := s.toList.map fun c => c.toNat.toUInt8

/-- The bytes of a text. -/
def utf8 (s : String) : Bytes := s.toUTF8.data.toList

/-- The byte `/`. -/
def slash : UInt8 := 47

/-- The byte `.`. -/
def dot : UInt8 := 46

/-- A byte string of a given length: cut off, or padded with zeros. -/
def resize (data : Bytes) (n : ℕ) : Bytes := data.take n ++ List.replicate (n - data.length) 0

/-- Overwrite a part of a byte string. -/
def copyFromSlice (data : Bytes) (start : ℕ) (src : Bytes) : Bytes :=
  data.take start ++ src ++ data.drop (start + src.length)

namespace Utf8

/-- A continuation byte `10xxxxxx`. -/
def isCont (b : UInt8) : Bool := 0x80 ≤ b && b < 0xC0

/-- The byte at an index, `0` past the end. -/
def safeGet (bs : Bytes) (i : ℕ) : UInt8 := bs.getD i 0

/-- The length of the character that starts with `b`, `0` if none does. -/
def charWidth (b : UInt8) : ℕ :=
  if b < 0x80 then 1
  else if b < 0xC2 then 0
  else if b < 0xE0 then 2
  else if b < 0xF0 then 3
  else if b < 0xF5 then 4
  else 0

/-- The second bytes allowed after the first byte of a character of three or four bytes. -/
def secondOk (b c : UInt8) : Bool :=
  if b = 0xE0 then 0xA0 ≤ c && c < 0xC0
  else if b = 0xED then 0x80 ≤ c && c < 0xA0
  else if b = 0xF0 then 0x90 ≤ c && c < 0xC0
  else if b = 0xF4 then 0x80 ≤ c && c < 0x90
  else isCont c

/-- The first chunk of a nonempty byte string: the number of its bytes, and whether they
are a well-formed character (else they are a maximal ill-formed sequence). -/
def chunk (bs : Bytes) : ℕ × Bool :=
  let g := safeGet bs
  match charWidth (g 0) with
  | 1 => (1, true)
  | 2 => if isCont (g 1) then (2, true) else (1, false)
  | 3 =>
    if secondOk (g 0) (g 1) then
      if isCont (g 2) then (3, true) else (2, false)
    else (1, false)
  | 4 =>
    if secondOk (g 0) (g 1) then
      if isCont (g 2) then
        if isCont (g 3) then (4, true) else (3, false)
      else (2, false)
    else (1, false)
  | _ => (1, false)

/-- U+FFFD, the replacement character. -/
def replacement : Bytes := [0xEF, 0xBF, 0xBD]

/-- The text of one chunk. -/
def chunkText (bs : Bytes) : Bytes :=
  if (chunk bs).2 then bs.take (chunk bs).1 else replacement

/-- The lossy conversion of at most `fuel` chunks. -/
def lossyAux : ℕ → Bytes → Bytes
  | 0, _ => []
  | _ + 1, [] => []
  | fuel + 1, b :: bs => chunkText (b :: bs) ++ lossyAux fuel ((b :: bs).drop (chunk (b :: bs)).1)

/-- Whether a text may be sliced at the byte index `i`. -/
def isCharBoundary (s : Bytes) (i : ℕ) : Bool :=
  i == 0 || if i < s.length then !isCont (safeGet s i) else i == s.length

end Utf8

open Utf8

/-- `String::from_utf8_lossy`.  Every chunk has at least one byte, so there are at most as
many chunks as bytes. -/
def fromUtf8Lossy (bs : Bytes) : Bytes := lossyAux bs.length bs

/-- Where a byte string stops being a text: the length of the text before, and the length of the
ill-formed sequence, unless it is a character that is cut off at the end. -/
structure Utf8Error where
  validUpTo : ℕ
  errorLen : Option ℕ

/-- `std::str::from_utf8` on at most `fuel` chunks, of which the first is at an index: the
error, if there is one. -/
def utf8ErrorAux : ℕ → ℕ → Bytes → Option Utf8Error
  | 0, _, _ => none
  | _ + 1, _, [] => none
  | fuel + 1, i, b :: bs =>
    let n := (chunk (b :: bs)).1
    if (chunk (b :: bs)).2 then utf8ErrorAux fuel (i + n) ((b :: bs).drop n)
    else some ⟨i, if charWidth b > 1 && n == bs.length + 1 then none else some n⟩

/-- `std::str::from_utf8`: the error, if there is one. -/
def utf8Error (bs : Bytes) : Option Utf8Error := utf8ErrorAux bs.length 0 bs

/-- The bytes are a text. -/
def isUtf8 (bs : Bytes) : Bool := (utf8Error bs).isNone

/-- The message of the error. -/
def Utf8Error.toString (e : Utf8Error) : String :=
  match e.errorLen with
  | some n => s!"invalid utf-8 sequence of {n} bytes from index {e.validUpTo}"
  | none => s!"incomplete utf-8 byte sequence from index {e.validUpTo}"

/-- The texts of the characters with the property `White_Space`. -/
def whitespace : List Bytes :=
  [[9], [10], [11], [12], [13], [32], [0xC2, 0x85], [0xC2, 0xA0], [0xE1, 0x9A, 0x80],
    [0xE2, 0x80, 0x80], [0xE2, 0x80, 0x81], [0xE2, 0x80, 0x82], [0xE2, 0x80, 0x83],
    [0xE2, 0x80, 0x84], [0xE2, 0x80, 0x85], [0xE2, 0x80, 0x86], [0xE2, 0x80, 0x87],
    [0xE2, 0x80, 0x88], [0xE2, 0x80, 0x89], [0xE2, 0x80, 0x8A], [0xE2, 0x80, 0xA8],
    [0xE2, 0x80, 0xA9], [0xE2, 0x80, 0xAF], [0xE2, 0x81, 0x9F], [0xE3, 0x80, 0x80]]

/-- Drop at most `fuel` of the pieces from the beginning. -/
def dropPieces (pieces : List Bytes) : ℕ → Bytes → Bytes
  | 0, bs => bs
  | fuel + 1, bs =>
    match pieces.find? (·.isPrefixOf bs) with
    | some piece => dropPieces pieces fuel (bs.drop piece.length)
    | none => bs

/-- `str::trim`. -/
def trim (s : Bytes) : Bytes :=
  let t := dropPieces whitespace s.length s
  (dropPieces (whitespace.map List.reverse) t.length t.reverse).reverse

/-- All bytes are ASCII. -/
def IsAscii (bs : Bytes) : Prop := ∀ b ∈ bs, b < 0x80

instance (bs : Bytes) : Decidable (IsAscii bs) := List.decidableBAll (fun b => b < 0x80) bs

namespace Utf8

/-! ### Chunks -/

lemma isCont_zero : isCont 0 = false := rfl

lemma isCont_of_lt {b : UInt8} (h : b < 0x80) : isCont b = false := by
  simp only [isCont, Bool.and_eq_false_iff, decide_eq_false_iff_not, UInt8.not_le]
  exact Or.inl h

lemma secondOk_of_lt {b c : UInt8} (h : c < 0x80) : secondOk b c = false := by
  have h' : c.toNat < 128 := h
  rw [secondOk]
  split_ifs <;>
    simp only [isCont, Bool.and_eq_false_iff, decide_eq_false_iff_not, UInt8.not_le,
      UInt8.lt_iff_toNat_lt, UInt8.reduceToNat] <;> omega

lemma isCont_of_secondOk {b c : UInt8} (h : secondOk b c = true) : isCont c = true := by
  rw [secondOk] at h
  split_ifs at h <;>
    simp only [isCont, Bool.and_eq_true, decide_eq_true_eq, UInt8.le_iff_toNat_le,
      UInt8.lt_iff_toNat_lt, UInt8.reduceToNat] at h ⊢ <;> omega

lemma lt_length_of_isCont {bs : Bytes} {i : ℕ} (h : isCont (safeGet bs i) = true) :
    i < bs.length := by
  by_contra hi
  rw [safeGet, List.getD_eq_default _ _ (by omega), isCont_zero] at h
  exact absurd h (by simp)

/-- What a chunk can be: an ASCII byte, a longer character, whose second byte is a
continuation byte, or an ill-formed sequence of at most three bytes. -/
lemma chunk_cases {bs : Bytes} (hne : bs ≠ []) :
    (chunk bs = (1, true) ∧ safeGet bs 0 < 0x80) ∨
      (∃ n, chunk bs = (n, true) ∧ 2 ≤ n ∧ n ≤ bs.length ∧ isCont (safeGet bs 1) = true) ∨
      (∃ n, chunk bs = (n, false) ∧ 1 ≤ n ∧ n ≤ 3 ∧ n ≤ bs.length) := by
  have hpos : 0 < bs.length := List.length_pos_iff.2 hne
  have hlen : ∀ i, isCont (safeGet bs i) = true → i < bs.length := fun i => lt_length_of_isCont
  -- one case for each length that the first byte announces
  simp only [chunk]
  split
  · rename_i hw
    refine Or.inl ⟨rfl, ?_⟩
    rw [charWidth] at hw
    split_ifs at hw with h0 <;> first | exact h0 | omega
  · by_cases h1 : isCont (safeGet bs 1) = true
    · exact Or.inr (Or.inl ⟨2, by simp [h1], le_rfl, hlen 1 h1, h1⟩)
    · exact Or.inr (Or.inr ⟨1, by simp [h1], le_rfl, by omega, hpos⟩)
  · by_cases h1 : secondOk (safeGet bs 0) (safeGet bs 1) = true
    · have hc := isCont_of_secondOk h1
      by_cases h2 : isCont (safeGet bs 2) = true
      · exact Or.inr (Or.inl ⟨3, by simp [h1, h2], by omega, hlen 2 h2, hc⟩)
      · exact Or.inr (Or.inr ⟨2, by simp [h1, h2], by omega, by omega, hlen 1 hc⟩)
    · exact Or.inr (Or.inr ⟨1, by simp [h1], le_rfl, by omega, hpos⟩)
  · by_cases h1 : secondOk (safeGet bs 0) (safeGet bs 1) = true
    · have hc := isCont_of_secondOk h1
      by_cases h2 : isCont (safeGet bs 2) = true
      · by_cases h3 : isCont (safeGet bs 3) = true
        · exact Or.inr (Or.inl ⟨4, by simp [h1, h2, h3], by omega, hlen 3 h3, hc⟩)
        · exact Or.inr (Or.inr ⟨3, by simp [h1, h2, h3], by omega, by omega, hlen 2 h2⟩)
      · exact Or.inr (Or.inr ⟨2, by simp [h1, h2], by omega, by omega, hlen 1 hc⟩)
    · exact Or.inr (Or.inr ⟨1, by simp [h1], le_rfl, by omega, hpos⟩)
  · exact Or.inr (Or.inr ⟨1, rfl, le_rfl, by omega, hpos⟩)

lemma chunk_pos {bs : Bytes} (hne : bs ≠ []) : 1 ≤ (chunk bs).1 ∧ (chunk bs).1 ≤ bs.length := by
  have hpos : 0 < bs.length := List.length_pos_iff.2 hne
  rcases chunk_cases hne with ⟨h, -⟩ | ⟨n, h, h1, h2, -⟩ | ⟨n, h, h1, -, h2⟩
  · rw [h]; exact ⟨le_rfl, hpos⟩
  · rw [h]; exact ⟨by simp; omega, h2⟩
  · rw [h]; exact ⟨h1, h2⟩

/-- What follows a chunk is shorter. -/
lemma length_drop_chunk_le (b : UInt8) (bs : Bytes) :
    ((b :: bs).drop (chunk (b :: bs)).1).length ≤ bs.length := by
  have hpos := (chunk_pos (List.cons_ne_nil b bs)).1
  simp only [List.length_drop, List.length_cons]
  omega

lemma length_le_chunkText {bs : Bytes} (hne : bs ≠ []) :
    (chunk bs).1 ≤ (chunkText bs).length := by
  have hpos := chunk_pos hne
  rcases chunk_cases hne with ⟨h, -⟩ | ⟨n, h, -, -, -⟩ | ⟨n, h, -, h3, -⟩
  · simp [chunkText, h] at hpos ⊢; omega
  · simp [chunkText, h] at hpos ⊢; omega
  · simpa [chunkText, h, replacement] using h3

/-- A chunk ends before an ASCII byte whatever follows that byte. -/
lemma chunk_append {bs t : Bytes} {c : UInt8} (hne : bs ≠ []) (hc : c < 0x80) :
    chunk (bs ++ c :: t) = chunk bs := by
  -- a chunk depends on four bytes at most, and none but the first is ASCII in a longer one
  match bs, hne with
  | [x], _ =>
    simp [chunk, safeGet, isCont_of_lt hc, secondOk_of_lt hc, isCont_zero,
      secondOk_of_lt (show (0 : UInt8) < 0x80 by decide)]
  | [x, y], _ => simp [chunk, safeGet, isCont_of_lt hc, isCont_zero]
  | [x, y, z], _ => simp [chunk, safeGet, isCont_of_lt hc, isCont_zero]
  | x :: y :: z :: w :: r, _ => simp [chunk, safeGet]

/-! ### The lossy conversion, chunk by chunk -/

section Chunkwise

variable {A : Type*} {F : ℕ → Bytes → A} {g : Bytes → A → A}

/-- Spare fuel does not matter to a function that goes from chunk to chunk. -/
lemma chunkwise_of_le (hnil : ∀ fuel, F fuel [] = F 0 [])
    (hcons : ∀ fuel b bs, F (fuel + 1) (b :: bs) =
      g (b :: bs) (F fuel ((b :: bs).drop (chunk (b :: bs)).1)))
    {fuel fuel' : ℕ} {bs : Bytes} (h : bs.length ≤ fuel) (h' : bs.length ≤ fuel') :
    F fuel bs = F fuel' bs := by
  induction fuel generalizing fuel' bs with
  | zero =>
    obtain rfl : bs = [] := List.length_eq_zero_iff.1 (Nat.le_zero.1 h)
    exact (hnil fuel').symm
  | succ fuel ih =>
    cases bs with
    | nil => exact (hnil _).trans (hnil fuel').symm
    | cons b bs =>
      have hdrop := length_drop_chunk_le b bs
      rw [List.length_cons] at h h'
      obtain ⟨fuel', rfl⟩ := Nat.exists_eq_succ_of_ne_zero (show fuel' ≠ 0 by omega)
      rw [hcons, Nat.succ_eq_add_one, hcons]
      exact congrArg (g (b :: bs)) (ih (by omega) (by omega))

/-- With the length as its fuel, such a function does the first chunk and then the rest. -/
lemma chunkwise_of_ne_nil (hnil : ∀ fuel, F fuel [] = F 0 [])
    (hcons : ∀ fuel b bs, F (fuel + 1) (b :: bs) =
      g (b :: bs) (F fuel ((b :: bs).drop (chunk (b :: bs)).1)))
    {bs : Bytes} (hne : bs ≠ []) :
    F bs.length bs = g bs (F (bs.drop (chunk bs).1).length (bs.drop (chunk bs).1)) := by
  obtain ⟨b, bs, rfl⟩ := List.exists_cons_of_ne_nil hne
  rw [List.length_cons, hcons]
  exact congrArg (g (b :: bs)) (chunkwise_of_le hnil hcons (length_drop_chunk_le b bs) le_rfl)

end Chunkwise

end Utf8

@[simp] lemma fromUtf8Lossy_nil : fromUtf8Lossy [] = [] := rfl

lemma fromUtf8Lossy_of_ne_nil {bs : Bytes} (hne : bs ≠ []) :
    fromUtf8Lossy bs = chunkText bs ++ fromUtf8Lossy (bs.drop (chunk bs).1) :=
  chunkwise_of_ne_nil (F := lossyAux) (g := fun bs text => chunkText bs ++ text)
    (fun fuel => by cases fuel <;> rfl) (fun _ _ _ => rfl) hne

/-- Induction over the chunks of a byte string. -/
lemma chunk_induction {P : Bytes → Prop} (hnil : P [])
    (hcons : ∀ bs, bs ≠ [] → P (bs.drop (chunk bs).1) → P bs) (bs : Bytes) : P bs := by
  induction h : bs.length using Nat.strong_induction_on generalizing bs with
  | _ n ih =>
    by_cases hne : bs = []
    · exact hne ▸ hnil
    · have hpos := chunk_pos hne
      refine hcons bs hne (ih _ ?_ _ rfl)
      rw [List.length_drop]
      omega

/-- The lossy conversion never makes a byte string shorter. -/
theorem length_le_fromUtf8Lossy (bs : Bytes) : bs.length ≤ (fromUtf8Lossy bs).length := by
  induction bs using chunk_induction with
  | hnil => simp
  | hcons bs hne ih =>
    have h := length_le_chunkText hne
    rw [fromUtf8Lossy_of_ne_nil hne, List.length_append]
    rw [List.length_drop] at ih
    omega

lemma chunkText_append {bs : Bytes} {c : UInt8} (hne : bs ≠ []) (t : Bytes) (hc : c < 0x80) :
    chunkText (bs ++ c :: t) = chunkText bs := by
  rw [chunkText, chunkText, chunk_append hne hc, List.take_append_of_le_length (chunk_pos hne).2]

/-- The lossy conversion can be done piecewise at an ASCII byte. -/
theorem fromUtf8Lossy_append (a : Bytes) {c : UInt8} (t : Bytes) (hc : c < 0x80) :
    fromUtf8Lossy (a ++ c :: t) = fromUtf8Lossy a ++ fromUtf8Lossy (c :: t) := by
  induction a using chunk_induction with
  | hnil => simp
  | hcons a hne ih =>
    rw [fromUtf8Lossy_of_ne_nil hne, fromUtf8Lossy_of_ne_nil (by simp), chunkText_append hne t hc,
      chunk_append hne hc, List.drop_append_of_le_length (chunk_pos hne).2, ih, List.append_assoc]

lemma chunk_cons_of_lt {c : UInt8} (t : Bytes) (hc : c < 0x80) : chunk (c :: t) = (1, true) := by
  have : charWidth c = 1 := by simp [charWidth, hc]
  simp [chunk, safeGet, this]

lemma fromUtf8Lossy_cons {c : UInt8} (t : Bytes) (hc : c < 0x80) :
    fromUtf8Lossy (c :: t) = c :: fromUtf8Lossy t := by
  rw [fromUtf8Lossy_of_ne_nil (by simp), chunkText, chunk_cons_of_lt t hc]
  rfl

/-- The lossy conversion leaves ASCII alone. -/
theorem fromUtf8Lossy_of_isAscii {bs : Bytes} (h : IsAscii bs) : fromUtf8Lossy bs = bs := by
  induction bs with
  | nil => rfl
  | cons b bs ih =>
    rw [fromUtf8Lossy_cons bs (h b (by simp)), ih fun c hc => h c (by simp [hc])]

lemma safeGet_take_append (bs t : Bytes) {n i : ℕ} (hi : i < n) (hn : n ≤ bs.length) :
    safeGet (bs.take n ++ t) i = safeGet bs i := by
  have hlen : i < (bs.take n).length := by
    rw [List.length_take]
    omega
  rw [safeGet, safeGet, List.getD_append _ _ _ _ hlen]
  simp [List.getD_eq_getElem?_getD, hi]

/-- A character is the first chunk of every byte string that starts with it. -/
lemma chunk_take_append {bs : Bytes} (hne : bs ≠ []) {n : ℕ} (h : chunk bs = (n, true))
    (t : Bytes) : chunk (bs.take n ++ t) = (n, true) := by
  have hpos := chunk_pos hne
  rw [h] at hpos
  have hget : ∀ i < n, safeGet (bs.take n ++ t) i = safeGet bs i := fun i hi =>
    safeGet_take_append bs t hi hpos.2
  simp only [chunk] at h ⊢
  rw [hget 0 hpos.1]
  split at h
  · exact h
  · split_ifs at h with h1
    · obtain rfl : 2 = n := (Prod.mk.inj h).1
      rw [hget 1 (by omega), if_pos h1]
    · cases h
  · split_ifs at h with h1 h2
    · obtain rfl : 3 = n := (Prod.mk.inj h).1
      rw [hget 1 (by omega), hget 2 (by omega), if_pos h1, if_pos h2]
    all_goals cases h
  · split_ifs at h with h1 h2 h3
    · obtain rfl : 4 = n := (Prod.mk.inj h).1
      rw [hget 1 (by omega), hget 2 (by omega), hget 3 (by omega), if_pos h1, if_pos h2,
        if_pos h3]
    all_goals cases h
  · cases h

/-- The text of a chunk is a chunk, whatever follows it. -/
lemma chunk_chunkText_append {bs : Bytes} (hne : bs ≠ []) (t : Bytes) :
    chunkText bs ++ t ≠ [] ∧ chunkText (chunkText bs ++ t) = chunkText bs ∧
      (chunkText bs ++ t).drop (chunk (chunkText bs ++ t)).1 = t := by
  cases hvalid : (chunk bs).2 with
  | false =>
    have htext : chunkText bs = replacement := by rw [chunkText, hvalid]; rfl
    have hchunk : chunk (replacement ++ t) = (3, true) := rfl
    rw [htext, chunkText, hchunk]
    exact ⟨by simp [replacement], rfl, rfl⟩
  | true =>
    have hpair : chunk bs = ((chunk bs).1, true) := Prod.ext rfl hvalid
    have htext : chunkText bs = bs.take (chunk bs).1 := by rw [chunkText, hvalid]; rfl
    have hpos := chunk_pos hne
    have hlen : (bs.take (chunk bs).1).length = (chunk bs).1 := by
      rw [List.length_take]
      omega
    have hnil : bs.take (chunk bs).1 ++ t ≠ [] := by
      intro heq
      rw [(List.append_eq_nil_iff.1 heq).1, List.length_nil] at hlen
      omega
    rw [htext, chunkText, chunk_take_append hne hpair]
    exact ⟨hnil, List.take_left' hlen, List.drop_left' hlen⟩

/-- The text of a chunk is a text. -/
lemma fromUtf8Lossy_chunkText_append {bs : Bytes} (hne : bs ≠ []) (t : Bytes) :
    fromUtf8Lossy (chunkText bs ++ t) = chunkText bs ++ fromUtf8Lossy t := by
  obtain ⟨hnil, htext, hdrop⟩ := chunk_chunkText_append hne t
  rw [fromUtf8Lossy_of_ne_nil hnil, htext, hdrop]

/-- The lossy conversion gives a text, which it leaves alone. -/
theorem fromUtf8Lossy_fromUtf8Lossy (bs : Bytes) :
    fromUtf8Lossy (fromUtf8Lossy bs) = fromUtf8Lossy bs := by
  induction bs using chunk_induction with
  | hnil => rfl
  | hcons bs hne ih =>
    rw [fromUtf8Lossy_of_ne_nil hne, fromUtf8Lossy_chunkText_append hne, ih]

/-- A byte string that is not ASCII becomes a text with a continuation byte. -/
theorem exists_isCont_of_not_isAscii {bs : Bytes} (h : ¬ IsAscii bs) :
    ∃ c ∈ fromUtf8Lossy bs, isCont c = true := by
  induction bs using chunk_induction with
  | hnil => exact absurd (fun b hb => by simp at hb) h
  | hcons bs hne ih =>
    rw [fromUtf8Lossy_of_ne_nil hne]
    rcases chunk_cases hne with ⟨hch, hb⟩ | ⟨n, hch, hn, hlen, hc⟩ | ⟨n, hch, -, -, -⟩
    · -- an ASCII byte: the rest is not ASCII
      match bs, hne with
      | b :: bs, _ =>
        have hrest : ¬ IsAscii bs := by
          intro hall
          refine h fun c hc => ?_
          rcases List.mem_cons.1 hc with rfl | hc
          · simpa [safeGet] using hb
          · exact hall c hc
        rw [hch] at ih ⊢
        obtain ⟨c, hmem, hcont⟩ := ih hrest
        exact ⟨c, List.mem_append_right _ hmem, hcont⟩
    · -- a longer character: its second byte
      refine ⟨safeGet bs 1, List.mem_append_left _ ?_, hc⟩
      rw [chunkText, hch, if_pos rfl, safeGet, List.getD_eq_getElem _ _ (by omega)]
      have hlt : 1 < (bs.take n).length := by simp; omega
      have hget : (bs.take n)[1] = bs[1] := by simp
      rw [← hget]
      exact List.getElem_mem hlt
    · -- an ill-formed sequence: the second byte of U+FFFD
      refine ⟨0xBF, List.mem_append_left _ ?_, by decide⟩
      simp [chunkText, hch, replacement]

/-- A text does not begin with a continuation byte. -/
lemma isCont_head_fromUtf8Lossy (bs : Bytes) : isCont (safeGet (fromUtf8Lossy bs) 0) = false := by
  match bs with
  | [] => rfl
  | b :: t =>
    have hne : b :: t ≠ [] := by simp
    have hpos := chunk_pos hne
    have hlen : 0 < (chunkText (b :: t)).length := by
      have hle := length_le_chunkText hne
      omega
    rw [fromUtf8Lossy_of_ne_nil hne, safeGet, List.getD_append _ _ _ _ hlen, chunkText]
    split_ifs with hok
    · -- a character begins with its first byte
      have htake : ((b :: t).take (chunk (b :: t)).1).getD 0 0 = b := by
        rw [← Nat.sub_add_cancel hpos.1]
        rfl
      rw [htake]
      by_contra hcont
      have hbyte : 0x80 ≤ b ∧ b < 0xC0 := by simpa [isCont] using hcont
      have hwidth : charWidth b = 0 := by
        have hlow : ¬ b < 0x80 := UInt8.not_lt.2 hbyte.1
        have hhigh : b < 0xC2 := UInt8.lt_trans hbyte.2 (by decide)
        rw [charWidth, if_neg hlow, if_pos hhigh]
      have hchunk : chunk (b :: t) = (1, false) := by
        simp [chunk, safeGet, hwidth]
      rw [hchunk] at hok
      cases hok
    · rfl

/-- A byte string that is not ASCII becomes a text that cannot be sliced everywhere. -/
lemma exists_pos_isCont_of_not_isAscii {bs : Bytes} (h : ¬ IsAscii bs) :
    ∃ i, 0 < i ∧ isCont (safeGet (fromUtf8Lossy bs) i) = true := by
  obtain ⟨c, hc, hcont⟩ := exists_isCont_of_not_isAscii h
  obtain ⟨i, hi, rfl⟩ := List.getElem_of_mem hc
  rw [← List.getD_eq_getElem _ 0 hi] at hcont
  refine ⟨i, Nat.pos_of_ne_zero fun hzero => ?_, hcont⟩
  subst hzero
  rw [← safeGet, isCont_head_fromUtf8Lossy] at hcont
  cases hcont

lemma isAscii_of_fromUtf8Lossy {bs : Bytes} (h : IsAscii (fromUtf8Lossy bs)) : IsAscii bs := by
  by_contra hn
  obtain ⟨c, hc, hcont⟩ := exists_isCont_of_not_isAscii hn
  have := isCont_of_lt (h c hc)
  rw [this] at hcont
  exact absurd hcont (by simp)

/-- The lossy conversion makes no new ASCII bytes. -/
lemma mem_of_mem_fromUtf8Lossy {bs : Bytes} {c : UInt8} (hc : c < 0x80)
    (h : c ∈ fromUtf8Lossy bs) : c ∈ bs := by
  induction bs using chunk_induction with
  | hnil => simp at h
  | hcons bs hne ih =>
    rw [fromUtf8Lossy_of_ne_nil hne, List.mem_append] at h
    rcases h with h | h
    · rw [chunkText] at h
      split at h
      · exact List.mem_of_mem_take h
      · simp only [replacement, List.mem_cons, List.not_mem_nil, or_false] at h
        rcases h with rfl | rfl | rfl <;> exact absurd hc (by decide)
    · exact List.mem_of_mem_drop (ih h)

lemma mem_fromUtf8Lossy_of_mem {bs : Bytes} {c : UInt8} (hc : c < 0x80) (h : c ∈ bs) :
    c ∈ fromUtf8Lossy bs := by
  obtain ⟨a, t, rfl⟩ := List.append_of_mem h
  rw [fromUtf8Lossy_append a t hc, fromUtf8Lossy_cons t hc]
  simp

lemma utf8ErrorAux_of_isAscii {bs : Bytes} (h : IsAscii bs) (fuel i : ℕ) :
    utf8ErrorAux fuel i bs = none := by
  induction fuel generalizing bs i with
  | zero => rfl
  | succ fuel ih =>
    cases bs with
    | nil => rfl
    | cons b bs =>
      rw [utf8ErrorAux, chunk_cons_of_lt bs (h b (by simp))]
      exact ih (fun c hc => h c (by simpa using Or.inr hc)) (i + 1)

lemma isUtf8_of_isAscii {bs : Bytes} (h : IsAscii bs) : isUtf8 bs = true := by
  rw [isUtf8, utf8Error, utf8ErrorAux_of_isAscii h]
  rfl

/-- Neither the index nor spare fuel matters for whether there is an error. -/
lemma isNone_utf8ErrorAux {fuel fuel' i i' : ℕ} {bs : Bytes} (h : bs.length ≤ fuel)
    (h' : bs.length ≤ fuel') :
    (utf8ErrorAux fuel i bs).isNone = (utf8ErrorAux fuel' i' bs).isNone := by
  induction fuel generalizing fuel' i i' bs with
  | zero =>
    obtain rfl : bs = [] := List.length_eq_zero_iff.1 (by omega)
    cases fuel' <;> rfl
  | succ fuel ih =>
    cases bs with
    | nil => cases fuel' <;> rfl
    | cons b bs =>
      have hdrop := length_drop_chunk_le b bs
      rw [List.length_cons] at h h'
      obtain ⟨fuel', rfl⟩ := Nat.exists_eq_succ_of_ne_zero (show fuel' ≠ 0 by omega)
      rw [utf8ErrorAux, utf8ErrorAux]
      split
      · exact ih (by omega) (by omega)
      · rfl

lemma isUtf8_of_ne_nil {bs : Bytes} (hne : bs ≠ []) :
    isUtf8 bs = ((chunk bs).2 && isUtf8 (bs.drop (chunk bs).1)) := by
  match bs, hne with
  | b :: bs, _ =>
    rw [isUtf8, utf8Error, List.length_cons, utf8ErrorAux]
    split
    · next hok =>
      rw [hok, Bool.true_and]
      exact isNone_utf8ErrorAux (length_drop_chunk_le b bs) le_rfl
    · next hbad => rw [Bool.eq_false_iff.2 hbad, Bool.false_and, Option.isNone_some]

/-- Being a text can be checked piecewise at an ASCII byte. -/
theorem isUtf8_append (a : Bytes) {c : UInt8} (t : Bytes) (hc : c < 0x80) :
    isUtf8 (a ++ c :: t) = (isUtf8 a && isUtf8 t) := by
  induction a using chunk_induction with
  | hnil =>
    rw [List.nil_append, isUtf8_of_ne_nil (by simp), chunk_cons_of_lt t hc]
    rfl
  | hcons a hne ih =>
    have hpos := chunk_pos hne
    rw [@isUtf8_of_ne_nil (a ++ c :: t) (by simp), isUtf8_of_ne_nil hne, chunk_append hne hc,
      List.drop_append_of_le_length hpos.2, ih, Bool.and_assoc]

/-- The lossy conversion leaves a text alone. -/
theorem fromUtf8Lossy_of_isUtf8 {bs : Bytes} (h : isUtf8 bs = true) : fromUtf8Lossy bs = bs := by
  induction bs using chunk_induction with
  | hnil => rfl
  | hcons bs hne ih =>
    rw [isUtf8_of_ne_nil hne, Bool.and_eq_true] at h
    rw [fromUtf8Lossy_of_ne_nil hne, ih h.2, chunkText, if_pos h.1, List.take_append_drop]

lemma fromUtf8Lossy_ne_nil {bs : Bytes} (h : bs ≠ []) : fromUtf8Lossy bs ≠ [] := by
  intro hnil
  have hlen := length_le_fromUtf8Lossy bs
  rw [hnil, List.length_nil, Nat.le_zero, List.length_eq_zero_iff] at hlen
  exact h hlen

/-! ### Slicing -/

/-- A text can be sliced everywhere exactly when it has no continuation byte. -/
lemma forall_isCharBoundary_iff {s : Bytes} :
    (∀ i ≤ s.length, isCharBoundary s i = true) ↔ ∀ i, 0 < i → isCont (safeGet s i) = false := by
  constructor
  · intro h i hi
    by_cases hlt : i < s.length
    · have := h i (Nat.le_of_lt hlt)
      simpa [isCharBoundary, hlt, Nat.ne_of_gt hi] using this
    · rw [safeGet, List.getD_eq_default _ _ (by omega), isCont_zero]
  · intro h i hi
    rcases Nat.eq_zero_or_pos i with rfl | hpos
    · simp [isCharBoundary]
    · rcases Nat.lt_or_ge i s.length with hlt | hge
      · simp [isCharBoundary, hlt, h i hpos]
      · have : i = s.length := by omega
        simp [isCharBoundary, this]

/-! ### Vectors of bytes -/

@[simp] lemma length_resize (data : Bytes) (n : ℕ) : (resize data n).length = n := by
  simp only [resize, List.length_append, List.length_take, List.length_replicate]
  omega

lemma length_copyFromSlice {data src : Bytes} {start : ℕ}
    (h : start + src.length ≤ data.length) :
    (copyFromSlice data start src).length = data.length := by
  simp only [copyFromSlice, List.length_append, List.length_take, List.length_drop]
  omega

end Racfs
