/-
# Characters and words

A text taken apart into its characters, each the list of its bytes (`chars`), and the functions
of the standard library that go by characters: the words of a text (`splitWhitespace`) and its
lines.

A part without white space that is put in front of a text changes its first word only
(`laterWords_append`), and a word has no white space (`noSpace_of_mem_splitWhitespace`).

A path is compared by its components, and how often a character occurs in a path can be read
off these (`count_chars_eq_sum`), so equal paths have the same characters except for separators
and dots.
-/
import Racfs.Lib.Decimal
import Racfs.Lib.Path

namespace Racfs

open Utf8

/-- The characters of at most `fuel` chunks. -/
def charsAux : ℕ → Bytes → List Bytes
  | 0, _ => []
  | _ + 1, [] => []
  | fuel + 1, b :: bs => chunkText (b :: bs) :: charsAux fuel ((b :: bs).drop (chunk (b :: bs)).1)

/-- The characters of a text; of other bytes, those of the text that they are converted to. -/
def chars (bs : Bytes) : List Bytes := charsAux bs.length bs

/-- Whether a character is white space. -/
def isSpace (c : Bytes) : Bool := whitespace.contains c

/-- `str::split_whitespace`. -/
def splitWhitespace (s : Bytes) : List Bytes :=
  (((chars s).splitOnP isSpace).filter fun w => !w.isEmpty).map List.flatten

/-- The words that begin after the first white space. -/
def laterWords (s : Bytes) : List Bytes :=
  (((chars s).splitOnP isSpace).tail.filter fun w => !w.isEmpty).map List.flatten

/-- A line without the `\r` at its end. -/
def stripCr (line : Bytes) : Bytes := if line.getLast? = some 13 then line.dropLast else line

/-- `str::lines`: the last line need not be closed. -/
def lines (s : Bytes) : List Bytes :=
  let pieces := s.splitOn 10
  pieces.dropLast.map stripCr ++ pieces.getLast?.toList.filter fun line => !line.isEmpty

/-- An ASCII letter in upper case. -/
def upperByte (b : UInt8) : UInt8 := if 97 ≤ b ∧ b ≤ 122 then b - 32 else b

/-- An ASCII letter in lower case. -/
def lowerByte (b : UInt8) : UInt8 := if 65 ≤ b ∧ b ≤ 90 then b + 32 else b

/-- `str::to_uppercase`, for comparisons with ASCII texts: of the characters beyond ASCII only
those whose upper case is ASCII are changed. -/
def toUppercase (s : Bytes) : Bytes :=
  (chars s).flatMap fun c =>
    if c = [0xC3, 0x9F] then ascii "SS"
    else if c = [0xC4, 0xB1] then ascii "I"
    else if c = [0xC5, 0xBF] then ascii "S"
    else if c = [0xEF, 0xAC, 0x80] then ascii "FF"
    else if c = [0xEF, 0xAC, 0x81] then ascii "FI"
    else if c = [0xEF, 0xAC, 0x82] then ascii "FL"
    else if c = [0xEF, 0xAC, 0x83] then ascii "FFI"
    else if c = [0xEF, 0xAC, 0x84] then ascii "FFL"
    else if c = [0xEF, 0xAC, 0x85] ∨ c = [0xEF, 0xAC, 0x86] then ascii "ST"
    else c.map upperByte

/-- `str::to_lowercase`, in the same way: the Kelvin sign, and the dotted capital I, which becomes
two characters. -/
def toLowercase (s : Bytes) : Bytes :=
  (chars s).flatMap fun c =>
    if c = [0xE2, 0x84, 0xAA] then ascii "k"
    else if c = [0xC4, 0xB0] then [105, 0xCC, 0x87]
    else c.map lowerByte

/-- `str::eq_ignore_ascii_case`. -/
def eqIgnoreAsciiCase (s t : Bytes) : Bool := s.map lowerByte == t.map lowerByte

/-- The text has no white space. -/
def NoSpace (s : Bytes) : Prop := ∀ c ∈ chars s, isSpace c = false

instance (s : Bytes) : Decidable (NoSpace s) :=
  List.decidableBAll (fun c => isSpace c = false) (chars s)

/-! ### Characters -/

@[simp] lemma chars_nil : chars [] = [] := rfl

lemma chars_of_ne_nil {bs : Bytes} (hne : bs ≠ []) :
    chars bs = chunkText bs :: chars (bs.drop (chunk bs).1) :=
  chunkwise_of_ne_nil (F := charsAux) (g := fun bs cs => chunkText bs :: cs)
    (fun fuel => by cases fuel <;> rfl) (fun _ _ _ => rfl) hne

/-- A text can be taken apart at an ASCII byte. -/
lemma chars_append (a : Bytes) {c : UInt8} (t : Bytes) (hc : c < 0x80) :
    chars (a ++ c :: t) = chars a ++ chars (c :: t) := by
  induction a using chunk_induction with
  | hnil => simp
  | hcons a hne ih =>
    rw [chars_of_ne_nil hne, chars_of_ne_nil (by simp), chunkText_append hne t hc,
      chunk_append hne hc, List.drop_append_of_le_length (chunk_pos hne).2, ih, List.cons_append]

lemma chars_cons {c : UInt8} (t : Bytes) (hc : c < 0x80) : chars (c :: t) = [c] :: chars t := by
  rw [chars_of_ne_nil (by simp), chunkText, chunk_cons_of_lt t hc]
  rfl

/-- The characters of an ASCII text are its bytes. -/
lemma chars_of_isAscii {bs : Bytes} (h : IsAscii bs) : chars bs = bs.map fun b => [b] := by
  induction bs with
  | nil => rfl
  | cons b bs ih =>
    rw [chars_cons bs (h b (by simp)), ih fun c hc => h c (by simp [hc]), List.map_cons]

/-- A character in front of a text. -/
lemma chars_chunkText_append {bs : Bytes} (hne : bs ≠ []) (t : Bytes) :
    chars (chunkText bs ++ t) = chunkText bs :: chars t := by
  obtain ⟨hnil, htext, hdrop⟩ := chunk_chunkText_append hne t
  rw [chars_of_ne_nil hnil, htext, hdrop]

/-- A character with an ASCII byte has no other byte. -/
lemma chunkText_eq_of_mem {bs : Bytes} (hne : bs ≠ []) {b : UInt8} (hb : b ∈ chunkText bs)
    (hlt : b < 0x80) : chunkText bs = [b] := by
  rw [chunkText] at hb ⊢
  cases hvalid : (chunk bs).2 with
  | false =>
    rw [hvalid, if_neg Bool.false_ne_true, replacement] at hb
    have hbytes : ∀ c ∈ ([0xEF, 0xBF, 0xBD] : Bytes), ¬ c < 0x80 := by
      intro c hc
      simp only [List.mem_cons, List.not_mem_nil, or_false] at hc
      rcases hc with rfl | rfl | rfl <;> decide
    exact absurd hlt (hbytes b hb)
  | true =>
    rw [hvalid, if_pos rfl] at hb
    rw [if_pos rfl]
    have hpos := chunk_pos hne
    obtain ⟨k, hk, hget⟩ := List.mem_iff_getElem.1 hb
    rw [List.length_take] at hk
    rw [List.getElem_take] at hget
    have hsplit : bs = bs.take k ++ b :: bs.drop (k + 1) := by
      rw [← hget, ← List.drop_eq_getElem_cons, List.take_append_drop]
    by_cases hzero : k = 0
    · subst hzero
      rw [List.take_zero, List.nil_append] at hsplit
      rw [hsplit, chunk_cons_of_lt _ hlt]
      rfl
    · -- the character would end before the byte
      have hprefix : bs.take k ≠ [] := by
        rw [Ne, List.take_eq_nil_iff]
        exact fun h => h.elim hzero hne
      have hchunk := chunk_append (t := bs.drop (k + 1)) hprefix hlt
      rw [← hsplit] at hchunk
      have hle := (chunk_pos hprefix).2
      rw [← hchunk, List.length_take] at hle
      omega

lemma exists_of_mem_chars {bs c : Bytes} (h : c ∈ chars bs) :
    ∃ chunked, chunked ≠ [] ∧ c = chunkText chunked := by
  induction bs using chunk_induction with
  | hnil => simp at h
  | hcons bs hne ih =>
    rw [chars_of_ne_nil hne] at h
    rcases List.mem_cons.1 h with rfl | h
    · exact ⟨bs, hne, rfl⟩
    · exact ih h

/-- Characters of a text, put together. -/
lemma chars_flatten {bs : Bytes} {w : List Bytes} (h : ∀ c ∈ w, c ∈ chars bs) :
    chars w.flatten = w := by
  induction w with
  | nil => rfl
  | cons c w ih =>
    obtain ⟨chunked, hne, rfl⟩ := exists_of_mem_chars (h c (by simp))
    rw [List.flatten_cons, chars_chunkText_append hne, ih fun c hc => h c (by simp [hc])]

lemma flatten_chars (bs : Bytes) : (chars bs).flatten = fromUtf8Lossy bs := by
  induction bs using chunk_induction with
  | hnil => rfl
  | hcons bs hne ih =>
    rw [chars_of_ne_nil hne, fromUtf8Lossy_of_ne_nil hne, List.flatten_cons, ih]

@[simp] lemma chars_fromUtf8Lossy (bs : Bytes) : chars (fromUtf8Lossy bs) = chars bs := by
  rw [← flatten_chars]
  exact chars_flatten fun _ hc => hc

/-! ### Words -/

lemma tail_splitOnP_append {p : Bytes → Bool} {a : List Bytes} (ha : ∀ c ∈ a, p c = false)
    (l : List Bytes) : ((a ++ l).splitOnP p).tail = (l.splitOnP p).tail := by
  induction a with
  | nil => rfl
  | cons c a ih =>
    rw [List.cons_append, List.splitOnP_cons_eq_if_modifyHead, ha c (by simp),
      if_neg Bool.false_ne_true, List.tail_modifyHead]
    exact ih fun c hc => ha c (by simp [hc])

/-- What has no white space and is put in front goes into the first word. -/
lemma laterWords_append {a : Bytes} (ha : NoSpace a) {c : UInt8} (t : Bytes) (hc : c < 0x80) :
    laterWords (a ++ c :: t) = laterWords (c :: t) := by
  rw [laterWords, chars_append a t hc, tail_splitOnP_append ha, laterWords]

lemma laterWords_of_noSpace {a : Bytes} (ha : NoSpace a) : laterWords a = [] := by
  rw [laterWords, List.splitOnP_eq_singleton ha]
  rfl

/-- After a blank all words are later ones. -/
lemma laterWords_blank (t : Bytes) : laterWords (32 :: t) = splitWhitespace t := by
  rw [laterWords, chars_cons t (by decide), List.splitOnP_cons_eq_if_modifyHead,
    if_pos (by decide), List.tail_cons, splitWhitespace]

/-- The pieces between separators have none. -/
lemma of_mem_splitOnP {p : Bytes → Bool} {l piece : List Bytes} (h : piece ∈ l.splitOnP p) :
    ∀ c ∈ piece, p c = false ∧ c ∈ l := by
  induction l generalizing piece with
  | nil =>
    rw [List.splitOnP_nil, List.mem_singleton] at h
    simp [h]
  | cons a l ih =>
    rw [List.splitOnP_cons_eq_if_modifyHead] at h
    by_cases ha : p a = true
    · rw [if_pos ha, List.mem_cons] at h
      rcases h with rfl | h
      · simp
      · exact fun c hc => ⟨(ih h c hc).1, List.mem_cons_of_mem _ (ih h c hc).2⟩
    · rw [if_neg ha] at h
      obtain ⟨first, rest, hsplit⟩ :=
        List.exists_cons_of_ne_nil (List.splitOnP_ne_nil p l)
      rw [hsplit, List.modifyHead_cons, List.mem_cons] at h
      rcases h with rfl | h
      · intro c hc
        rcases List.mem_cons.1 hc with rfl | hc
        · exact ⟨by simpa using ha, by simp⟩
        · have hfirst : first ∈ l.splitOnP p := by simp [hsplit]
          have := ih hfirst c hc
          exact ⟨this.1, List.mem_cons_of_mem _ this.2⟩
      · have hpiece : piece ∈ l.splitOnP p := by simp [hsplit, h]
        have hmem := ih hpiece
        exact fun c hc => ⟨(hmem c hc).1, List.mem_cons_of_mem _ (hmem c hc).2⟩

/-- A word has no white space. -/
lemma noSpace_of_mem_splitWhitespace {s w : Bytes} (h : w ∈ splitWhitespace s) : NoSpace w := by
  obtain ⟨piece, hpiece, rfl⟩ := List.mem_map.1 h
  have hmem := of_mem_splitOnP (List.mem_filter.1 hpiece).1
  rw [NoSpace, chars_flatten fun c hc => (hmem c hc).2]
  exact fun c hc => (hmem c hc).1

lemma mem_splitWhitespace_of_mem_laterWords {s w : Bytes} (h : w ∈ laterWords s) :
    w ∈ splitWhitespace s := by
  obtain ⟨piece, hpiece, rfl⟩ := List.mem_map.1 h
  obtain ⟨hmem, hne⟩ := List.mem_filter.1 hpiece
  exact List.mem_map.2 ⟨piece, List.mem_filter.2 ⟨List.mem_of_mem_tail hmem, hne⟩, rfl⟩

/-- The words with a prefix that has no white space. -/
lemma splitWhitespace_append {a : Bytes} (hne : a ≠ []) (hascii : IsAscii a) (ha : NoSpace a)
    (t : Bytes) : ∃ w, splitWhitespace (a ++ t) = (a ++ w) :: laterWords (a ++ t) := by
  have hpieces : ∃ first rest, (chars (a ++ t)).splitOnP isSpace = first :: rest ∧
      ∃ w, first.flatten = a ++ w := by
    clear hne
    induction a with
    | nil =>
      obtain ⟨first, rest, hsplit⟩ :=
        List.exists_cons_of_ne_nil (List.splitOnP_ne_nil isSpace (chars t))
      exact ⟨first, rest, hsplit, first.flatten, rfl⟩
    | cons b a ih =>
      have hb : b < 0x80 := hascii b (by simp)
      rw [NoSpace, chars_cons a hb, List.forall_mem_cons] at ha
      obtain ⟨first, rest, hsplit, w, hw⟩ := ih (fun c hc => hascii c (by simp [hc])) ha.2
      refine ⟨[b] :: first, rest, ?_, w, by simp [hw]⟩
      rw [List.cons_append, chars_cons _ hb, List.splitOnP_cons_eq_if_modifyHead, ha.1,
        if_neg Bool.false_ne_true, hsplit]
      rfl
  obtain ⟨first, rest, hsplit, w, hw⟩ := hpieces
  have hfirst : first ≠ [] := by
    rintro rfl
    exact hne (List.append_eq_nil_iff.1 hw.symm).1
  refine ⟨w, ?_⟩
  rw [splitWhitespace, laterWords, hsplit, List.filter_cons_of_pos (by simpa using hfirst),
    List.map_cons, hw]
  rfl

/-- There are at most as many later words as there is white space. -/
lemma length_laterWords_le (s : Bytes) : (laterWords s).length ≤ (chars s).countP isSpace := by
  have hpieces : ∀ l : List Bytes, (l.splitOnP isSpace).length = l.countP isSpace + 1 := by
    intro l
    induction l with
    | nil => rfl
    | cons c l ih =>
      rw [List.splitOnP_cons_eq_if_modifyHead, List.countP_cons]
      split_ifs with hc
      · rw [List.length_cons, ih]
      · rw [List.length_modifyHead, ih]
  have hfilter := List.length_filter_le (fun w : List Bytes => !w.isEmpty)
    ((chars s).splitOnP isSpace).tail
  rw [List.length_tail, hpieces] at hfilter
  rw [laterWords, List.length_map]
  exact hfilter

/-! ### Parts of a text -/

/-- The part begins with an ASCII byte. -/
def AsciiHead (s : Bytes) : Prop := ∃ c t, s = c :: t ∧ c < 0x80

/-- A text can be taken apart where parts begin with ASCII bytes. -/
lemma chars_flatten_parts {parts : List Bytes} (h : ∀ p ∈ parts, AsciiHead p) :
    chars parts.flatten = parts.flatMap chars := by
  induction parts using List.reverseRecOn with
  | nil => rfl
  | append_singleton parts p ih =>
    obtain ⟨c, t, rfl, hc⟩ := h p (by simp)
    rw [List.flatten_append, List.flatten_singleton, chars_append _ _ hc,
      ih fun p hp => h p (by simp [hp]), List.flatMap_append, List.flatMap_singleton]

lemma noSpace_flatten {parts : List Bytes} (h : ∀ p ∈ parts, AsciiHead p ∧ NoSpace p) :
    NoSpace parts.flatten := by
  intro c hc
  rw [chars_flatten_parts fun p hp => (h p hp).1] at hc
  obtain ⟨p, hp, hc⟩ := List.mem_flatMap.1 hc
  exact (h p hp).2 c hc

/-- Parts without white space go into the first word. -/
lemma laterWords_flatten {parts : List Bytes} (h : ∀ p ∈ parts, AsciiHead p ∧ NoSpace p)
    {s : Bytes} (hs : AsciiHead s) : laterWords (parts.flatten ++ s) = laterWords s := by
  obtain ⟨c, t, rfl, hc⟩ := hs
  exact laterWords_append (noSpace_flatten h) t hc

/-- The bytes are ASCII characters that can be seen. -/
def Visible (s : Bytes) : Prop := ∀ b ∈ s, 32 < b ∧ b < 0x80

instance (s : Bytes) : Decidable (Visible s) := List.decidableBAll (fun b => 32 < b ∧ b < 0x80) s

lemma Visible.isAscii {s : Bytes} (h : Visible s) : IsAscii s := fun b hb => (h b hb).2

lemma Visible.append {s t : Bytes} (hs : Visible s) (ht : Visible t) : Visible (s ++ t) :=
  List.forall_mem_append.2 ⟨hs, ht⟩

lemma Visible.asciiHead {s : Bytes} (h : Visible s) (hne : s ≠ []) : AsciiHead s := by
  obtain ⟨b, t, rfl⟩ := List.exists_cons_of_ne_nil hne
  exact ⟨b, t, rfl, (h b (by simp)).2⟩

lemma isSpace_byte {b : UInt8} (h : isSpace [b] = true) : b ≤ 32 := by
  have hmem : b = 9 ∨ b = 10 ∨ b = 11 ∨ b = 12 ∨ b = 13 ∨ b = 32 := by
    simpa [isSpace, whitespace] using h
  rcases hmem with rfl | rfl | rfl | rfl | rfl | rfl <;> decide

lemma Visible.noSpace {s : Bytes} (h : Visible s) : NoSpace s := by
  intro c hc
  rw [chars_of_isAscii h.isAscii] at hc
  obtain ⟨b, hb, rfl⟩ := List.mem_map.1 hc
  rw [← Bool.not_eq_true]
  exact fun hspace => UInt8.not_le.2 (h b hb).1 (isSpace_byte hspace)

lemma Visible.part {s : Bytes} (h : Visible s) (hne : s ≠ []) : AsciiHead s ∧ NoSpace s :=
  ⟨h.asciiHead hne, h.noSpace⟩

lemma visible_digits {l : List Char} (h : ∀ c ∈ l, c.isDigit = true) :
    Visible (l.map fun c => c.toNat.toUInt8) := by
  intro b hb
  obtain ⟨c, hc, rfl⟩ := List.mem_map.1 hb
  have hdigit := h c hc
  simp only [Char.isDigit, Bool.and_eq_true, decide_eq_true_eq] at hdigit
  have hlow : 48 ≤ c.toNat := UInt32.le_iff_toNat_le.1 hdigit.1
  have hhigh : c.toNat ≤ 57 := UInt32.le_iff_toNat_le.1 hdigit.2
  have hbyte : c.toNat.toUInt8.toNat = c.toNat := by
    rw [Nat.toUInt8_eq, UInt8.toNat_ofNat', Nat.mod_eq_of_lt (by omega)]
  constructor
  · rw [UInt8.lt_iff_toNat_lt, hbyte]
    exact lt_of_lt_of_le (by decide) hlow
  · rw [UInt8.lt_iff_toNat_lt, hbyte]
    exact lt_of_le_of_lt hhigh (by decide)

lemma visible_decimal (n : ℕ) : Visible (decimal n) := by
  rw [decimal_eq]
  exact visible_digits fun c hc => Nat.isDigit_of_mem_toDigits (by decide) (by decide) hc

/-- There is nothing to trim. -/
lemma trim_of_visible {s : Bytes} (h : Visible s) : trim s = s := by
  have hdrop : ∀ pieces : List Bytes, (∀ p ∈ pieces, ∃ b t, p = b :: t ∧ (b ≤ 32 ∨ 0x80 ≤ b)) →
      ∀ (n : ℕ) {s : Bytes}, Visible s → dropPieces pieces n s = s := by
    intro pieces hpieces n s hs
    cases n with
    | zero => rfl
    | succ n =>
      have hnone : pieces.find? (·.isPrefixOf s) = none := by
        rw [List.find?_eq_none]
        intro p hp hprefix
        obtain ⟨b, t, rfl, hb⟩ := hpieces p hp
        obtain ⟨rest, rfl⟩ := List.isPrefixOf_iff_prefix.1 hprefix
        obtain ⟨hlow, hhigh⟩ := hs b (by simp)
        exact hb.elim (UInt8.not_le.2 hlow) (UInt8.not_le.2 hhigh)
      rw [dropPieces, hnone]
  have hfront : ∀ p ∈ whitespace, ∃ b t, p = b :: t ∧ (b ≤ 32 ∨ 0x80 ≤ b) := by
    simp [whitespace]
  have hback : ∀ p ∈ whitespace.map List.reverse, ∃ b t, p = b :: t ∧ (b ≤ 32 ∨ 0x80 ≤ b) := by
    simp [whitespace]
  have hreverse : Visible s.reverse := fun b hb => h b (List.mem_reverse.1 hb)
  simp only [trim, hdrop _ hfront _ h, hdrop _ hback _ hreverse, List.reverse_reverse]

/-- Lower case is a matter of the bytes. -/
lemma toLowercase_of_isAscii {s : Bytes} (h : IsAscii s) : toLowercase s = s.map lowerByte := by
  rw [toLowercase, chars_of_isAscii h, List.flatMap_map]
  simp [← List.map_eq_flatMap]

/-! ### Lines -/

/-- A text without a line feed is one line. -/
lemma lines_of_not_mem {s : Bytes} (hne : s ≠ []) (h : 10 ∉ s) : lines s = [s] := by
  have hno : ∀ l ∈ [s], (10 : UInt8) ∉ l := by simpa using h
  have hsplit : s.splitOn 10 = [s] := by simpa using List.splitOn_intercalate 10 hno (by simp)
  simp [lines, hsplit, hne]

/-! ### The characters of a path -/

/-- How often a character occurs in a component. -/
def Component.countChar (c : Bytes) : Component → ℕ
  | .normal n => (chars n).count c
  | _ => 0

/-- A separator is a character of its own. -/
lemma count_chars_splitOn {c : Bytes} (hc : c ≠ [slash]) (bs : Bytes) :
    (chars bs).count c = ((bs.splitOn slash).map fun piece => (chars piece).count c).sum := by
  have hjoin : ∀ pieces : List Bytes, (chars ([slash].intercalate pieces)).count c =
      (pieces.map fun piece => (chars piece).count c).sum := by
    intro pieces
    induction pieces with
    | nil => simp
    | cons p pieces ih =>
      cases pieces with
      | nil => simp
      | cons q pieces =>
        rw [List.intercalate_cons_cons, List.append_assoc, List.singleton_append,
          chars_append _ _ slash_lt, chars_cons _ slash_lt, List.count_append,
          List.count_cons_of_ne hc.symm, ih]
        rfl
  have hbs : [slash].intercalate (bs.splitOn slash) = bs := List.intercalate_splitOn slash
  rw [← hjoin, hbs]

lemma count_chars_piece {c : Bytes} (hc : c ≠ [dot]) (piece : Bytes) :
    (chars piece).count c =
      ((Component.parse piece).toList.map (Component.countChar c)).sum := by
  rw [Component.parse]
  split_ifs with hnil hdot hdots
  · simp [hnil]
  · have : chars [dot] = [[dot]] := by decide
    simp [hdot, this, hc.symm]
  · have : chars [dot, dot] = [[dot], [dot]] := by decide
    simp [hdots, this, hc.symm, Component.countChar]
  · simp [Component.countChar]

lemma sum_count_chars {c : Bytes} (hc : c ≠ [dot]) (pieces : List Bytes) :
    (pieces.map fun piece => (chars piece).count c).sum =
      ((pieces.filterMap Component.parse).map (Component.countChar c)).sum := by
  induction pieces with
  | nil => rfl
  | cons p pieces ih =>
    rw [List.map_cons, List.sum_cons, ih, count_chars_piece hc]
    cases hparse : Component.parse p <;> simp [hparse]

/-- How often a character occurs in a path, by its components. -/
lemma count_chars_eq_sum {c : Bytes} (hslash : c ≠ [slash]) (hdot : c ≠ [dot]) (p : PathBuf) :
    (chars p.bytes).count c = (p.components.map (Component.countChar c)).sum := by
  rw [count_chars_splitOn hslash, PathBuf.components]
  cases hroot : p.hasRoot with
  | true =>
    obtain ⟨bs⟩ := p
    cases bs with
    | nil => cases hroot
    | cons b t =>
      obtain rfl : b = slash := by simpa [PathBuf.hasRoot] using hroot
      have hsplit : (slash :: t).splitOn slash = [] :: t.splitOn slash := by
        simp [List.splitOn_cons_eq_if_modifyHead]
      rw [if_pos rfl, hsplit, List.map_cons, List.sum_cons, sum_count_chars hdot]
      simp [Component.countChar]
  | false =>
    rw [if_neg Bool.false_ne_true]
    cases hsplit : p.bytes.splitOn slash with
    | nil => rfl
    | cons first rest =>
      simp only [List.map_cons, List.sum_cons, List.map_append, List.sum_append,
        sum_count_chars hdot, count_chars_piece hdot first]
      congr 1
      split_ifs with hcur
      · simp [hcur, Component.parse, Component.countChar]
      · rfl

/-- Equal paths have the same characters, separators and dots apart. -/
lemma count_chars_congr {p q : PathBuf} (h : (p == q) = true) {c : Bytes} (hslash : c ≠ [slash])
    (hdot : c ≠ [dot]) : (chars p.bytes).count c = (chars q.bytes).count c := by
  rw [count_chars_eq_sum hslash hdot, count_chars_eq_sum hslash hdot, PathBuf.beq_iff.1 h]

/-- A path that equals one without white space has none. -/
lemma noSpace_of_beq {p q : PathBuf} (h : (p == q) = true) (hp : NoSpace p.bytes) :
    NoSpace q.bytes := by
  intro c hc
  by_contra hspace
  have hslash : c ≠ [slash] := by
    rintro rfl
    exact hspace (by decide)
  have hdot : c ≠ [dot] := by
    rintro rfl
    exact hspace (by decide)
  have hpos := List.count_pos_iff.2 hc
  rw [← count_chars_congr h hslash hdot, List.count_pos_iff] at hpos
  exact hspace (hp c hpos)

end Racfs
