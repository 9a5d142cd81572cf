/-
# The JSON texts of metadata

The bodies that the server sends for the metadata of a file (`racfs-server/src/api/metadata.rs`)
and for a listing (`racfs-server/src/api/directories.rs`), as `serde_json` writes them: the fields
in their order and nothing between them.  Strings are escaped, which keeps the characters of a
text other than quotation marks, backslashes and control characters
(`chars_flatMap_escapeByte`).

The text of a time is a parameter, which writes a date and a time of day with a blank between
them (`WritesMinutes`).
-/
import Racfs.Client
import Racfs.Lib.Decimal
import Racfs.Lib.Words
import Racfs.Server.Metadata

namespace Racfs.Server

open Client Utf8

/-- A string. -/
def jsonString (s : Bytes) : Bytes := escaped.toVec s

/-- A string or `null`. -/
def jsonOption : Option Bytes → Bytes
  | some s => jsonString s
  | none => ascii "null"

/-- The parts of the body for the metadata of a file. -/
def MetadataResponse.parts (r : MetadataResponse) : List Bytes :=
  [ascii "\x7b\"file_type\":", jsonString (ascii r.fileType), ascii ",\"permissions\":",
    jsonString (ascii r.permissions), ascii ",\"size\":", decimal r.size.toNat,
    ascii ",\"modified\":", jsonOption (r.modified.map ascii), ascii ",\"path\":",
    jsonString r.path, ascii ",\"symlink_target\":", jsonOption r.symlinkTarget, ascii "\x7d"]

/-- The body for the metadata of a file. -/
def MetadataResponse.toVec (r : MetadataResponse) : Bytes := r.parts.flatten

/-- The parts of an entry of a listing. -/
def DirectoryEntry.parts (e : DirectoryEntry) : List Bytes :=
  [ascii "\x7b\"permissions\":", jsonString (ascii e.permissions), ascii ",\"size\":",
    decimal e.size.toNat, ascii ",\"modified\":", jsonOption (e.modified.map ascii),
    ascii ",\"path\":", jsonString e.path, ascii ",\"file_type\":",
    jsonString (ascii e.fileType), ascii "\x7d"]

/-- The body for a listing. -/
def listingToVec (entries : List DirectoryEntry) : Bytes :=
  ascii "\x7b\"entries\":[" ++
    (ascii ",").intercalate (entries.map fun e => e.parts.flatten) ++ ascii "]\x7d"

lemma MetadataResponse.toVec_eq (r : MetadataResponse) :
    r.toVec = ascii "\x7b\"file_type\":" ++ r.parts.tail.flatten := rfl

/-- The format `%Y-%m-%d %H:%M`: a date, a blank, a time of day. -/
def WritesMinutes (format : DateTime → String) : Prop :=
  ∀ t, ∃ date time, ascii (format t) = date ++ 32 :: time ∧ Visible date ∧ Visible time

/-! ### Escaped strings -/

lemma visible_hexDigits (x n : ℕ) : Visible ((hexDigits x n).map fun c => c.toNat.toUInt8) := by
  have hdigit : ∀ d : Fin 16, 32 < (Nat.digitChar d).toNat.toUInt8 ∧
      (Nat.digitChar d).toNat.toUInt8 < 0x80 := by decide
  induction n generalizing x with
  | zero => simp [hexDigits, Visible]
  | succ n ih =>
    rw [hexDigits, List.map_append]
    refine (ih (x / 16)).append ?_
    simpa [Visible] using hdigit ⟨x % 16, Nat.mod_lt x (by decide)⟩

/-- An ASCII byte is escaped by visible characters, unless it is a blank. -/
lemma visible_escapeByte {b : UInt8} (h : b < 0x80) (hblank : b ≠ 32) :
    Visible (escapeByte b) := by
  rw [escapeByte]
  split_ifs with h1 h2 h3 h4 h5 h6 h7 h8
  · decide
  · decide
  · decide
  · decide
  · decide
  · decide
  · decide
  · exact Visible.append (by decide) (visible_hexDigits _ _)
  · have hlt : 32 < b := UInt8.lt_of_le_of_ne (UInt8.not_lt.1 h8) (Ne.symm hblank)
    simpa [Visible] using ⟨hlt, h⟩

lemma escapeByte_blank : escapeByte 32 = [32] := by decide

lemma visible_flatMap_escapeByte {s : Bytes} (h : Visible s) : Visible (s.flatMap escapeByte) := by
  intro b hb
  obtain ⟨c, hc, hb⟩ := List.mem_flatMap.1 hb
  refine visible_escapeByte (h c hc).2 ?_ b hb
  rintro rfl
  exact absurd (h 32 hc).1 (by decide)

lemma visible_jsonString {s : Bytes} (h : Visible s) : Visible (jsonString s) := by
  refine Visible.append (s := quote :: s.flatMap escapeByte) ?_ (by decide)
  exact List.forall_mem_cons.2 ⟨by decide, visible_flatMap_escapeByte h⟩

lemma asciiHead_jsonString (s : Bytes) : AsciiHead (jsonString s) :=
  ⟨quote, _, rfl, by decide⟩

/-- The characters of an escaped character. -/
def escapeChar : Bytes → List Bytes
  | [b] => (escapeByte b).map fun c => [c]
  | c => [c]

lemma escapeByte_of_le {b : UInt8} (h : 0x80 ≤ b) : escapeByte b = [b] := by
  have hnot : ∀ c : UInt8, c < 0x80 → b ≠ c := by
    rintro c hc rfl
    exact UInt8.not_le.2 hc h
  have hge : ¬ b < 32 := UInt8.not_lt.2 (UInt8.le_trans (by decide) h)
  rw [escapeByte, if_neg (hnot _ (by decide)), if_neg (hnot _ (by decide)),
    if_neg (hnot _ (by decide)), if_neg (hnot _ (by decide)), if_neg (hnot _ (by decide)),
    if_neg (hnot _ (by decide)), if_neg (hnot _ (by decide)), if_neg hge]

lemma isAscii_escapeByte {b : UInt8} (h : b < 0x80) : IsAscii (escapeByte b) := by
  by_cases hblank : b = 32
  · rw [hblank]
    decide
  · exact (visible_escapeByte h hblank).isAscii

/-- A byte is escaped by visible characters or stands for itself. -/
lemma escapeByte_cases (b : UInt8) : Visible (escapeByte b) ∨ escapeByte b = [b] := by
  by_cases hlt : b < 0x80
  · by_cases hblank : b = 32
    · exact Or.inr (by rw [hblank, escapeByte_blank])
    · exact Or.inl (visible_escapeByte hlt hblank)
  · exact Or.inr (escapeByte_of_le (UInt8.not_lt.1 hlt))

/-- An ASCII text in front of another one is taken apart into its bytes. -/
lemma chars_append_of_isAscii {w : Bytes} (hw : IsAscii w) (t : Bytes) :
    chars (w ++ t) = (w.map fun c => [c]) ++ chars t := by
  induction w with
  | nil => rfl
  | cons c w ih =>
    rw [List.cons_append, chars_cons _ (hw c (by simp)), ih fun d hd => hw d (by simp [hd])]
    rfl

/-- The bytes of the other characters stand for themselves. -/
lemma flatMap_escapeByte_of_le {l : Bytes} (hl : ∀ b ∈ l, 0x80 ≤ b) : l.flatMap escapeByte = l := by
  induction l with
  | nil => rfl
  | cons b l ih =>
    rw [List.flatMap_cons, escapeByte_of_le (hl b (by simp)), ih fun c hc => hl c (by simp [hc])]
    rfl

lemma escapeChar_of_le {c : Bytes} (hc : ∀ b ∈ c, 0x80 ≤ b) : escapeChar c = [c] := by
  match c with
  | [] => rfl
  | [b] =>
    rw [escapeChar, escapeByte_of_le (hc b (by simp))]
    rfl
  | _ :: _ :: _ => rfl

/-- A text is escaped character by character. -/
lemma chars_flatMap_escapeByte (bs : Bytes) :
    chars ((fromUtf8Lossy bs).flatMap escapeByte) = (chars bs).flatMap escapeChar := by
  induction bs using chunk_induction with
  | hnil => rfl
  | hcons bs hne ih =>
    rw [fromUtf8Lossy_of_ne_nil hne, List.flatMap_append, chars_of_ne_nil hne, List.flatMap_cons,
      ← ih]
    by_cases hascii : ∃ b ∈ chunkText bs, b < 0x80
    · obtain ⟨b, hb, hlt⟩ := hascii
      rw [chunkText_eq_of_mem hne hb hlt, List.flatMap_singleton,
        chars_append_of_isAscii (isAscii_escapeByte hlt)]
      rfl
    · push Not at hascii
      -- a character of several bytes stands for itself
      have hle : ∀ b ∈ chunkText bs, 0x80 ≤ b := fun b hb => UInt8.not_lt.1 (hascii b hb)
      rw [flatMap_escapeByte_of_le hle, chars_chunkText_append hne, escapeChar_of_le hle]
      rfl

/-- The characters of a string in JSON. -/
lemma chars_jsonString (bs : Bytes) :
    chars (jsonString (fromUtf8Lossy bs)) =
      [quote] :: (chars bs).flatMap escapeChar ++ [[quote]] := by
  have hjson : jsonString (fromUtf8Lossy bs) =
      quote :: ((fromUtf8Lossy bs).flatMap escapeByte ++ quote :: []) := rfl
  rw [hjson, chars_cons _ (by decide), chars_append _ _ (by decide), chars_flatMap_escapeByte,
    chars_cons _ (by decide)]
  rfl

/-- Escaping brings no white space. -/
lemma noSpace_jsonString {bs : Bytes} (h : NoSpace bs) :
    NoSpace (jsonString (fromUtf8Lossy bs)) := by
  rw [NoSpace, chars_jsonString]
  have hquote : isSpace [quote] = false := by decide
  have hmid : ∀ c ∈ (chars bs).flatMap escapeChar, isSpace c = false := by
    intro c hc
    obtain ⟨d, hd, hc⟩ := List.mem_flatMap.1 hc
    rcases d with _ | ⟨b, _ | ⟨b', d⟩⟩
    · exact List.mem_singleton.1 hc ▸ h [] hd
    · obtain ⟨e, he, rfl⟩ := List.mem_map.1 hc
      rcases escapeByte_cases b with hvisible | hself
      · refine hvisible.noSpace [e] ?_
        rw [chars_of_isAscii hvisible.isAscii]
        exact List.mem_map_of_mem he
      · rw [hself, List.mem_singleton] at he
        exact he ▸ h [b] hd
    · exact List.mem_singleton.1 hc ▸ h (b :: b' :: d) hd
  intro c hc
  rcases List.mem_append.1 hc with hc | hc
  · rcases List.mem_cons.1 hc with rfl | hc
    · exact hquote
    · exact hmid c hc
  · exact List.mem_singleton.1 hc ▸ hquote

/-- Escaping loses no character but quotation marks, backslashes and control characters. -/
lemma count_chars_le_jsonString (bs : Bytes) {b : UInt8} (hb : escapeByte b = [b]) :
    (chars bs).count [b] ≤ (chars (jsonString (fromUtf8Lossy bs))).count [b] := by
  have hmid : ∀ l : List Bytes, l.count [b] ≤ (l.flatMap escapeChar).count [b] := by
    intro l
    induction l with
    | nil => exact le_rfl
    | cons c l ih =>
      rw [List.flatMap_cons, List.count_append]
      by_cases hc : c = [b]
      · subst hc
        have hone : (escapeChar [b]).count [b] = 1 := by simp [escapeChar, hb]
        rw [List.count_cons_self, hone]
        omega
      · rw [List.count_cons_of_ne hc]
        omega
  have hle := hmid (chars bs)
  rw [chars_jsonString, List.count_append, List.count_cons]
  omega

/-! ### Numbers -/

lemma visible_octal (n : ℕ) : Visible (ascii (octal n)) := by
  rw [ascii, octal, String.toList_ofList]
  exact visible_digits fun c hc => Nat.isDigit_of_mem_toDigits (by decide) (by decide) hc

/-- A string in JSON is on one line. -/
lemma not_mem_jsonString (s : Bytes) : 10 ∉ jsonString s := by
  have hbyte : ∀ b, (10 : UInt8) ∉ escapeByte b := by
    intro b hmem
    rcases escapeByte_cases b with hvisible | hself
    · exact absurd (hvisible 10 hmem).1 (by decide)
    · rw [hself, List.mem_singleton] at hmem
      rw [← hmem] at hself
      exact absurd hself (by decide)
  intro hmem
  rcases List.mem_append.1 hmem with hmem | hmem
  · rcases List.mem_cons.1 hmem with hmem | hmem
    · exact absurd hmem (by decide)
    · obtain ⟨b, -, hb⟩ := List.mem_flatMap.1 hmem
      exact hbyte b hb
  · exact absurd hmem (by decide)

end Racfs.Server
