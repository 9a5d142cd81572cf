/-
# Metadata through a remote server

The server sends metadata as JSON, and `ProxyFS` reads words between white space.  The two have
no more to do with each other than this: a JSON text has white space only inside of its strings,
and so the words that `stat` looks at are pieces of a path, of a time or of the target of a link.

So `stat` gives the metadata back only where the target of a link happens to contain them as
words (`TargetTells`), and a listing never comes back: it is one line of JSON, which is one entry
that is not the one that was sent (`roundTrips_iff`).
-/
import Mathlib.Data.List.Forall2
import Racfs.ProxyFs.Model
import Racfs.Server.Json

namespace Racfs.ProxyFs

open Server Client

/-- The metadata agree in what the server sends: path, size, file type and permission bits. -/
structure SameShown (m m' : FileMetadata) : Prop where
  path : (m.path == m'.path) = true
  size : m.size = m'.size
  fileType : m.fileType = m'.fileType
  permissions : m.permissions = m'.permissions

variable (format : DateTime → String) (fs : ProxyFS)

/-- `stat` gives back the metadata that the server sends. -/
def StatRoundTrips (path : PathBuf) (m : FileMetadata) : Prop :=
  ∃ m', fs.stat (fun _ => .ok ⟨200, .ok (MetadataResponse.ofMetadata format m).toVec⟩) path =
    .ok (.metadata m') ∧ SameShown m m'

/-- `read_dir` gives back the metadata that the server sends, one for each entry. -/
def ReadDirRoundTrips (path : PathBuf) (now : DateTime) (ms : List FileMetadata) : Prop :=
  ∃ ms' ms'', fs.readDir (fun _ => .ok ⟨200, .ok (listingToVec
      (ms.map (DirectoryEntry.ofMetadata format)))⟩) path now = .ok (.entries ms') ∧
    ms'.Perm ms'' ∧ List.Forall₂ SameShown ms ms''

/-- The words after the first one say what the metadata are, as `stat` reads them. -/
def Tells (m : FileMetadata) : List Bytes → Prop
  | mode :: size :: _ :: path :: _ => SameShown m (ofWords mode size path)
  | _ => False

/-- The file type is written with a blank. -/
def IsDevice (m : FileMetadata) : Prop :=
  m.fileType = "character device" ∨ m.fileType = "block device"

/-- The target of a link says what its metadata are: the words of its text, after the first one
and with the end of the body, are the mode, the size, any word, and the path.  If there is a time
of modification, no mode is among the words, and it is taken to be `0o644`. -/
def TargetTells (m : FileMetadata) : Prop :=
  NoSpace m.path.toStringLossy ∧ ¬ IsDevice m ∧ ∃ target, m.symlinkTarget = some target ∧
    Tells m ((m.modified.toList.map fun _ => []) ++
      laterWords (jsonString target.toStringLossy ++ ascii "\x7d"))

variable {format fs}

/-! ### The words of the body -/

lemma parseU32_eq_none {s : Bytes} (h : quote ∈ s) : parseU32 s = none := by
  rw [parseU32]
  have hdigit : isDigit quote = false := by decide
  have hmem : quote ∈ if s.head? = some 43 then s.tail else s := by
    split_ifs with hplus
    · cases s with
      | nil => cases h
      | cons b t =>
        obtain rfl := Option.some.inj hplus
        exact (List.mem_cons.1 h).resolve_left (by decide)
    · exact h
  rw [if_neg]
  rintro ⟨-, hall, -⟩
  rw [List.all_eq_true.1 hall quote hmem] at hdigit
  cases hdigit

/-- Only the mode that a word stands for matters. -/
lemma tells_cons_congr {m : FileMetadata} {w w' : Bytes} (h : parseU32 w = parseU32 w')
    (ws : List Bytes) : Tells m (w :: ws) ↔ Tells m (w' :: ws) := by
  have hwords : ∀ size path, ofWords w size path = ofWords w' size path := by
    intro size path
    rw [ofWords, ofWords, h]
  match ws with
  | size :: _ :: path :: _ => rw [Tells, Tells, hwords]
  | [] | [_] | [_, _] => rfl

lemma stat_of_text (path : PathBuf) (text : Bytes) :
    fs.stat (fun _ => .ok ⟨200, .ok text⟩) path = (parseStat text).map .metadata := rfl

lemma readDir_of_text (path : PathBuf) (now : DateTime) (text : Bytes) :
    fs.readDir (fun _ => .ok ⟨200, .ok text⟩) path now = .ok (.entries (parseListing now text)) :=
  rfl

/-- `stat` goes by the words after the first one. -/
lemma statRoundTrips_iff {path : PathBuf} {m : FileMetadata} :
    StatRoundTrips format fs path m ↔
      Tells m (laterWords (MetadataResponse.ofMetadata format m).toVec) := by
  rw [StatRoundTrips, stat_of_text, parseStat]
  obtain ⟨w, hw⟩ : ∃ w, splitWhitespace (MetadataResponse.ofMetadata format m).toVec =
      w :: laterWords (MetadataResponse.ofMetadata format m).toVec := by
    have hhead : Visible (ascii "\x7b\"file_type\":") := by decide
    obtain ⟨w, hw⟩ := splitWhitespace_append (by decide) hhead.isAscii hhead.noSpace
      (MetadataResponse.ofMetadata format m).parts.tail.flatten
    rw [← MetadataResponse.toVec_eq] at hw
    exact ⟨_, hw⟩
  rw [hw]
  rcases laterWords (MetadataResponse.ofMetadata format m).toVec with
    _ | ⟨mode, _ | ⟨size, _ | ⟨x, _ | ⟨path, rest⟩⟩⟩⟩
  · simp [Tells]
  · simp [Tells]
  · simp [Tells]
  · simp [Tells]
  · simp only [Outcome.map_ok, Outcome.ok.injEq, Reply.metadata.injEq, exists_eq_left', Tells]

/-- A time is written with one blank. -/
lemma jsonString_minutes (date : Bytes) {time : Bytes} (hdate : Visible date)
    (htime : Visible time) :
    ∃ before after, jsonString (date ++ 32 :: time) = before ++ 32 :: after ∧
      (AsciiHead before ∧ NoSpace before) ∧ Visible after ∧ quote ∈ after := by
  refine ⟨quote :: date.flatMap escapeByte, time.flatMap escapeByte ++ [quote], ?_, ?_, ?_, ?_⟩
  · show quote :: (date ++ 32 :: time).flatMap escapeByte ++ [quote] = _
    rw [List.flatMap_append, List.flatMap_cons, escapeByte_blank]
    simp
  · have hvisible : Visible (quote :: date.flatMap escapeByte) :=
      List.forall_mem_cons.2 ⟨by decide, visible_flatMap_escapeByte hdate⟩
    exact hvisible.part (by simp)
  · exact (visible_flatMap_escapeByte htime).append (by decide)
  · simp

/-- The words of a device are written with one blank. -/
lemma jsonString_device {m : FileMetadata} (h : IsDevice m) :
    ∃ before after, jsonString (ascii m.fileType) = before ++ 32 :: after ∧
      (AsciiHead before ∧ NoSpace before) ∧ Visible after ∧ quote ∈ after := by
  have hdevice : Visible (ascii "device") := by decide
  rcases h with h | h <;> rw [h]
  · exact jsonString_minutes (ascii "character") (by decide) hdevice
  · exact jsonString_minutes (ascii "block") (by decide) hdevice

/-- The other words have none. -/
lemma visible_fileType {m : FileMetadata} (h : ¬ IsDevice m) : Visible (ascii m.fileType) := by
  rw [IsDevice, FileMetadata.fileType] at h
  rw [FileMetadata.fileType]
  generalize m.mode &&& S_IFMT = t at h ⊢
  rw [FileMetadata.typeWord] at h ⊢
  split_ifs at h ⊢ <;> first | decide | exact absurd h (by decide)

/-- The parts of the body, from the file type to the end. -/
lemma toVec_ofMetadata (m : FileMetadata) :
    (MetadataResponse.ofMetadata format m).toVec =
      [ascii "\x7b\"file_type\":", jsonString (ascii m.fileType), ascii ",\"permissions\":",
        jsonString (ascii (octal m.permissions.toNat)), ascii ",\"size\":",
        decimal m.size.toNat, ascii ",\"modified\":"].flatten ++
      (jsonOption ((m.modified.map format).map ascii) ++
        ([ascii ",\"path\":", jsonString m.path.toStringLossy,
          ascii ",\"symlink_target\":"].flatten ++
            (jsonOption (m.symlinkTarget.map PathBuf.toStringLossy) ++ ascii "\x7d"))) := by
  simp [MetadataResponse.toVec, MetadataResponse.parts, MetadataResponse.ofMetadata]

lemma decimal_ne_nil (n : ℕ) : decimal n ≠ [] := List.ne_nil_of_length_pos (decimal_length_pos n)

/-- The parts before the time have no white space. -/
lemma part_of_mem_front {m : FileMetadata} (h : ¬ IsDevice m) :
    ∀ p ∈ [ascii "\x7b\"file_type\":", jsonString (ascii m.fileType), ascii ",\"permissions\":",
        jsonString (ascii (octal m.permissions.toNat)), ascii ",\"size\":",
        decimal m.size.toNat, ascii ",\"modified\":"], AsciiHead p ∧ NoSpace p := by
  simp only [List.forall_mem_cons]
  have hstring {s : Bytes} (hs : Visible s) : AsciiHead (jsonString s) ∧ NoSpace (jsonString s) :=
    (visible_jsonString hs).part (by simp [jsonString, escaped])
  refine ⟨?_, hstring (visible_fileType h), ?_, hstring (visible_octal _), ?_,
    (visible_decimal _).part (decimal_ne_nil _), ?_, by simp⟩
  all_goals exact Visible.part (by decide) (by decide)

/-- The parts around the path have none if the path has none. -/
lemma part_of_mem_back {path : PathBuf} (h : NoSpace path.toStringLossy) :
    ∀ p ∈ [ascii ",\"path\":", jsonString path.toStringLossy, ascii ",\"symlink_target\":"],
      AsciiHead p ∧ NoSpace p := by
  have hbs : NoSpace path.bytes := by rwa [NoSpace, PathBuf.toStringLossy, chars_fromUtf8Lossy] at h
  simp only [List.forall_mem_cons]
  refine ⟨Visible.part (by decide) (by decide),
    ⟨asciiHead_jsonString _, noSpace_jsonString hbs⟩, Visible.part (by decide) (by decide), by simp⟩

/-- The end of the body. -/
lemma asciiHead_target (target : Option Bytes) : AsciiHead (jsonOption target ++ ascii "\x7d") := by
  cases target with
  | none => exact ⟨110, _, rfl, by decide⟩
  | some t => exact ⟨quote, _, rfl, by decide⟩

/-- The later words of the body are those of the target, after the time of day if there is a
time. -/
lemma laterWords_toVec (hformat : WritesMinutes format) {m : FileMetadata} (hdevice : ¬ IsDevice m)
    (hpath : NoSpace m.path.toStringLossy) :
    ∃ times : List Bytes, times.map parseU32 = m.modified.toList.map (fun _ => none) ∧
      laterWords (MetadataResponse.ofMetadata format m).toVec = times ++
        laterWords (jsonOption (m.symlinkTarget.map PathBuf.toStringLossy) ++ ascii "\x7d") := by
  rw [toVec_ofMetadata]
  have hfront := part_of_mem_front hdevice
  have hback := part_of_mem_back hpath
  have htarget := asciiHead_target (m.symlinkTarget.map PathBuf.toStringLossy)
  generalize jsonOption (m.symlinkTarget.map PathBuf.toStringLossy) ++ ascii "\x7d" = target
    at htarget ⊢
  generalize [ascii "\x7b\"file_type\":", jsonString (ascii m.fileType), _, _, _, _, _] = front
    at hfront ⊢
  generalize [ascii ",\"path\":", jsonString m.path.toStringLossy, _] = back at hback ⊢
  cases m.modified with
  | none =>
    have hnull : Visible (ascii "null") := by decide
    have hparts : ∀ p ∈ front ++ ascii "null" :: back, AsciiHead p ∧ NoSpace p :=
      List.forall_mem_append.2 ⟨hfront, List.forall_mem_cons.2 ⟨hnull.part (by decide), hback⟩⟩
    have htext : front.flatten ++ (ascii "null" ++ (back.flatten ++ target)) =
        (front ++ ascii "null" :: back).flatten ++ target := by simp
    exact ⟨[], rfl, (congrArg laterWords htext).trans (laterWords_flatten hparts htarget)⟩
  | some t =>
    obtain ⟨date, time, htime, hdate, hminutes⟩ := hformat t
    obtain ⟨before, after, hjson, hbefore, hafter, hquote⟩ := jsonString_minutes date hdate hminutes
    have hne : after ≠ [] := List.ne_nil_of_mem hquote
    have hparts : ∀ p ∈ front ++ [before], AsciiHead p ∧ NoSpace p :=
      List.forall_mem_append.2 ⟨hfront, List.forall_mem_singleton.2 hbefore⟩
    have htext : front.flatten ++ (jsonString (ascii (format t)) ++ (back.flatten ++ target)) =
        (front ++ [before]).flatten ++ 32 :: (after ++ (back.flatten ++ target)) := by
      rw [htime, hjson]
      simp
    have hrest : laterWords (after ++ (back.flatten ++ target)) = laterWords target := by
      have hall : ∀ p ∈ after :: back, AsciiHead p ∧ NoSpace p :=
        List.forall_mem_cons.2 ⟨hafter.part hne, hback⟩
      have := laterWords_flatten hall htarget
      rwa [List.flatten_cons, List.append_assoc] at this
    obtain ⟨w, hw⟩ := splitWhitespace_append hne hafter.isAscii hafter.noSpace
      (back.flatten ++ target)
    refine ⟨[after ++ w], ?_, ?_⟩
    · simp [parseU32_eq_none (s := after ++ w) (List.mem_append_left _ hquote)]
    · refine (congrArg laterWords htext).trans ?_
      rw [laterWords_flatten hparts ⟨32, _, rfl, by decide⟩, laterWords_blank, hw, hrest]
      rfl

/-- The type of a device does not come back: `device` stands where the mode should be. -/
lemma not_tells_of_isDevice {m : FileMetadata} (h : IsDevice m) :
    ¬ Tells m (laterWords (MetadataResponse.ofMetadata format m).toVec) := by
  obtain ⟨before, after, hjson, hbefore, hafter, hquote⟩ := jsonString_device h
  have hhead : Visible (ascii "\x7b\"file_type\":") := by decide
  rw [toVec_ofMetadata, List.flatten_cons, List.flatten_cons, hjson]
  simp only [List.append_assoc, List.cons_append]
  generalize (List.flatten _ ++ _ : Bytes) = rest
  have htext : ascii "\x7b\"file_type\":" ++ (before ++ 32 :: (after ++ rest)) =
      [ascii "\x7b\"file_type\":", before].flatten ++ 32 :: (after ++ rest) := by simp
  obtain ⟨w, hw⟩ := splitWhitespace_append (List.ne_nil_of_mem hquote) hafter.isAscii
    hafter.noSpace rest
  rw [htext, laterWords_flatten (List.forall_mem_cons.2 ⟨hhead.part (by decide),
    List.forall_mem_singleton.2 hbefore⟩) ⟨32, _, rfl, by decide⟩, laterWords_blank, hw]
  intro htells
  match hwords : laterWords (after ++ rest), htells with
  | size :: _ :: path :: _, htells =>
    have htype := htells.fileType
    have hmode : (ofWords (after ++ w) size path).fileType = "unknown" := by
      rw [FileMetadata.fileType, ofWords,
        parseU32_eq_none (List.mem_append_left _ hquote)]
      show FileMetadata.typeWord ((none : Option UInt32).getD 0o644 &&& S_IFMT) = "unknown"
      decide
    rw [hmode] at htype
    rcases h with h | h <;> rw [h] at htype <;> exact absurd htype (by decide)

/-- What is told has a path without white space, if the words have none. -/
lemma noSpace_of_tells {m : FileMetadata} {ws : List Bytes} (hws : ∀ w ∈ ws, NoSpace w)
    (h : Tells m ws) : NoSpace m.path.toStringLossy := by
  match ws, hws, h with
  | mode :: size :: _ :: path :: _, hws, h =>
    have hpath : NoSpace path := hws path (by simp)
    have heq : ((ofWords mode size path).path == m.path) = true := BEq.symm h.path
    have hnospace := noSpace_of_beq heq hpath
    rwa [NoSpace, PathBuf.toStringLossy, chars_fromUtf8Lossy]

/-- `stat` gives the metadata back exactly if the target of a link says them. -/
lemma statRoundTrips_iff_targetTells (hformat : WritesMinutes format) (path : PathBuf)
    (m : FileMetadata) : StatRoundTrips format fs path m ↔ TargetTells m := by
  rw [statRoundTrips_iff, TargetTells]
  by_cases hdevice : IsDevice m
  · exact iff_of_false (not_tells_of_isDevice hdevice) fun h => h.2.1 hdevice
  by_cases hpath : NoSpace m.path.toStringLossy
  · obtain ⟨times, hmodes, hwords⟩ := laterWords_toVec hformat hdevice hpath
    have htimes : ∀ ws, Tells m (times ++ ws) ↔
        Tells m ((m.modified.toList.map fun _ => []) ++ ws) := by
      intro ws
      cases hm : m.modified with
      | none =>
        rw [hm] at hmodes
        rw [List.map_eq_nil_iff.1 hmodes]
        rfl
      | some t =>
        rw [hm] at hmodes
        obtain ⟨w, rfl⟩ : ∃ w, times = [w] := List.length_eq_one_iff.1 (by
          simpa using congrArg List.length hmodes)
        have hnone : parseU32 w = none := by simpa using hmodes
        have hempty : parseU32 [] = none := by decide
        exact tells_cons_congr (hnone.trans hempty.symm) ws
    rw [hwords, htimes]
    cases m.symlinkTarget with
    | none =>
      have hnull : Visible (jsonOption none ++ ascii "\x7d") := by decide
      rw [Option.map_none, laterWords_of_noSpace hnull.noSpace, List.append_nil]
      simp only [reduceCtorEq, false_and, exists_false, and_false, iff_false]
      cases m.modified <;> exact id
    | some target =>
      constructor
      · exact fun h => ⟨hpath, hdevice, target, rfl, h⟩
      · rintro ⟨-, -, target', heq, h⟩
        obtain rfl := Option.some.inj heq
        exact h
  · have hws := fun w (hw : w ∈ laterWords (MetadataResponse.ofMetadata format m).toVec) =>
      noSpace_of_mem_splitWhitespace (mem_splitWhitespace_of_mem_laterWords hw)
    generalize laterWords (MetadataResponse.ofMetadata format m).toVec = ws at hws ⊢
    exact iff_of_false (fun h => hpath (noSpace_of_tells hws h)) fun h => hpath h.1

/-! ### Listings -/

lemma not_mem_of_visible {s : Bytes} (h : Visible s) : 10 ∉ s :=
  fun hmem => absurd (h 10 hmem).1 (by decide)

/-- An entry is on the line of the listing. -/
lemma not_mem_entry (m : FileMetadata) :
    ∀ p ∈ (DirectoryEntry.ofMetadata format m).parts, 10 ∉ p := by
  simp only [DirectoryEntry.parts, DirectoryEntry.ofMetadata, List.forall_mem_cons]
  refine ⟨by decide, not_mem_jsonString _, by decide, not_mem_of_visible (visible_decimal _),
    by decide, ?_, by decide, not_mem_jsonString _, by decide, not_mem_jsonString _,
    by decide, by simp⟩
  cases m.modified with
  | none => exact not_mem_of_visible (s := ascii "null") (by decide)
  | some t => exact not_mem_jsonString _

/-- A listing is one line. -/
lemma lines_listing (ms : List FileMetadata) :
    lines (listingToVec (ms.map (DirectoryEntry.ofMetadata format))) =
      [listingToVec (ms.map (DirectoryEntry.ofMetadata format))] := by
  refine lines_of_not_mem (by simp [listingToVec, ascii]) ?_
  have hentries : ∀ es : List Bytes, (∀ e ∈ es, 10 ∉ e) → 10 ∉ (ascii ",").intercalate es := by
    intro es hes
    induction es with
    | nil => simp
    | cons e es ih =>
      rw [List.forall_mem_cons] at hes
      cases es with
      | nil => simpa using hes.1
      | cons e' es =>
        rw [List.intercalate_cons_cons, List.mem_append, List.mem_append]
        exact fun hmem => hmem.elim (fun hmem => hmem.elim hes.1 (by decide)) (ih hes.2)
  simp only [listingToVec, List.mem_append, not_or]
  refine ⟨⟨by decide, hentries _ ?_⟩, by decide⟩
  simp only [List.map_map, List.forall_mem_map, Function.comp, List.mem_flatten, not_exists,
    not_and]
  exact fun m _ => not_mem_entry m

/-- The listing of one entry. -/
lemma listing_singleton (m : FileMetadata) :
    listingToVec [DirectoryEntry.ofMetadata format m] =
      (ascii "\x7b\"entries\":[" ::
        ((DirectoryEntry.ofMetadata format m).parts ++ [ascii "]\x7d"])).flatten := by
  simp [listingToVec]

/-- The parts of a listing begin with ASCII bytes. -/
lemma asciiHead_of_mem_entry (m : FileMetadata) :
    ∀ p ∈ (DirectoryEntry.ofMetadata format m).parts, AsciiHead p := by
  have hword {s : Bytes} (h : Visible s) (hne : s ≠ []) : AsciiHead s := h.asciiHead hne
  simp only [DirectoryEntry.parts, DirectoryEntry.ofMetadata, List.forall_mem_cons]
  refine ⟨hword (by decide) (by decide), asciiHead_jsonString _, hword (by decide) (by decide),
    hword (visible_decimal _) (decimal_ne_nil _), hword (by decide) (by decide), ?_,
    hword (by decide) (by decide), asciiHead_jsonString _, hword (by decide) (by decide),
    asciiHead_jsonString _, hword (by decide) (by decide), by simp⟩
  cases m.modified with
  | none => exact ⟨110, _, rfl, by decide⟩
  | some t => exact asciiHead_jsonString _

/-- The characters of the listing of one entry. -/
lemma countP_chars_listing (p : Bytes → Bool) (m : FileMetadata) :
    (chars (listingToVec [DirectoryEntry.ofMetadata format m])).countP p =
      (chars (ascii "\x7b\"entries\":[")).countP p +
        ((DirectoryEntry.ofMetadata format m).parts.map fun s => (chars s).countP p).sum +
        (chars (ascii "]\x7d")).countP p := by
  rw [listing_singleton, chars_flatten_parts, List.countP_flatMap, List.map_cons, List.sum_cons,
    List.map_append, List.sum_append, List.map_singleton, List.sum_singleton]
  · exact (Nat.add_assoc _ _ _).symm
  · refine List.forall_mem_cons.2 ⟨Visible.asciiHead (by decide) (by decide), ?_⟩
    refine List.forall_mem_append.2 ⟨asciiHead_of_mem_entry m, ?_⟩
    exact List.forall_mem_singleton.2 (Visible.asciiHead (by decide) (by decide))

lemma countP_of_noSpace {s : Bytes} (h : NoSpace s) : (chars s).countP isSpace = 0 :=
  List.countP_eq_zero.2 fun c hc => by simp [h c hc]

/-- A string in JSON with one blank in it. -/
lemma countP_le_one {s : Bytes} (h : ∃ before after, s = before ++ 32 :: after ∧
    (AsciiHead before ∧ NoSpace before) ∧ Visible after ∧ quote ∈ after) :
    (chars s).countP isSpace ≤ 1 := by
  obtain ⟨before, after, rfl, hbefore, hafter, -⟩ := h
  have hblank : isSpace [32] = true := by decide
  rw [chars_append _ _ (by decide), List.countP_append, chars_cons _ (by decide),
    List.countP_cons_of_pos hblank, countP_of_noSpace hbefore.2, countP_of_noSpace hafter.noSpace]

/-- A listing of one entry has at most two blanks, if its path has none. -/
lemma length_laterWords_listing (hformat : WritesMinutes format) {m : FileMetadata}
    (hpath : NoSpace m.path.bytes) :
    (laterWords (listingToVec [DirectoryEntry.ofMetadata format m])).length ≤ 2 := by
  refine (length_laterWords_le _).trans ?_
  have hmodified : (chars (jsonOption ((m.modified.map format).map ascii))).countP isSpace ≤ 1 := by
    cases m.modified with
    | none =>
      have hnull : NoSpace (ascii "null") := by decide
      exact (countP_of_noSpace hnull).trans_le (Nat.zero_le 1)
    | some t =>
      obtain ⟨date, time, htime, hdate, hminutes⟩ := hformat t
      have hone := countP_le_one (jsonString_minutes date hdate hminutes)
      rwa [← htime] at hone
  have htype : (chars (jsonString (ascii m.fileType))).countP isSpace ≤ 1 := by
    by_cases hdevice : IsDevice m
    · exact countP_le_one (jsonString_device hdevice)
    · rw [countP_of_noSpace (visible_jsonString (visible_fileType hdevice)).noSpace]
      exact Nat.zero_le 1
  have hstring : (chars (jsonString m.path.toStringLossy)).countP isSpace = 0 :=
    countP_of_noSpace (noSpace_jsonString hpath)
  have hpermissions := countP_of_noSpace
    (visible_jsonString (visible_octal m.permissions.toNat)).noSpace
  have hsize := countP_of_noSpace (visible_decimal m.size.toNat).noSpace
  have hword {s : Bytes} (h : Visible s) : (chars s).countP isSpace = 0 :=
    countP_of_noSpace h.noSpace
  rw [countP_chars_listing]
  simp only [DirectoryEntry.parts, DirectoryEntry.ofMetadata, List.map_cons, List.map_nil,
    List.sum_cons, List.sum_nil, hstring, hpermissions, hsize]
  rw [hword (s := ascii "\x7b\"entries\":[") (by decide),
    hword (s := ascii "\x7b\"permissions\":") (by decide),
    hword (s := ascii ",\"size\":") (by decide),
    hword (s := ascii ",\"modified\":") (by decide),
    hword (s := ascii ",\"path\":") (by decide),
    hword (s := ascii ",\"file_type\":") (by decide),
    hword (s := ascii "\x7d") (by decide), hword (s := ascii "]\x7d") (by decide)]
  omega

/-- A path is not the listing that it is in, which has a brace more. -/
lemma path_ne_listing (m : FileMetadata) :
    (m.path == ⟨listingToVec [DirectoryEntry.ofMetadata format m]⟩) ≠ true := by
  intro heq
  obtain ⟨p, hp⟩ : ∃ p : Bytes → Bool, ∀ l : List Bytes, l.count [123] = l.countP p :=
    ⟨_, fun _ => List.count_eq_countP⟩
  have hcount := count_chars_congr heq (c := [123]) (by decide) (by decide)
  have hpath := count_chars_le_jsonString m.path.bytes (b := 123) (by decide)
  have hhead : (chars (ascii "\x7b\"entries\":[")).count [123] = 1 := by decide
  rw [hp, hp] at hcount hpath
  rw [hp] at hhead
  rw [countP_chars_listing, hhead] at hcount
  simp only [DirectoryEntry.parts, DirectoryEntry.ofMetadata, List.map_cons, List.map_nil,
    List.sum_cons, List.sum_nil, PathBuf.toStringLossy] at hcount
  omega

/-- A listing does not come back: it is one line, and one entry, which is another. -/
lemma not_readDirRoundTrips (hformat : WritesMinutes format) (path : PathBuf) (now : DateTime)
    (ms : List FileMetadata) : ¬ ReadDirRoundTrips format fs path now ms := by
  rintro ⟨ms', ms'', hread, hperm, hshown⟩
  have hne : listingToVec (ms.map (DirectoryEntry.ofMetadata format)) ≠ [] := by
    simp [listingToVec, ascii]
  rw [readDir_of_text, parseListing, lines_listing, List.filter_cons_of_pos (by simpa using hne),
    List.filter_nil, List.map_singleton] at hread
  simp only [Outcome.ok.injEq, Reply.entries.injEq] at hread
  subst hread
  obtain rfl := List.singleton_perm.1 hperm
  obtain ⟨m, rest, hm, hrest, rfl⟩ := List.forall₂_cons_right_iff.1 hshown
  obtain rfl := List.forall₂_nil_right_iff.1 hrest
  rw [List.map_singleton, parseLine] at hm
  split at hm
  · next w mode size word rest hwords =>
    have hnospace : NoSpace m.path.bytes := noSpace_of_beq (BEq.symm hm.path)
      (noSpace_of_mem_splitWhitespace (w := word) (by rw [hwords]; simp))
    have hlen := length_laterWords_listing hformat hnospace
    have hhead : Visible (ascii "\x7b\"entries\":[") := by decide
    obtain ⟨w', hw'⟩ := splitWhitespace_append (by decide) hhead.isAscii hhead.noSpace
      ((DirectoryEntry.ofMetadata format m).parts ++ [ascii "]\x7d"]).flatten
    rw [← List.flatten_cons, ← listing_singleton, hwords] at hw'
    rw [← (List.cons.inj hw').2] at hlen
    simp at hlen
  · exact path_ne_listing m hm.path

/-- Metadata come back from `stat` exactly if the target of a link says them, and a listing never
does. -/
theorem roundTrips_iff {format : DateTime → String} {fs : ProxyFS}
    (hformat : WritesMinutes format) :
    (∀ path m, StatRoundTrips format fs path m ↔ TargetTells m) ∧
    ∀ path now ms, ¬ ReadDirRoundTrips format fs path now ms :=
  ⟨statRoundTrips_iff_targetTells hformat, not_readDirRoundTrips hformat⟩

lemma writesMinutes_fixed : WritesMinutes fun _ => "2024-05-01 08:30" := by
  have htext : ascii "2024-05-01 08:30" = ascii "2024-05-01" ++ 32 :: ascii "08:30" := by decide
  exact fun _ => ⟨ascii "2024-05-01", ascii "08:30", htext, by decide, by decide⟩

/-- All times are the same. -/
theorem roundTrips_iff_fixed :
    (∀ path m, StatRoundTrips (fun _ => "2024-05-01 08:30") ⟨[]⟩ path m ↔ TargetTells m) ∧
    ∀ path now ms, ¬ ReadDirRoundTrips (fun _ => "2024-05-01 08:30") ⟨[]⟩ path now ms :=
  roundTrips_iff writesMinutes_fixed

/-- A link that says what it is. -/
example : TargetTells ⟨⟨ascii "/l"⟩, 17, 0o120777, none, none, none, true,
    some ⟨ascii "x 41471 17 y /l z"⟩⟩ :=
  ⟨by decide, by simp +decide [IsDevice], _, rfl, ⟨by decide, by decide, by decide, by decide⟩⟩

/-- A regular file in a directory of its own: `stat` and the listing do not give it back. -/
theorem file_not_roundTrips :
    ¬ StatRoundTrips (fun _ => "2024-05-01 08:30") ⟨[]⟩ ⟨ascii "/d/f"⟩ (.file ⟨ascii "/d/f"⟩ 5 0) ∧
    ¬ ReadDirRoundTrips (fun _ => "2024-05-01 08:30") ⟨[]⟩ ⟨ascii "/d"⟩ 0
      [.file ⟨ascii "/d/f"⟩ 5 0] := by
  refine ⟨fun hstat => ?_, not_readDirRoundTrips writesMinutes_fixed _ _ _⟩
  obtain ⟨-, -, target, htarget, -⟩ := (statRoundTrips_iff_targetTells writesMinutes_fixed _ _).1
    hstat
  cases htarget

end Racfs.ProxyFs
