/-
# The paths of streams

A path is taken apart at its separators, and the name of a stream is one of the parts: it is a
text, it is not empty and has no separator (`IsStreamName`).  The paths that are put together from
such a name and a number are taken apart into the same name and number again, whatever the
number is (`parsePath_messagePath`).
-/
import Racfs.StreamFs.Steps

namespace Racfs.StreamFs

/-- A part of a path. -/
structure IsStreamName (name : Bytes) : Prop where
  ne_nil : name ≠ []
  slash_not_mem : slash ∉ name
  utf8 : isUtf8 name = true

/-! ### Taking paths apart -/

/-- A path that is put together from parts is taken apart into these. -/
lemma parsePath_join {parts : List Bytes} (hne : parts ≠ [])
    (hparts : ∀ part ∈ parts, IsStreamName part) :
    parsePath ⟨slash :: [slash].intercalate parts⟩ = parseParts parts := by
  have hutf8 : isUtf8 (slash :: [slash].intercalate parts) = true := by
    have h := isUtf8_append [] ([slash].intercalate parts) slash_lt
    rw [List.nil_append] at h
    rw [h, isUtf8_intercalate, Bool.and_eq_true, List.all_eq_true]
    exact ⟨rfl, fun part hpart => (hparts part hpart).utf8⟩
  have hdrop : (slash :: [slash].intercalate parts).dropWhile (· == slash) =
      [slash].intercalate parts := by
    rw [List.dropWhile_cons_of_pos (by simp)]
    cases parts with
    | nil => exact absurd rfl hne
    | cons first rest =>
      have hfirst := hparts first List.mem_cons_self
      cases first with
      | nil => exact absurd rfl hfirst.ne_nil
      | cons b first =>
        have hb : (b == slash) = false := by
          rw [beq_eq_false_iff_ne]
          rintro rfl
          exact hfirst.slash_not_mem List.mem_cons_self
        cases rest with
        | nil => rw [List.intercalate_singleton, List.dropWhile_cons_of_neg (by simp [hb])]
        | cons second rest =>
          rw [List.intercalate_cons_cons, List.cons_append, List.cons_append,
            List.dropWhile_cons_of_neg (by simp [hb])]
  rw [parsePath, if_pos hutf8, hdrop,
    List.splitOn_intercalate slash (fun part hpart => (hparts part hpart).slash_not_mem) hne,
    List.filter_eq_self.2 fun part hpart => by simpa using (hparts part hpart).ne_nil]

/-- The parts of a path. -/
lemma isStreamName_of_mem {path : PathBuf} (hutf8 : isUtf8 path.bytes = true) {part : Bytes}
    (h : part ∈ ((path.bytes.dropWhile (· == slash)).splitOn slash).filter (· ≠ [])) :
    IsStreamName part := by
  obtain ⟨hmem, hne⟩ := List.mem_filter.1 h
  refine ⟨by simpa using hne, not_mem_of_mem_splitOn hmem, ?_⟩
  have hdrop : ∀ bs : Bytes, isUtf8 (bs.dropWhile (· == slash)) = isUtf8 bs := by
    intro bs
    induction bs with
    | nil => rfl
    | cons b bs ih =>
      by_cases hb : b = slash
      · have h := isUtf8_append [] bs slash_lt
        rw [List.nil_append] at h
        rw [List.dropWhile_cons_of_pos (by simp [hb]), ih, hb, h]
        rfl
      · rw [List.dropWhile_cons_of_neg (by simp [hb])]
  have hall : isUtf8 ([slash].intercalate
      ((path.bytes.dropWhile (· == slash)).splitOn slash)) = true := by
    rw [List.intercalate_splitOn, hdrop, hutf8]
  rw [isUtf8_intercalate] at hall
  exact List.all_eq_true.1 hall part hmem

lemma mem_of_parseParts {parts : List Bytes} {name : Bytes}
    (h : parseParts parts = some (.StreamDir name)) : name ∈ parts := by
  rw [parseParts.eq_def] at h
  split at h
  all_goals try split_ifs at h
  all_goals simp_all

lemma isStreamName_of_parsePath {path : PathBuf} {name : Bytes}
    (h : parsePath path = some (.StreamDir name)) : IsStreamName name := by
  rw [parsePath] at h
  split_ifs at h with hutf8
  exact isStreamName_of_mem hutf8 (mem_of_parseParts h)

/-! ### The paths of a stream -/

lemma isStreamName_of_isAscii {part : Bytes} (hne : part ≠ []) (hslash : slash ∉ part)
    (h : IsAscii part) : IsStreamName part := ⟨hne, hslash, isUtf8_of_isAscii h⟩

lemma isStreamName_streams : IsStreamName (ascii "streams") :=
  isStreamName_of_isAscii (by decide) (by decide) (by decide)

lemma isStreamName_data : IsStreamName (ascii "data") :=
  isStreamName_of_isAscii (by decide) (by decide) (by decide)

lemma isStreamName_head : IsStreamName (ascii "head") :=
  isStreamName_of_isAscii (by decide) (by decide) (by decide)

/-- The name of the file of a message. -/
lemma isStreamName_messageName (id : UInt64) : IsStreamName (messageName id) := by
  refine isStreamName_of_isAscii ?_ ?_ ?_
  · rw [messageName, Ne, List.append_eq_nil_iff]
    exact fun h => zeroPadded_ne_nil _ _ h.1
  · rw [messageName, List.mem_append, not_or]
    exact ⟨slash_not_mem_zeroPadded _ _, by decide⟩
  · intro b hb
    rcases List.mem_append.1 hb with hb | hb
    · exact isAscii_zeroPadded 6 id.toNat b hb
    · have hsuffix : IsAscii (ascii ".msg") := by decide
      exact hsuffix b hb

/-- The suffix is taken off once: a digit is in front of it. -/
lemma trimEndMatches_messageName (id : UInt64) :
    trimEndMatches (ascii ".msg") (messageName id) = zeroPadded 6 id.toNat := by
  have hrev : (messageName id).reverse =
      (ascii ".msg").reverse ++ (zeroPadded 6 id.toNat).reverse := by
    rw [messageName, List.reverse_append]
  have hlen : (messageName id).length = (zeroPadded 6 id.toNat).length + 3 + 1 := by
    have hsuffix : (ascii ".msg").length = 4 := by decide
    rw [messageName, List.length_append, hsuffix]
  have hdigit : ∀ (ds : Bytes) (fuel : ℕ), (∀ b ∈ ds, isDigit b = true) →
      dropPieces [(ascii ".msg").reverse] fuel ds = ds := by
    intro ds fuel hds
    cases fuel with
    | zero => rfl
    | succ fuel =>
      rw [dropPieces, List.find?_cons]
      cases ds with
      | nil => rfl
      | cons b ds =>
        have hb : ((103 : UInt8) == b) = false := by
          rw [beq_eq_false_iff_ne]
          rintro rfl
          exact absurd (hds _ List.mem_cons_self) (by decide)
        have hpre : (ascii ".msg").reverse.isPrefixOf (b :: ds) = false := by
          show ([103, 115, 109, 46] : Bytes).isPrefixOf (b :: ds) = false
          rw [List.isPrefixOf_cons_cons, hb, Bool.false_and]
        rw [hpre]
        rfl
  rw [trimEndMatches, hlen, hrev, dropPieces, List.find?_cons]
  have hpre : (ascii ".msg").reverse.isPrefixOf
      ((ascii ".msg").reverse ++ (zeroPadded 6 id.toNat).reverse) = true := by
    rw [List.isPrefixOf_iff_prefix]
    exact List.prefix_append _ _
  simp only [hpre, List.drop_left]
  rw [hdigit _ _ fun b hb => isDigit_of_mem_zeroPadded (List.mem_reverse.1 hb),
    List.reverse_reverse]

variable {name : Bytes}

/-- The path of a message is taken apart into the stream and the number. -/
theorem parsePath_messagePath (hname : IsStreamName name) (id : UInt64) :
    parsePath (messagePath name id) = some (.Message name id) := by
  have hjoin : messagePath name id =
      ⟨slash :: [slash].intercalate [ascii "streams", name, ascii "data", messageName id]⟩ := by
    simp only [messagePath, List.intercalate_cons_cons, List.intercalate_singleton,
      List.append_assoc]
    rfl
  rw [hjoin, parsePath_join (by simp) (by
    simp only [List.forall_mem_cons]
    exact ⟨isStreamName_streams, hname, isStreamName_data, isStreamName_messageName id, nofun⟩)]
  rw [parseParts, if_pos ⟨rfl, rfl, List.suffix_append _ _⟩, trimEndMatches_messageName,
    parseU64_zeroPadded]
  rfl

lemma partPath_eq_join (name part : Bytes) :
    partPath name part = ⟨slash :: [slash].intercalate [ascii "streams", name, part]⟩ := by
  simp only [partPath, List.intercalate_cons_cons, List.intercalate_singleton, List.append_assoc]
  rfl

/-- The path of the head of a stream. -/
lemma parsePath_headPath (hname : IsStreamName name) :
    parsePath (partPath name (ascii "head")) = some (.Head name) := by
  rw [partPath_eq_join, parsePath_join (by simp) (by
    simp only [List.forall_mem_cons]
    exact ⟨isStreamName_streams, hname, isStreamName_head, nofun⟩)]
  rfl

/-- The path of the messages of a stream. -/
lemma parsePath_dataPath (hname : IsStreamName name) :
    parsePath (partPath name (ascii "data")) = some (.DataDir name) := by
  rw [partPath_eq_join, parsePath_join (by simp) (by
    simp only [List.forall_mem_cons]
    exact ⟨isStreamName_streams, hname, isStreamName_data, nofun⟩)]
  rfl

/-- A path with a separator in front is looked up as it is. -/
lemma normalizePath_of_head? {path : PathBuf} (h : path.bytes.head? = some slash) :
    normalizePath path = path := by
  rw [normalizePath, PathBuf.toStringLossy, if_pos ((head?_fromUtf8Lossy _).2 h)]

lemma normalizePath_messagePath (name : Bytes) (id : UInt64) :
    normalizePath (messagePath name id) = messagePath name id := normalizePath_of_head? rfl

lemma normalizePath_partPath (name part : Bytes) :
    normalizePath (partPath name part) = partPath name part := normalizePath_of_head? rfl

/-! ### The names of the streams -/

namespace StreamFS

/-- The names of the streams are parts of paths. -/
def Named (fs : StreamFS) : Prop :=
  ∀ (name : Bytes) (s : Stream), fs.streams[name]? = some s → IsStreamName name

lemma named_new (config : StreamConfig) : (StreamFS.new config).Named := by
  intro name s hs
  rw [new, Std.TreeMap.getElem?_emptyc] at hs
  cases hs

lemma Named.exec {fs : StreamFS} (h : fs.Named) (checks : Bool) (now : DateTime) (op : StreamOp) :
    (fs.exec checks now op).2.Named := by
  intro name s hs
  cases streams_exec checks fs now op name with
  | same heq _ => exact h name s (heq ▸ hs)
  | call c s' _ hs' _ => exact h name s' hs'
  | created _ _ hparse _ =>
    obtain ⟨path, hpath⟩ := hparse
    exact isStreamName_of_parsePath hpath
  | removed _ heq => cases heq.symm.trans hs

lemma named_of_reachable {checks : Bool} {config : StreamConfig} {fs : StreamFS}
    (h : Reachable (opStep checks) (.new config) fs) : fs.Named :=
  h.invariant (named_new config) fun fs c fs' hnamed hstep => by
    obtain rfl := Option.some.inj hstep
    exact hnamed.exec checks c.2 c.1

end StreamFS

end Racfs.StreamFs
