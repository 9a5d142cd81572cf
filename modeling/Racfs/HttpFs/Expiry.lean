/-
# When a kept response expires

The expiry is computed without a sign, printed, parsed and then compared with a sign.  Printing
and parsing lose nothing; the sum of the time and the age may leave its range, and the cast to a
signed number may make it negative.  In both cases, and if the sum panics, the response is never
found.  So the arithmetic is exact as long as the response expires before `2 ^ 63`
(`expiry_exact_iff`).
-/
import Racfs.HttpFs.Cache
import Racfs.Lib.Offset

namespace Racfs.HttpFs

open HttpFS Offset

variable {c : Crates} {checks : Bool} {fs : HttpFS}

/-! ### Finding a response -/

/-- The four files of a response are below the directory of a key. -/
def HttpFS.Keeps (c : Crates) (fs : HttpFS) (key : Bytes) (f : Fetch) : Prop :=
  ∀ part : Part, ∃ e, fs.files.get? (cachePath key part.name) = some e ∧
    e.data = part.content c f ∧ e.metadata.isDirectory = false

lemma isUtf8_decimal (n : ℕ) : isUtf8 (decimal n) = true := by
  rw [← zeroPadded_zero]
  exact isUtf8_of_isAscii (isAscii_zeroPadded 0 n)

lemma HttpFS.Keeps.readBytes {key : Bytes} {f : Fetch} (h : fs.Keeps c key f) (part : Part) :
    fs.readBytes (cachePath key part.name) = .ok (part.content c f) := by
  obtain ⟨e, he, hdata, hfile⟩ := h part
  exact readBytes_eq_ok_iff.2 ⟨e, he, hfile, hdata⟩

/-- The text of a file, for a parser. -/
lemma HttpFS.Keeps.readToString {key : Bytes} {f : Fetch} (h : fs.Keeps c key f) (part : Part)
    (hutf8 : isUtf8 (part.content c f) = true) :
    fs.readToString (cachePath key part.name) = .ok (part.content c f) :=
  readToString_eq_ok_iff.2 ⟨h.readBytes part, hutf8⟩

/-- A response that has expired is not found. -/
lemma HttpFS.Keeps.getCachedResponse_of_lt {key : Bytes} {f : Fetch} (h : fs.Keeps c key f)
    {now : DateTime} (hlt : f.expiry.toInt64.toInt < timestamp now) :
    fs.getCachedResponse c key now = none := by
  rw [Option.eq_none_iff_forall_ne_some]
  intro r hr
  obtain ⟨text, expiry, -, -, ⟨htext, hexpiry, hle⟩, -⟩ := getCachedResponse_eq_some_iff.1 hr
  have hkept : fs.readToString (cachePath key "expiry") = .ok (decimal f.expiry.toNat) :=
    h.readToString .expiry (isUtf8_decimal _)
  obtain rfl := Outcome.ok.inj (hkept.symm.trans htext)
  rw [trim_of_visible (visible_decimal _), parseU64_decimal] at hexpiry
  obtain rfl := Option.some.inj hexpiry
  omega

/-- Until then it is found, with the headers that its JSON is read as. -/
lemma HttpFS.Keeps.getCachedResponse_of_le {key : Bytes} {f : Fetch} (h : fs.Keeps c key f)
    (hutf8 : isUtf8 (c.toJson f.response.headers) = true) {headers : Headers}
    (hjson : c.fromJson (c.toJson f.response.headers) = .ok headers) {now : DateTime}
    (hle : timestamp now ≤ f.expiry.toInt64.toInt) :
    fs.getCachedResponse c key now =
      some ⟨f.response.status, headers, f.response.body⟩ := by
  refine getCachedResponse_eq_some_iff.2 ⟨_, f.expiry, _, _,
    ⟨h.readToString .expiry (isUtf8_decimal _), ?_, hle⟩,
    ⟨h.readToString .status (isUtf8_decimal _), ?_⟩,
    ⟨h.readToString .headers hutf8, hjson⟩, h.readBytes .body⟩
  · rw [Part.content, trim_of_visible (visible_decimal _), parseU64_decimal]
  · rw [Part.content, trim_of_visible (visible_decimal _), parseU16_decimal]

/-- Keeping a response leaves its files below its key. -/
lemma keeps_setCachedResponse {f : Fetch} {ttl : UInt64} {now : DateTime}
    (hexpiry : expirySecs checks now ttl = some f.expiry) :
    (fs.setCachedResponse c checks (urlToCacheKey c f.url) f.response ttl now).2.Keeps c
      (urlToCacheKey c f.url) f := by
  intro part
  obtain ⟨size, hget⟩ := get?_setCachedResponse c fs hexpiry f.url part
  rw [if_pos rfl] at hget
  exact ⟨_, hget, rfl, FileMetadata.isDirectory_file _ size now⟩

/-! ### The arithmetic -/

/-- A number without a sign, read with one. -/
lemma toInt_toInt64 (n : UInt64) :
    n.toInt64.toInt = if n.toNat < 2 ^ 63 then (n.toNat : ℤ) else (n.toNat : ℤ) - 2 ^ 64 := by
  have hcast : n.toInt64.toInt = n.toBitVec.toInt := rfl
  rw [hcast, BitVec.toInt_eq_toNat_cond, UInt64.toNat_toBitVec]
  split_ifs <;> omega

lemma toNat_start {t : DateTime} (hnonneg : 0 ≤ timestamp t) (hlt : timestamp t < 2 ^ 63) :
    ((Int64.ofInt (timestamp t)).toUInt64.toNat : ℤ) = timestamp t := by
  have htoInt : (Int64.ofInt (timestamp t)).toInt = timestamp t :=
    Int64.toInt_ofInt_of_le (by omega) hlt
  have hle : 0 ≤ Int64.ofInt (timestamp t) := by
    rw [Int64.le_iff_toInt_le, htoInt]
    exact hnonneg
  rw [toNat_of_nonneg hle, htoInt, Int.toNat_of_nonneg hnonneg]

variable (checks) in
/-- Before `2 ^ 63` the expiry is the sum of the time and the age. -/
lemma exists_expirySecs {t : DateTime} {maxAge : UInt64} (hnonneg : 0 ≤ timestamp t)
    (hlt : timestamp t + maxAge.toNat < 2 ^ 63) :
    ∃ expiry, expirySecs checks t maxAge = some expiry ∧
      expiry.toInt64.toInt = timestamp t + maxAge.toNat := by
  have hstart := toNat_start hnonneg (by omega)
  refine ⟨_, if_neg fun h => ?_, ?_⟩
  · have hle := h.2
    omega
  · rw [toInt_toInt64, UInt64.toNat_add, Nat.mod_eq_of_lt (by omega), if_pos (by omega)]
    push_cast
    rw [hstart]

/-- Otherwise the expiry, if there is one, is before the time at which the response is stored. -/
lemma expirySecs_lt {t : DateTime} {maxAge expiry : UInt64} (hnonneg : 0 ≤ timestamp t)
    (hlt : timestamp t < 2 ^ 63) (hle : 2 ^ 63 ≤ timestamp t + maxAge.toNat)
    (hexpiry : expirySecs checks t maxAge = some expiry) :
    expiry.toInt64.toInt < timestamp t := by
  have hstart := toNat_start hnonneg hlt
  have hage := maxAge.toNat_lt
  rw [expirySecs] at hexpiry
  split_ifs at hexpiry
  obtain rfl := Option.some.inj hexpiry
  rw [toInt_toInt64, UInt64.toNat_add]
  rcases Nat.lt_or_ge ((Int64.ofInt (timestamp t)).toUInt64.toNat + maxAge.toNat) (2 ^ 64) with
    hsum | hsum
  · -- the sum is in its range, and the cast makes it negative
    rw [Nat.mod_eq_of_lt hsum]
    split_ifs <;> omega
  · -- the sum leaves its range
    rw [Nat.mod_eq_sub_mod hsum, Nat.mod_eq_of_lt (by omega)]
    split_ifs <;> omega

/-! ### The ages that are sent -/

/-- A part with an age sets it. -/
lemma take_maxAge (d : CacheDirective) (n : UInt64) :
    d.take (ascii "max-age=" ++ decimal n.toNat) = { d with maxAgeSecs := some n } := by
  have hvisible : Visible (ascii "max-age=" ++ decimal n.toNat) :=
    Visible.append (by decide) (visible_decimal _)
  have hname : ∀ name : String, (ascii name).head?.map lowerByte ≠ some 109 →
      eqIgnoreAsciiCase (ascii "max-age=" ++ decimal n.toNat) (ascii name) = false := by
    intro name hne
    rw [eqIgnoreAsciiCase, beq_eq_false_iff_ne]
    intro heq
    rw [← List.head?_map, ← heq] at hne
    exact hne rfl
  have hprefix : (ascii "max-age=").isPrefixOf
      (toLowercase (ascii "max-age=" ++ decimal n.toNat)) = true := by
    rw [toLowercase_of_isAscii hvisible.isAscii, List.map_append, List.isPrefixOf_iff_prefix]
    exact ⟨_, rfl⟩
  have hdrop : (ascii "max-age=" ++ decimal n.toNat).drop 8 = decimal n.toNat := rfl
  rw [CacheDirective.take, trim_of_visible hvisible, hname _ (by decide), hname _ (by decide),
    hprefix, hdrop, trim_of_visible (visible_decimal _), parseU64_decimal]
  rfl

/-- Any age can be sent. -/
lemma parseCacheControl_maxAge (n : UInt64) :
    parseCacheControl ((∅ : Headers).insert (ascii "cache-control")
      (ascii "max-age=" ++ decimal n.toNat)) = ⟨some n, false⟩ := by
  have hcomma : (44 : UInt8) ∉ ascii "max-age=" ++ decimal n.toNat := by
    rw [List.mem_append, ← zeroPadded_zero]
    rintro (hname | hdigit)
    · exact absurd hname (by decide)
    · exact absurd (isDigit_of_mem_zeroPadded hdigit) (by decide)
  rw [parseCacheControl, AssocMap.get?_insert_self, Option.some_or, Option.getD_some,
    List.splitOn_eq_singleton hcomma, List.foldl_cons, List.foldl_nil, take_maxAge]

/-! ### The responses that are found -/

/-- The response that is stored at a time for an age is found exactly that long. -/
def ExpiresExactly (c : Crates) (checks : Bool) (fs : HttpFS) (url : Bytes) (r : HttpResponse)
    (maxAge : UInt64) (t : DateTime) : Prop :=
  let stored := fs.setCachedResponse c checks (urlToCacheKey c url) r maxAge t
  stored.1 = .ok () ∧ ∀ now, timestamp t ≤ timestamp now →
    ((∃ r', stored.2.getCachedResponse c (urlToCacheKey c url) now = some r' ∧
      SameResponse r' r) ↔ timestamp now - timestamp t ≤ maxAge.toNat)

lemma setCachedResponse_fst {key : Bytes} {r : HttpResponse} {maxAge expiry : UInt64}
    {t : DateTime} (hexpiry : expirySecs checks t maxAge = some expiry) :
    (fs.setCachedResponse c checks key r maxAge t).1 = .ok () := by
  rw [HttpFS.setCachedResponse, hexpiry]
  dsimp only
  cases etag r.headers <;> rfl

/-- Past its range the expiry panics or is over at once. -/
lemma not_expiresExactly {url : Bytes} {r : HttpResponse} {maxAge : UInt64} {t : DateTime}
    (hnonneg : 0 ≤ timestamp t) (hlt : timestamp t < 2 ^ 63)
    (hle : 2 ^ 63 ≤ timestamp t + maxAge.toNat) :
    ¬ ExpiresExactly c checks fs url r maxAge t := by
  rintro ⟨hok, hfound⟩
  cases hexpiry : expirySecs checks t maxAge with
  | none =>
    rw [HttpFS.setCachedResponse, hexpiry] at hok
    cases hok
  | some expiry =>
    have hnow : timestamp t - timestamp t ≤ maxAge.toNat := by omega
    obtain ⟨r', hr', -⟩ := (hfound t le_rfl).2 hnow
    have hkeeps : (fs.setCachedResponse c checks (urlToCacheKey c url) r maxAge t).2.Keeps c
        (urlToCacheKey c url) ⟨url, [], r, expiry⟩ :=
      keeps_setCachedResponse (f := ⟨url, [], r, expiry⟩) hexpiry
    rw [hkeeps.getCachedResponse_of_lt (expirySecs_lt hnonneg hlt hle hexpiry)] at hr'
    cases hr'

/-- Within its range the expiry is exact. -/
lemma expiresExactly {url : Bytes} {r : HttpResponse} {maxAge : UInt64} {t : DateTime}
    (hjson : RoundTrips c r.headers) (hutf8 : isUtf8 (c.toJson r.headers) = true)
    (hnonneg : 0 ≤ timestamp t) (hlt : timestamp t + maxAge.toNat < 2 ^ 63) :
    ExpiresExactly c checks fs url r maxAge t := by
  obtain ⟨expiry, hexpiry, hvalue⟩ := exists_expirySecs checks hnonneg hlt
  obtain ⟨headers, hparsed, hsame⟩ := hjson
  have hkeeps : (fs.setCachedResponse c checks (urlToCacheKey c url) r maxAge t).2.Keeps c
      (urlToCacheKey c url) ⟨url, [], r, expiry⟩ :=
    keeps_setCachedResponse (f := ⟨url, [], r, expiry⟩) hexpiry
  refine ⟨setCachedResponse_fst hexpiry, fun now hnow => ⟨?_, fun hage => ?_⟩⟩
  · rintro ⟨r', hr', -⟩
    by_contra hage
    have hexpired : expiry.toInt64.toInt < timestamp now := by omega
    rw [hkeeps.getCachedResponse_of_lt hexpired] at hr'
    cases hr'
  · have hfresh : timestamp now ≤ expiry.toInt64.toInt := by omega
    exact ⟨_, hkeeps.getCachedResponse_of_le hutf8 hparsed hfresh, rfl, hsame, rfl⟩

variable (c checks fs) in
/-- **The arithmetic of the expiry.**  A response that is stored at a time for an age is found
exactly as long as it is not older than this age if and only if the sum of the two is a signed
number. -/
theorem expiry_exact_iff (url : Bytes) {r : HttpResponse} (maxAge : UInt64) {t : DateTime}
    (hjson : RoundTrips c r.headers) (hutf8 : isUtf8 (c.toJson r.headers) = true)
    (hnonneg : 0 ≤ timestamp t) (hlt : timestamp t < 2 ^ 63) :
    ExpiresExactly c checks fs url r maxAge t ↔ timestamp t + maxAge.toNat < 2 ^ 63 := by
  constructor
  · intro h
    by_contra hle
    exact not_expiresExactly hnonneg hlt (Int.not_lt.1 hle) h
  · exact expiresExactly hjson hutf8 hnonneg

/-- A response without headers that is stored for a minute. -/
theorem expiry_exact_minute :
    ExpiresExactly mailCrates false (new 0) (ascii "http://mail/inbox") ⟨200, ∅, []⟩ 60 0 :=
  (expiry_exact_iff mailCrates false (new 0) (ascii "http://mail/inbox") 60
    ⟨∅, rfl, fun _ => rfl⟩ (by decide) (by decide) (by decide)).2 (by decide)

/-- A response for the greatest age, stored in the year 2023: the sum panics, or is over before
the response is stored. -/
theorem expiry_wraps : ∃ headers : Headers,
    parseCacheControl headers = ⟨some 18446744073709551615, false⟩ ∧
    ∀ c checks, ¬ ExpiresExactly c checks (new 1700000000000000000) (ascii "http://mail/inbox")
      ⟨200, headers, []⟩ 18446744073709551615 1700000000000000000 := by
  refine ⟨_, parseCacheControl_maxAge 18446744073709551615, fun c checks => ?_⟩
  exact not_expiresExactly (by decide) (by decide) (by decide)

end Racfs.HttpFs
