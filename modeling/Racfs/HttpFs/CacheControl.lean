/-
# Cache control

The directives of a `Cache-Control` header are folded from the left into one age: `no-cache` sets
it to zero, `max-age` to its number, and the last of them wins.  So their order makes no
difference exactly if all of them set the same age (`foldl_take`).

A response with the age zero is kept all the same, and is found until the second in which it was
stored is over, because the expiry itself is not past.  So a response is served again unless it
is not kept at all, or its expiry leaves its range (`cacheControl_iff`).
-/
import Mathlib.Data.List.Perm.Basic
import Racfs.HttpFs.Expiry

namespace Racfs.HttpFs

open HttpFS

variable {c : Crates} {checks : Bool} {fs fs' : HttpFS} {url : Bytes}

/-! ### The directives -/

/-- The value of the header. -/
def cacheControl (headers : Headers) : Bytes :=
  ((headers.get? (ascii "cache-control")).or (headers.get? (ascii "Cache-Control"))).getD []

/-- The parts of a value. -/
def parts (value : Bytes) : List Bytes := value.splitOn 44

/-- The part is `no-store`. -/
def IsNoStore (part : Bytes) : Prop := eqIgnoreAsciiCase (trim part) (ascii "no-store") = true

instance (part : Bytes) : Decidable (IsNoStore part) :=
  inferInstanceAs (Decidable (eqIgnoreAsciiCase (trim part) (ascii "no-store") = true))

/-- The part is `no-cache`. -/
def IsNoCache (part : Bytes) : Prop := eqIgnoreAsciiCase (trim part) (ascii "no-cache") = true

instance (part : Bytes) : Decidable (IsNoCache part) :=
  inferInstanceAs (Decidable (eqIgnoreAsciiCase (trim part) (ascii "no-cache") = true))

/-- The number of a `max-age`. -/
def maxAge? (part : Bytes) : Option UInt64 :=
  if (ascii "max-age=").isPrefixOf (toLowercase (trim part)) then
    parseU64 (trim ((trim part).drop 8))
  else none

/-- The age that a part sets. -/
def ageOf (part : Bytes) : Option UInt64 := if IsNoCache part then some 0 else maxAge? part

/-- The age that is set last. -/
def lastAge (value : Bytes) : Option UInt64 := ((parts value).filterMap ageOf).getLast?

lemma eqIgnoreAsciiCase_iff {s t : Bytes} :
    eqIgnoreAsciiCase s t = true ↔ s.map lowerByte = t.map lowerByte := by
  rw [eqIgnoreAsciiCase, beq_iff_eq]

/-- In lower case there are no other ASCII letters. -/
lemma isAscii_of_map_lowerByte {s t : Bytes} (ht : IsAscii t) (h : s.map lowerByte = t) :
    IsAscii s := by
  intro b hb
  have hlower : lowerByte b < 0x80 := ht _ (h ▸ List.mem_map_of_mem hb)
  rw [lowerByte] at hlower
  split_ifs at hlower with hletter
  · exact UInt8.lt_of_le_of_lt hletter.2 (by decide : (90 : UInt8) < 0x80)
  · exact hlower

/-- A part with another name is no `max-age`. -/
lemma maxAge?_eq_none {part name : Bytes} (h : eqIgnoreAsciiCase (trim part) name = true)
    (hascii : IsAscii (name.map lowerByte))
    (hname : (ascii "max-age=").isPrefixOf (name.map lowerByte) = false) : maxAge? part = none := by
  rw [eqIgnoreAsciiCase_iff] at h
  rw [maxAge?, toLowercase_of_isAscii (isAscii_of_map_lowerByte hascii h), h, hname]
  rfl

lemma IsNoCache.maxAge?_eq_none {part : Bytes} (h : IsNoCache part) : maxAge? part = none :=
  HttpFs.maxAge?_eq_none h (by decide) (by decide)

lemma IsNoStore.ageOf_eq_none {part : Bytes} (h : IsNoStore part) : ageOf part = none := by
  have hcache : ¬ IsNoCache part := by
    rw [IsNoStore, eqIgnoreAsciiCase_iff] at h
    rw [IsNoCache, eqIgnoreAsciiCase_iff, h]
    decide
  rw [ageOf, if_neg hcache]
  exact maxAge?_eq_none h (by decide) (by decide)

/-- What a part does to the directive. -/
lemma take_eq (d : CacheDirective) (part : Bytes) :
    d.take part = ⟨(ageOf part).or d.maxAgeSecs, d.noStore || decide (IsNoStore part)⟩ := by
  rw [CacheDirective.take]
  change (if IsNoStore part then _ else if IsNoCache part then _ else _) = _
  by_cases hstore : IsNoStore part
  · rw [if_pos hstore, hstore.ageOf_eq_none, decide_eq_true hstore, Option.none_or, Bool.or_true]
  · rw [if_neg hstore, decide_eq_false hstore, Bool.or_false, ageOf, maxAge?]
    by_cases hcache : IsNoCache part
    · rw [if_pos hcache, if_pos hcache]
      rfl
    · rw [if_neg hcache, if_neg hcache]
      split_ifs
      · cases parseU64 (trim ((trim part).drop 8)) <;> rfl
      · rfl

/-- The last age wins, and `no-store` is never taken back. -/
lemma foldl_take (d : CacheDirective) (l : List Bytes) :
    l.foldl CacheDirective.take d = ⟨((l.filterMap ageOf).getLast?).or d.maxAgeSecs,
      d.noStore || l.any fun part => decide (IsNoStore part)⟩ := by
  induction l using List.reverseRecOn with
  | nil => simp
  | append_singleton l part ih =>
    rw [List.foldl_concat, ih, take_eq, List.filterMap_append, List.any_append]
    cases hage : ageOf part with
    | none => simp [hage, Bool.or_assoc]
    | some n => simp [hage, Bool.or_assoc]

/-- What a header says. -/
lemma parseCacheControl_eq (headers : Headers) :
    parseCacheControl headers = ⟨lastAge (cacheControl headers),
      (parts (cacheControl headers)).any fun part => decide (IsNoStore part)⟩ := by
  have hfold := foldl_take ⟨none, false⟩ (parts (cacheControl headers))
  rw [Option.or_none, Bool.false_or] at hfold
  exact hfold

/-! ### The order of the directives -/

/-- The value that a list of directives is sent as. -/
def joined (ds : List Bytes) : Bytes := [44].intercalate ds

/-- Every order of the directives says the same. -/
def OrderFree (ds : List Bytes) : Prop :=
  ∀ ds', ds.Perm ds' → ∀ headers headers' : Headers, cacheControl headers = joined ds →
    cacheControl headers' = joined ds' → parseCacheControl headers' = parseCacheControl headers

/-- Directives that set an age set the same age. -/
def AgesAgree (ds : List Bytes) : Prop :=
  ∀ d ∈ ds, ∀ d' ∈ ds, ∀ n n', lastAge d = some n → lastAge d' = some n' → n = n'

lemma cacheControl_insert (value : Bytes) :
    cacheControl ((∅ : Headers).insert (ascii "cache-control") value) = value := by
  rw [cacheControl, AssocMap.get?_insert_self, Option.some_or, Option.getD_some]

lemma parts_joined {ds : List Bytes} (hne : ds ≠ []) : parts (joined ds) = ds.flatMap parts := by
  induction ds with
  | nil => exact absurd rfl hne
  | cons d ds ih =>
    cases ds with
    | nil => simp [joined, List.intercalate]
    | cons d' ds =>
      have hjoined : joined (d :: d' :: ds) = d ++ 44 :: joined (d' :: ds) := by
        rw [joined, List.intercalate_cons_cons, List.append_assoc]
        rfl
      rw [hjoined, parts, List.splitOn_append_cons_self, List.flatMap_cons,
        ← ih (List.cons_ne_nil d' ds)]
      rfl

/-- The last directive that sets an age sets it. -/
lemma lastAge_joined (ds : List Bytes) : lastAge (joined ds) = ds.reverse.findSome? lastAge := by
  cases ds with
  | nil => decide
  | cons d ds =>
    rw [lastAge, parts_joined (List.cons_ne_nil d ds), List.filterMap_flatMap,
      List.getLast?_flatMap]
    rfl

lemma any_parts_joined (ds : List Bytes) :
    ((parts (joined ds)).any fun part => decide (IsNoStore part)) =
      ds.any fun d => (parts d).any fun part => decide (IsNoStore part) := by
  cases ds with
  | nil => decide
  | cons d ds => rw [parts_joined (List.cons_ne_nil d ds), List.any_flatMap]

/-- If the ages agree, a permutation has the same one. -/
lemma AgesAgree.findSome?_eq {ds ds' : List Bytes} (h : AgesAgree ds) (hperm : ds.Perm ds') :
    ds'.reverse.findSome? lastAge = ds.reverse.findSome? lastAge := by
  have hmem : ∀ {l : List Bytes} {n : UInt64}, l.reverse.findSome? lastAge = some n →
      ∃ d ∈ l, lastAge d = some n := by
    intro l n hn
    obtain ⟨d, hd, hage⟩ := List.exists_of_findSome?_eq_some hn
    exact ⟨d, List.mem_reverse.1 hd, hage⟩
  have hnone : ∀ {l : List Bytes} {d : Bytes} {n : UInt64}, l.reverse.findSome? lastAge = none →
      d ∈ l → lastAge d ≠ some n := by
    intro l d n hl hd
    rw [List.findSome?_eq_none_iff.1 hl d (List.mem_reverse.2 hd)]
    exact nofun
  cases hds : ds.reverse.findSome? lastAge with
  | none =>
    cases hds' : ds'.reverse.findSome? lastAge with
    | none => rfl
    | some n' =>
      obtain ⟨d', hd', hage'⟩ := hmem hds'
      exact absurd hage' (hnone hds (hperm.mem_iff.2 hd'))
  | some n =>
    obtain ⟨d, hd, hage⟩ := hmem hds
    cases hds' : ds'.reverse.findSome? lastAge with
    | none => exact absurd hage (hnone hds' (hperm.mem_iff.1 hd))
    | some n' =>
      obtain ⟨d', hd', hage'⟩ := hmem hds'
      rw [h d' (hperm.mem_iff.2 hd') d hd n' n hage' hage]

/-- Any directive can come last. -/
lemma OrderFree.lastAge_eq {ds : List Bytes} (h : OrderFree ds) {d : Bytes} (hd : d ∈ ds)
    {n : UInt64} (hage : lastAge d = some n) : lastAge (joined ds) = some n := by
  have hperm : ds.Perm (ds.erase d ++ [d]) :=
    (List.perm_cons_erase hd).trans (List.perm_append_singleton d _).symm
  have hparse := congrArg CacheDirective.maxAgeSecs
    (h _ hperm _ _ (cacheControl_insert (joined ds)) (cacheControl_insert _))
  rw [parseCacheControl_eq, parseCacheControl_eq, cacheControl_insert, cacheControl_insert]
    at hparse
  simp only at hparse
  rw [← hparse, lastAge_joined, List.reverse_concat, List.findSome?_cons_of_isSome]
  · exact hage
  · rw [hage, Option.isSome_some]

/-- The order makes no difference exactly if the ages agree. -/
lemma orderFree_iff (ds : List Bytes) : OrderFree ds ↔ AgesAgree ds := by
  constructor
  · intro h d hd d' hd' n n' hage hage'
    exact Option.some.inj ((h.lastAge_eq hd hage).symm.trans (h.lastAge_eq hd' hage'))
  · intro h ds' hperm headers headers' hvalue hvalue'
    rw [parseCacheControl_eq, parseCacheControl_eq, hvalue, hvalue', lastAge_joined, lastAge_joined,
      any_parts_joined, any_parts_joined, h.findSome?_eq hperm, hperm.any_eq]

/-- If a property holds at most once in a list, it holds of one value at most. -/
lemma eq_of_countP_le_one {p : Bytes → Bool} {ds : List Bytes} (hone : ds.countP p ≤ 1)
    {d d' : Bytes} (hd : d ∈ ds) (hp : p d = true) (hd' : d' ∈ ds) (hp' : p d' = true) :
    d = d' := by
  have hmem : d ∈ ds.filter p := List.mem_filter.2 ⟨hd, hp⟩
  have hmem' : d' ∈ ds.filter p := List.mem_filter.2 ⟨hd', hp'⟩
  rw [List.countP_eq_length_filter] at hone
  match hfilter : ds.filter p, hone with
  | [], _ =>
    rw [hfilter] at hmem
    cases hmem
  | [e], _ =>
    rw [hfilter, List.mem_singleton] at hmem hmem'
    rw [hmem, hmem']

/-- For directives without commas of which one may be a `max-age`: there is no `no-cache` beside
a `max-age` other than zero. -/
lemma agesAgree_iff {ds : List Bytes} (hcomma : ∀ d ∈ ds, (44 : UInt8) ∉ d)
    (hone : ds.countP (fun d => (maxAge? d).isSome) ≤ 1) :
    AgesAgree ds ↔ ¬ ((∃ d ∈ ds, IsNoCache d) ∧ ∃ d ∈ ds, ∃ n ≠ 0, maxAge? d = some n) := by
  have hlast : ∀ d ∈ ds, lastAge d = ageOf d := by
    intro d hd
    rw [lastAge, parts, List.splitOn_eq_singleton (hcomma d hd)]
    cases hage : ageOf d <;> simp [hage]
  constructor
  · rintro h ⟨⟨d, hd, hcache⟩, d', hd', n, hn, hmax⟩
    have hcache' : ¬ IsNoCache d' := by
      intro hcache'
      rw [hcache'.maxAge?_eq_none] at hmax
      cases hmax
    refine hn (h d' hd' d hd n 0 ?_ ?_)
    · rw [hlast d' hd', ageOf, if_neg hcache', hmax]
    · rw [hlast d hd, ageOf, if_pos hcache]
  · intro h d hd d' hd' n n' hage hage'
    rw [hlast d hd, ageOf] at hage
    rw [hlast d' hd', ageOf] at hage'
    split_ifs at hage hage' with hcache hcache' hcache'
    · exact Option.some.inj (hage.symm.trans hage')
    · by_contra hne
      refine h ⟨⟨d, hd, hcache⟩, d', hd', n', fun hzero => hne ?_, hage'⟩
      rw [hzero, ← Option.some.inj hage]
    · by_contra hne
      refine h ⟨⟨d', hd', hcache'⟩, d, hd, n, fun hzero => hne ?_, hage⟩
      rw [hzero, ← Option.some.inj hage']
    · have hd_eq : d = d' :=
        eq_of_countP_le_one hone hd (by rw [hage, Option.isSome_some]) hd'
          (by rw [hage', Option.isSome_some])
      rw [hd_eq] at hage
      exact Option.some.inj (hage.symm.trans hage')

/-! ### What is found later -/

/-- What can be read from a file below the key could be read before. -/
lemma SparesKey.readBytes (h : SparesKey c url fs fs') (part : Part) {data : Bytes}
    (hdata : fs'.readBytes (cachePath (urlToCacheKey c url) part.name) = .ok data) :
    fs.readBytes (cachePath (urlToCacheKey c url) part.name) = .ok data := by
  obtain ⟨e', he', hfile, rfl⟩ := readBytes_eq_ok_iff.1 hdata
  obtain ⟨e, he, hsame, hkind⟩ := h part e' he'
  exact readBytes_eq_ok_iff.2 ⟨e, he, hkind.trans hfile, hsame⟩

lemma SparesKey.readToString (h : SparesKey c url fs fs') (part : Part) {text : Bytes}
    (htext : fs'.readToString (cachePath (urlToCacheKey c url) part.name) = .ok text) :
    fs.readToString (cachePath (urlToCacheKey c url) part.name) = .ok text := by
  obtain ⟨hbytes, hutf8⟩ := readToString_eq_ok_iff.1 htext
  exact readToString_eq_ok_iff.2 ⟨h.readBytes part hbytes, hutf8⟩

/-- A response that is found was found before. -/
lemma SparesKey.getCachedResponse (h : SparesKey c url fs fs') {now t : DateTime}
    (hle : timestamp now ≤ timestamp t) {r : HttpResponse}
    (hr : fs'.getCachedResponse c (urlToCacheKey c url) t = some r) :
    fs.getCachedResponse c (urlToCacheKey c url) now = some r := by
  obtain ⟨expiryText, expiry, statusText, json, ⟨hexpiryText, hexpiry, hfresh⟩,
    ⟨hstatusText, hstatus⟩, ⟨hjson, hheaders⟩, hbody⟩ := getCachedResponse_eq_some_iff.1 hr
  exact getCachedResponse_eq_some_iff.2 ⟨expiryText, expiry, statusText, json,
    ⟨h.readToString .expiry hexpiryText, hexpiry, hle.trans hfresh⟩,
    ⟨h.readToString .status hstatusText, hstatus⟩, ⟨h.readToString .headers hjson, hheaders⟩,
    h.readBytes .body hbody⟩

lemma SparesKey.setCachedResponse {f : Fetch} {ttl : UInt64} {now : DateTime}
    (hexpiry : expirySecs checks now ttl = some f.expiry)
    (hne : urlToCacheKey c f.url ≠ urlToCacheKey c url) :
    SparesKey c url fs
      (fs.setCachedResponse c checks (urlToCacheKey c f.url) f.response ttl now).2 := by
  refine .of_get?_eq fun part => ?_
  obtain ⟨size, hget⟩ := get?_setCachedResponse c fs hexpiry url part
  rw [hget, if_neg hne]

/-- An execution that keeps nothing under the key spares it. -/
lemma sparesKey_executeRequest {id : Bytes} {now later : DateTime} {origin : Origin}
    (hkept : ∀ f ∈ fs.fetched c checks id now later origin,
      urlToCacheKey c f.url ≠ urlToCacheKey c url) :
    SparesKey c url fs (fs.executeRequest c checks id now later origin).2 := by
  rw [HttpFS.fetched] at hkept
  rw [HttpFS.executeRequest]
  rcases hexchange : fs.exchange c id now origin with (r | ⟨response, _ | ⟨key, ttl⟩⟩) | _ | _
  · exact sparesKey_storeResponseDirect id r later
  · exact sparesKey_storeResponseDirect id response later
  · obtain ⟨r, hr⟩ := exists_readRequest hexchange
    rw [key_of_exchange hr hexchange]
    refine (sparesKey_storeResponseDirect id response later).trans ?_
    cases hexpiry : expirySecs checks later ttl with
    | none => exact sparesKey_setCachedResponse hexpiry
    | some expiry =>
      simp only [hr, hexchange, hexpiry, Option.map_some, Option.mem_some_iff, forall_eq'] at hkept
      exact SparesKey.setCachedResponse
        (f := ⟨trim r.url, r.headersJson, response, expiry⟩) hexpiry hkept
  · exact .refl fs
  · exact .refl fs

lemma sparesKey_exec {op : Op} (hop : op.Spares)
    (hkept : ∀ f ∈ op.fetched c checks fs, urlToCacheKey c f.url ≠ urlToCacheKey c url) :
    SparesKey c url fs (fs.exec c checks op).2 := by
  rcases exec_cases checks hop with ⟨x, hx, hexec⟩ | ⟨-, hspares⟩
  · rw [Op.fetched, hx, Option.bind_some] at hkept
    rw [hexec]
    exact sparesKey_executeRequest hkept
  · exact hspares url

/-- So does a run of which no execution keeps anything under the key. -/
lemma sparesKey_after {ops : List Op} (hops : ∀ op ∈ ops, op.Spares)
    (hkept : ∀ f ∈ fs.fetches c checks ops, urlToCacheKey c f.url ≠ urlToCacheKey c url) :
    SparesKey c url fs (fs.after c checks ops) := by
  induction ops generalizing fs with
  | nil => exact .refl fs
  | cons op ops ih =>
    rw [fetches, List.forall_mem_append] at hkept
    have hstep := sparesKey_exec (hops op List.mem_cons_self) fun f hf =>
      hkept.1 f (Option.mem_toList.2 hf)
    exact hstep.trans (ih (fun o ho => hops o (List.mem_cons_of_mem _ ho)) hkept.2)

/-! ### Executions -/

/-- What an answer tells about the request and the cache. -/
lemma of_exchange_answered {id : Bytes} {now : DateTime} {origin : Origin} {r : RequestFiles}
    {response : HttpResponse} {keep : Option (Bytes × UInt64)} (hr : fs.readRequest id = .ok r)
    (h : fs.exchange c id now origin = .ok (.answered response keep)) :
    (∃ method, Method.parse r.method = some method ∧ keep = (keepFor method response).map
      fun ttl => (urlToCacheKey c (trim r.url), ttl)) ∧
    (Method.parse r.method = some .GET →
      fs.getCachedResponse c (urlToCacheKey c (trim r.url)) now = none) := by
  have hask : fs.ask c r origin = .ok (.answered response keep) →
      ∃ method, Method.parse r.method = some method ∧ keep = (keepFor method response).map
        fun ttl => (urlToCacheKey c (trim r.url), ttl) := by
    intro h
    obtain ⟨headers, -, h⟩ := exists_of_bind_eq_ok h
    obtain ⟨-, -, h⟩ := exists_of_bind_eq_ok h
    cases hmethod : Method.parse r.method with
    | none =>
      rw [hmethod] at h
      cases h
    | some method =>
      rw [hmethod] at h
      obtain ⟨answer, -, h⟩ := exists_of_bind_eq_ok h
      obtain ⟨body, -, h⟩ := exists_of_bind_eq_ok h
      cases h
      exact ⟨method, rfl, rfl⟩
  rw [exchange, hr, Outcome.ok_bind] at h
  split_ifs at h with hget
  · cases hcached : fs.getCachedResponse c (urlToCacheKey c (trim r.url)) now with
    | none =>
      rw [hcached] at h
      exact ⟨hask h, fun _ => rfl⟩
    | some cached =>
      rw [hcached] at h
      cases h
  · exact ⟨hask h, fun h => absurd h hget⟩

/-- The filesystem after an execution. -/
def HttpFS.executed (c : Crates) (checks : Bool) (fs : HttpFS) (x : Execution) : HttpFS :=
  (fs.executeRequest c checks x.id x.now x.later x.origin).2

/-- A `GET` of a URL is answered from the cache. -/
def HttpFS.AnswersFromCache (c : Crates) (fs : HttpFS) (url : Bytes) (t : DateTime) : Prop :=
  ∃ r, fs.getCachedResponse c (urlToCacheKey c url) t = some r

/-- The origin is not asked. -/
lemma answersFromCache_iff {id : Bytes} {t : DateTime} {origin : Origin} {r : RequestFiles}
    (hr : fs.readRequest id = .ok r) (hget : Method.parse r.method = some .GET) :
    fs.AnswersFromCache c (trim r.url) t ↔
      ∃ response, fs.exchange c id t origin = .ok (.served response) :=
  ⟨fun ⟨response, h⟩ => ⟨response, exchange_of_cached hr hget h⟩,
    fun ⟨response, h⟩ => ⟨response, exists_of_served hr h⟩⟩

/-- After the execution no `GET` of a URL is answered from the cache, whatever follows, as long as
no other response is kept under its key. -/
def HttpFS.Revalidates (c : Crates) (checks : Bool) (fs : HttpFS) (x : Execution)
    (url : Bytes) : Prop :=
  ∀ ops : List Op, (∀ op ∈ ops, op.Spares) →
    (∀ f ∈ (fs.executed c checks x).fetches c checks ops,
      urlToCacheKey c f.url ≠ urlToCacheKey c url) →
    ∀ t, x.later ≤ t → ¬ ((fs.executed c checks x).after c checks ops).AnswersFromCache c url t

lemma timestamp_mono {s t : DateTime} (h : s ≤ t) : timestamp s ≤ timestamp t :=
  Int.ediv_le_ediv (by decide) h

/-- A `GET` that was not answered from the cache will not be. -/
lemma SparesKey.not_answersFromCache (h : SparesKey c url fs fs') {now t : DateTime}
    (hle : now ≤ t) (hnot : ¬ fs.AnswersFromCache c url now) : ¬ fs'.AnswersFromCache c url t :=
  fun ⟨r, hr⟩ => hnot ⟨r, h.getCachedResponse (timestamp_mono hle) hr⟩

/-- It is enough to look right after the execution. -/
lemma revalidates_iff_executed {x : Execution} :
    fs.Revalidates c checks x url ↔ ¬ (fs.executed c checks x).AnswersFromCache c url x.later := by
  constructor
  · intro h
    exact h [] nofun nofun x.later le_rfl
  · intro h ops hops hkept t ht
    exact (sparesKey_after hops hkept).not_answersFromCache ht h

/-- How long a response is kept, by its directives. -/
lemma keepFor_eq (method : Method) (r : HttpResponse) : keepFor method r =
    if method = .GET ∧ r.status = 200 ∧ ∀ d ∈ parts (cacheControl r.headers), ¬ IsNoStore d then
      some ((lastAge (cacheControl r.headers)).getD DEFAULT_CACHE_TTL_SECS)
    else none := by
  rw [keepFor, parseCacheControl_eq]
  refine if_congr ?_ rfl rfl
  rw [List.any_eq_false]
  simp only [decide_eq_true_eq]

/-- A response that is kept is found at once, unless its expiry leaves its range. -/
lemma answersFromCache_kept {r : HttpResponse} {ttl : UInt64} {t : DateTime}
    (hjson : RoundTrips c r.headers) (hutf8 : isUtf8 (c.toJson r.headers) = true)
    (hnonneg : 0 ≤ timestamp t) (hlt : timestamp t < 2 ^ 63)
    (hnot : ¬ fs.AnswersFromCache c url t) :
    ¬ (fs.setCachedResponse c checks (urlToCacheKey c url) r ttl t).2.AnswersFromCache c url t ↔
      2 ^ 63 ≤ timestamp t + ttl.toNat := by
  constructor
  · intro h
    by_contra hsum
    obtain ⟨expiry, hexpiry, hvalue⟩ := exists_expirySecs checks hnonneg (Int.not_le.1 hsum)
    obtain ⟨headers, hparsed, -⟩ := hjson
    have hkeeps : (fs.setCachedResponse c checks (urlToCacheKey c url) r ttl t).2.Keeps c
        (urlToCacheKey c url) ⟨url, [], r, expiry⟩ :=
      keeps_setCachedResponse (f := ⟨url, [], r, expiry⟩) hexpiry
    have hfresh : timestamp t ≤ expiry.toInt64.toInt := by omega
    exact h ⟨_, hkeeps.getCachedResponse_of_le hutf8 hparsed hfresh⟩
  · intro hsum
    cases hexpiry : expirySecs checks t ttl with
    | none => exact (sparesKey_setCachedResponse hexpiry).not_answersFromCache le_rfl hnot
    | some expiry =>
      have hkeeps : (fs.setCachedResponse c checks (urlToCacheKey c url) r ttl t).2.Keeps c
          (urlToCacheKey c url) ⟨url, [], r, expiry⟩ :=
        keeps_setCachedResponse (f := ⟨url, [], r, expiry⟩) hexpiry
      rintro ⟨r', hr'⟩
      rw [hkeeps.getCachedResponse_of_lt (expirySecs_lt hnonneg hlt hsum hexpiry)] at hr'
      cases hr'

/-- Writing a response makes no difference to what is found. -/
lemma answersFromCache_storeResponseDirect (id : Bytes) (r : HttpResponse) (now t : DateTime) :
    (fs.storeResponseDirect c id r now).AnswersFromCache c url t ↔ fs.AnswersFromCache c url t := by
  have hback : SparesKey c url (fs.storeResponseDirect c id r now) fs :=
    .of_get?_eq fun part => (get?_storeResponseDirect fs id r now part).symm
  rw [← not_iff_not]
  exact ⟨hback.not_answersFromCache le_rfl,
    (sparesKey_storeResponseDirect id r now).not_answersFromCache le_rfl⟩

/-- When the response of the origin is not served again. -/
lemma revalidates_iff {x : Execution} {r : RequestFiles} {response : HttpResponse}
    {keep : Option (Bytes × UInt64)} (hr : fs.readRequest x.id = .ok r)
    (hexchange : fs.exchange c x.id x.now x.origin = .ok (.answered response keep))
    (hclock : x.now ≤ x.later) (hnonneg : 0 ≤ timestamp x.later)
    (hlt : timestamp x.later < 2 ^ 63) (hjson : RoundTrips c response.headers)
    (hutf8 : isUtf8 (c.toJson response.headers) = true) :
    fs.Revalidates c checks x (trim r.url) ↔
      (Method.parse r.method = some .GET → response.status = 200 →
        (∀ d ∈ parts (cacheControl response.headers), ¬ IsNoStore d) →
        2 ^ 63 ≤ timestamp x.later +
          ((lastAge (cacheControl response.headers)).getD DEFAULT_CACHE_TTL_SECS).toNat) ∧
      (Method.parse r.method ≠ some .GET → ¬ fs.AnswersFromCache c (trim r.url) x.later) := by
  obtain ⟨⟨method, hmethod, hkeep⟩, hnone⟩ := of_exchange_answered hr hexchange
  have hget : Method.parse r.method = some .GET →
      ¬ fs.AnswersFromCache c (trim r.url) x.later := by
    intro hget
    refine (SparesKey.refl fs).not_answersFromCache hclock ?_
    rintro ⟨cached, hcached⟩
    rw [hnone hget] at hcached
    cases hcached
  rw [keepFor_eq] at hkeep
  rw [revalidates_iff_executed, executed, HttpFS.executeRequest, hexchange, hmethod]
  simp only [hmethod, Option.some.injEq, ne_eq] at hget ⊢
  by_cases hkept : method = .GET ∧ response.status = 200 ∧
      ∀ d ∈ parts (cacheControl response.headers), ¬ IsNoStore d
  · rw [if_pos hkept] at hkeep
    rw [hkeep, Option.map_some]
    dsimp only
    rw [answersFromCache_kept hjson hutf8 hnonneg hlt]
    · exact ⟨fun h => ⟨fun _ _ _ => h, fun hne => absurd hkept.1 hne⟩,
        fun h => h.1 hkept.1 hkept.2.1 hkept.2.2⟩
    · rw [answersFromCache_storeResponseDirect]
      exact hget hkept.1
  · rw [if_neg hkept] at hkeep
    rw [hkeep, Option.map_none]
    dsimp only
    rw [answersFromCache_storeResponseDirect]
    exact ⟨fun h => ⟨fun hGET hstatus hstore => absurd ⟨hGET, hstatus, hstore⟩ hkept, fun _ => h⟩,
      fun h => (em (method = .GET)).elim hget h.2⟩

variable (c checks) in
/-- **Cache control.**  The order of a list of directives makes no difference if and only if those
that set an age set the same one.  After the execution of a request that the origin has answered,
no `GET` of the URL is answered from the cache if and only if the response was not to be kept (the
request is no `GET`, the status not 200, or there is a `no-store`) or its expiry leaves its range;
and, for a request that is no `GET`, none was before. -/
theorem cacheControl_iff :
    (∀ ds, OrderFree ds ↔ AgesAgree ds) ∧
    ∀ (fs : HttpFS) (x : Execution) (r : RequestFiles) (response : HttpResponse)
      (keep : Option (Bytes × UInt64)), fs.readRequest x.id = .ok r →
      fs.exchange c x.id x.now x.origin = .ok (.answered response keep) → x.now ≤ x.later →
      0 ≤ timestamp x.later → timestamp x.later < 2 ^ 63 → RoundTrips c response.headers →
      isUtf8 (c.toJson response.headers) = true →
      (fs.Revalidates c checks x (trim r.url) ↔
        (Method.parse r.method = some .GET → response.status = 200 →
          (∀ d ∈ parts (cacheControl response.headers), ¬ IsNoStore d) →
          2 ^ 63 ≤ timestamp x.later +
            ((lastAge (cacheControl response.headers)).getD DEFAULT_CACHE_TTL_SECS).toNat) ∧
        (Method.parse r.method ≠ some .GET → ¬ fs.AnswersFromCache c (trim r.url) x.later)) :=
  ⟨orderFree_iff, fun _ _ _ _ _ => revalidates_iff⟩

/-! ### A mailbox that must not be kept -/

/-- What is before and after the value of the only header. -/
def controlJson : String × String := ("\x7b\"cache-control\":\"", "\"\x7d")

/-- A hash, and JSON for one header at most, whose value has nothing to escape. -/
def controlCrates : Crates where
  hash := mailCrates.hash
  toJson headers :=
    match headers.get? (ascii "cache-control") with
    | some value => ascii controlJson.1 ++ value ++ ascii controlJson.2
    | none => ascii "\x7b\x7d"
  fromJson json :=
    if (ascii controlJson.1).isPrefixOf json then
      .ok ((∅ : Headers).insert (ascii "cache-control")
        ((json.drop (ascii controlJson.1).length).rdrop (ascii controlJson.2).length))
    else .ok ∅

/-- The headers of the answer. -/
def controlHeaders (value : String) : Headers :=
  (∅ : Headers).insert (ascii "cache-control") (ascii value)

/-- An origin that answers with such headers. -/
def controlOrigin (value : String) : Origin where
  client := .ok ()
  send := fun _ => .ok ⟨200, controlHeaders value, .ok (ascii "Dear Alice")⟩

/-- A request for the mailbox has been written down. -/
def controlTable : HttpFS :=
  (new 0).after controlCrates false (.mkdir ⟨ascii "/requests/a"⟩ 0 ::
    (putOps "/requests/a/url" "http://mail/inbox" (controlOrigin "") ++
      putOps "/requests/a/method" "GET" (controlOrigin "")))

/-- It is executed. -/
def controlExecution (value : String) : Execution := ⟨ascii "a", 0, 0, controlOrigin value⟩

def controlRequest : RequestFiles := ⟨ascii "http://mail/inbox", ascii "GET", [], []⟩

lemma readRequest_control : controlTable.readRequest (ascii "a") = .ok controlRequest := by
  have h : ok? (controlTable.readRequest (ascii "a")) = some controlRequest := by decide +kernel
  exact ok?_eq_some.1 h

lemma parse_control : Method.parse controlRequest.method = some .GET := by decide

lemma exchange_control (value : String) :
    controlTable.exchange controlCrates (ascii "a") 0 (controlOrigin value) =
      .ok (.answered ⟨200, controlHeaders value, ascii "Dear Alice"⟩
        ((keepFor .GET ⟨200, controlHeaders value, ascii "Dear Alice"⟩).map fun ttl =>
          (urlToCacheKey controlCrates (trim controlRequest.url), ttl))) := by
  have hcold : (controlTable.getCachedResponse controlCrates
      (urlToCacheKey controlCrates (trim controlRequest.url)) 0).isSome = false := by decide +kernel
  rw [Option.isSome_eq_false_iff, Option.isNone_iff_eq_none] at hcold
  rw [exchange, readRequest_control, Outcome.ok_bind, if_pos parse_control, hcold]
  simp only [ask, parse_control]
  rfl

lemma toJson_control (value : String) : controlCrates.toJson (controlHeaders value) =
    ascii controlJson.1 ++ (ascii value ++ ascii controlJson.2) := by
  rw [controlCrates, controlHeaders]
  dsimp only
  rw [AssocMap.get?_insert_self]
  exact List.append_assoc _ _ _

lemma roundTrips_control (value : String) : RoundTrips controlCrates (controlHeaders value) := by
  refine ⟨controlHeaders value, ?_, fun _ => rfl⟩
  have hprefix : (ascii controlJson.1).isPrefixOf
      (ascii controlJson.1 ++ (ascii value ++ ascii controlJson.2)) = true :=
    List.isPrefixOf_iff_prefix.2 (List.prefix_append _ _)
  rw [toJson_control, controlCrates]
  dsimp only
  rw [if_pos hprefix, List.drop_left, List.rdrop_append_length]
  rfl

/-- A response with `no-store` is not served again. -/
theorem revalidates_noStore : controlTable.Revalidates controlCrates false
    (controlExecution "max-age=60, no-store") (ascii "http://mail/inbox") := by
  have hstore : ¬ ∀ d ∈ parts (cacheControl (controlHeaders "max-age=60, no-store")),
      ¬ IsNoStore d := by decide
  have hutf8 : isUtf8 (controlCrates.toJson (controlHeaders "max-age=60, no-store")) = true := by
    decide
  refine ((cacheControl_iff controlCrates false).2 controlTable
    (controlExecution "max-age=60, no-store") controlRequest _ _ readRequest_control
    (exchange_control _) (by decide) (by decide) (by decide) (roundTrips_control _) hutf8).2
      ⟨fun _ _ h => absurd h hstore, fun h => absurd parse_control h⟩

/-- The order of `no-cache` and `max-age` makes a difference, and a response with both is served
again after half a minute; one with `no-cache` alone is, too, within the second. -/
theorem cacheControl_not_honoured :
    ¬ OrderFree [ascii "no-cache", ascii "max-age=60"] ∧
    (∃ response keep, controlTable.exchange controlCrates (ascii "a") 0
        (controlOrigin "no-cache, max-age=60") = .ok (.answered response keep) ∧
      IsNoCache (ascii "no-cache") ∧ ascii "no-cache" ∈ parts (cacheControl response.headers)) ∧
    (∃ cached, (controlTable.executed controlCrates false
        (controlExecution "no-cache, max-age=60")).exchange controlCrates (ascii "a") 30000000000
          (controlOrigin "") = .ok (.served cached)) ∧
    ∃ cached, (controlTable.executed controlCrates false
        (controlExecution "no-cache")).exchange controlCrates (ascii "a") 0
          (controlOrigin "") = .ok (.served cached) := by
  have hserved : ∀ value t, ok? ((controlTable.executed controlCrates false
        (controlExecution value)).readRequest (ascii "a")) = some controlRequest →
      ((controlTable.executed controlCrates false (controlExecution value)).getCachedResponse
        controlCrates (urlToCacheKey controlCrates (trim controlRequest.url)) t).isSome = true →
      ∃ cached, (controlTable.executed controlCrates false
        (controlExecution value)).exchange controlCrates (ascii "a") t (controlOrigin "") =
          .ok (.served cached) := by
    intro value t hread hfound
    obtain ⟨cached, hcached⟩ := Option.isSome_iff_exists.1 hfound
    exact ⟨cached, exchange_of_cached (ok?_eq_some.1 hread) parse_control hcached⟩
  refine ⟨?_, ⟨_, _, exchange_control _, by decide, by decide⟩,
    hserved _ _ (by decide +kernel) (by decide +kernel),
    hserved _ _ (by decide +kernel) (by decide +kernel)⟩
  rw [orderFree_iff]
  intro h
  have hages := h (ascii "no-cache") (by decide) (ascii "max-age=60") (by decide) 0 60 (by decide)
    (by decide)
  exact absurd hages (by decide)

end Racfs.HttpFs
