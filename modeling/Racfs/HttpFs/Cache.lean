/-
# What is served from the cache

A `GET` looks for a response that is kept under the key of its URL before it parses its headers,
so its headers make no difference.  What is kept comes from earlier executions only, as long as
nobody writes to the files below `/cache` (`Inv`): the four files of a response are written
together, and an operation on other paths leaves them as they are or removes them
(`SparesCache`).

So a response that is served was stored by an earlier `GET` of the same URL, if the hashes of the
URLs of the run do not collide, and that request may have had other headers
(`served_of_fetch`).
-/
import Racfs.HttpFs.Model

namespace Racfs.HttpFs

open HttpFS

/-! ### The files of the cache -/

/-- The files of a response that is kept. -/
inductive Part
  | expiry
  | status
  | headers
  | body

/-- The name of the file. -/
def Part.name : Part → String
  | expiry => "expiry"
  | status => "status"
  | headers => "headers.json"
  | body => "body"

/-- A response that an execution has kept. -/
structure Fetch where
  /-- The URL without white space around it. -/
  url : Bytes
  /-- The headers of the request. -/
  headersJson : Bytes
  response : HttpResponse
  expiry : UInt64

/-- The content of the file. -/
def Part.content (c : Crates) (f : Fetch) : Part → Bytes
  | expiry => decimal f.expiry.toNat
  | status => decimal f.response.status.toNat
  | headers => c.toJson f.response.headers
  | body => f.response.body

/-- The path is `/cache` or below it. -/
def InCache (p : PathBuf) : Prop := p.startsWith ⟨ascii "/cache"⟩ = true

instance (p : PathBuf) : Decidable (InCache p) :=
  inferInstanceAs (Decidable (p.startsWith ⟨ascii "/cache"⟩ = true))

variable {c : Crates} {checks : Bool} {fs fs' : HttpFS}

lemma hexDigits_injective {n x y : ℕ} (hx : x < 16 ^ n) (hy : y < 16 ^ n)
    (h : (hexDigits x n).map (fun d => d.toNat.toUInt8) =
      (hexDigits y n).map fun d => d.toNat.toUInt8) : x = y := by
  have hdigit : ∀ a b : Fin 16, (Nat.digitChar a).toNat.toUInt8 = (Nat.digitChar b).toNat.toUInt8 →
      a = b := by decide
  induction n generalizing x y with
  | zero => omega
  | succ n ih =>
    rw [hexDigits, hexDigits, List.map_append, List.map_append] at h
    obtain ⟨hfront, hlast⟩ := List.append_inj' h rfl
    have hdiv := ih (by omega) (by omega) hfront
    have hmod := hdigit ⟨x % 16, Nat.mod_lt x (by decide)⟩ ⟨y % 16, Nat.mod_lt y (by decide)⟩
      (List.cons.inj hlast).1
    have := congrArg Fin.val hmod
    simp only at this
    omega

/-- Keys are equal exactly if the hashes are. -/
lemma urlToCacheKey_eq_iff {u v : Bytes} :
    urlToCacheKey c u = urlToCacheKey c v ↔ c.hash u = c.hash v := by
  constructor
  · intro h
    have hlt : ∀ w, (c.hash w).toNat < 16 ^ 16 := fun w => (c.hash w).toNat_lt
    exact UInt64.toNat_inj.1 (hexDigits_injective (hlt u) (hlt v) h)
  · intro h
    rw [urlToCacheKey, urlToCacheKey, h]

lemma isName_urlToCacheKey (u : Bytes) : IsName (urlToCacheKey c u) := by
  have hdigit : ∀ d : Fin 16, (Nat.digitChar d).toNat.toUInt8 ≠ slash ∧
      (Nat.digitChar d).toNat.toUInt8 ≠ dot := by decide
  have hmem : ∀ (x n : ℕ), ∀ b ∈ (hexDigits x n).map (fun d => d.toNat.toUInt8),
      b ≠ slash ∧ b ≠ dot := by
    intro x n
    induction n generalizing x with
    | zero => simp [hexDigits]
    | succ n ih =>
      rw [hexDigits, List.map_append]
      refine List.forall_mem_append.2 ⟨ih (x / 16), ?_⟩
      simpa using hdigit ⟨x % 16, Nat.mod_lt x (by decide)⟩
  have hno : ∀ b ∈ urlToCacheKey c u, b ≠ slash ∧ b ≠ dot := hmem _ 16
  have hne : urlToCacheKey c u ≠ [] := by simp [urlToCacheKey, hexDigits]
  refine ⟨hne, fun h => (hno slash h).1 rfl, fun heq => ?_, fun heq => ?_⟩
  all_goals exact (hno dot (by simp [heq])).2 rfl

/-- The directory of a key, as a path with its names. -/
lemma components_cacheDir {key : Bytes} (hkey : IsName key) :
    (cacheDir key).components = [.rootDir, .normal (ascii "cache"), .normal key] := by
  have hcache : IsName (ascii "cache") := by decide
  have htext : cacheDir key =
      (AbsPath.mk [ascii "cache", key] (by simp [hcache, hkey])).toPath := by
    simp [cacheDir, AbsPath.toPath, AbsPath.text, ascii, slash]
  rw [htext, AbsPath.components_toPath]
  rfl

lemma components_cachePath {key : Bytes} (hkey : IsName key) {name : String}
    (hname : IsName (ascii name)) : (cachePath key name).components =
      [.rootDir, .normal (ascii "cache"), .normal key, .normal (ascii name)] := by
  rw [cachePath, PathBuf.components_push_name _ hname, components_cacheDir hkey]
  rfl

lemma inCache_cachePath {key : Bytes} (hkey : IsName key) {name : String}
    (hname : IsName (ascii name)) : InCache (cachePath key name) := by
  have hbase : (PathBuf.mk (ascii "/cache")).components = [.rootDir, .normal (ascii "cache")] := by
    decide
  rw [InCache, PathBuf.startsWith_iff, components_cachePath hkey hname, hbase]
  exact ⟨_, rfl⟩

lemma inCache_congr {p q : PathBuf} (h : (p == q) = true) : InCache p ↔ InCache q := by
  rw [InCache, InCache, PathBuf.startsWith, PathBuf.startsWith, PathBuf.beq_iff.1 h]

lemma cachePath_beq {k k' : Bytes} (hk : IsName k) (hk' : IsName k') {n n' : String}
    (hn : IsName (ascii n)) (hn' : IsName (ascii n')) :
    (cachePath k n == cachePath k' n') = true ↔ k = k' ∧ ascii n = ascii n' := by
  rw [PathBuf.beq_iff, components_cachePath hk hn, components_cachePath hk' hn']
  simp

lemma Part.isName_name (p : Part) : IsName (ascii p.name) := by cases p <;> decide

/-- The first name of a path below a directory of the root. -/
lemma components_below {d : Bytes} (hd : IsName d) (rest : Bytes) :
    (PathBuf.mk (slash :: (d ++ slash :: rest))).components =
      .rootDir :: .normal d :: (rest.splitOn slash).filterMap Component.parse := by
  have hsplit : (d ++ slash :: rest).splitOn slash = d :: rest.splitOn slash := by
    rw [List.splitOn_append_cons_self, List.splitOn_eq_singleton hd.2.1, List.singleton_append]
  rw [PathBuf.components_cons_slash, hsplit, List.filterMap_cons, Component.parse_of_isName hd]

/-! ### Operations on other paths -/

/-- The files of the cache were there before, with the same content. -/
def SparesCache (c : Crates) (fs fs' : HttpFS) : Prop :=
  ∀ url (part : Part) e', fs'.files.get? (cachePath (urlToCacheKey c url) part.name) = some e' →
    ∃ e, fs.files.get? (cachePath (urlToCacheKey c url) part.name) = some e ∧ e.data = e'.data

/-- The files below the key of a URL were there before, with the same content. -/
def SparesKey (c : Crates) (url : Bytes) (fs fs' : HttpFS) : Prop :=
  ∀ (part : Part) e', fs'.files.get? (cachePath (urlToCacheKey c url) part.name) = some e' →
    ∃ e, fs.files.get? (cachePath (urlToCacheKey c url) part.name) = some e ∧ e.data = e'.data ∧
      e.metadata.isDirectory = e'.metadata.isDirectory

lemma SparesCache.of_keys (h : ∀ url, SparesKey c url fs fs') : SparesCache c fs fs' := by
  intro url part e' he'
  obtain ⟨e, he, hdata, -⟩ := h url part e' he'
  exact ⟨e, he, hdata⟩

variable {url : Bytes}

lemma SparesKey.refl (fs : HttpFS) : SparesKey c url fs fs := fun _ e' h => ⟨e', h, rfl, rfl⟩

lemma SparesKey.trans {a b d : HttpFS} (hab : SparesKey c url a b) (hbd : SparesKey c url b d) :
    SparesKey c url a d := by
  intro part e' he'
  obtain ⟨e, he, hdata, hkind⟩ := hbd part e' he'
  obtain ⟨e₀, he₀, hdata₀, hkind₀⟩ := hab part e he
  exact ⟨e₀, he₀, hdata₀.trans hdata, hkind₀.trans hkind⟩

/-- The files below the key are the same. -/
lemma SparesKey.of_get?_eq (h : ∀ part : Part,
    fs'.files.get? (cachePath (urlToCacheKey c url) part.name) =
      fs.files.get? (cachePath (urlToCacheKey c url) part.name)) : SparesKey c url fs fs' :=
  fun part e' he' => ⟨e', (h part).symm.trans he', rfl, rfl⟩

lemma inCache_of_beq {q : PathBuf} {part : Part}
    (h : (q == cachePath (urlToCacheKey c url) part.name) = true) : InCache q :=
  (inCache_congr h).2 (inCache_cachePath (isName_urlToCacheKey url) part.isName_name)

lemma get?_insert_of_not_inCache {q : PathBuf} (hq : ¬ InCache q) (e : FileEntry) (part : Part) :
    (fs.files.insert q e).get? (cachePath (urlToCacheKey c url) part.name) =
      fs.files.get? (cachePath (urlToCacheKey c url) part.name) := by
  rw [AssocMap.get?_insert, if_neg fun h => hq (inCache_of_beq h)]

/-- Outside of the cache anything can be put. -/
lemma SparesKey.insert {q : PathBuf} (hq : ¬ InCache q) (e : FileEntry) :
    SparesKey c url fs ⟨fs.files.insert q e⟩ :=
  .of_get?_eq fun part => get?_insert_of_not_inCache hq e part

/-- An entry can be changed outside of the cache, and otherwise if its content and its type
stay. -/
lemma SparesKey.modify {q : PathBuf} {f : FileEntry → FileEntry} (h : ¬ InCache q ∨
    ∀ e, (f e).data = e.data ∧ (f e).metadata.isDirectory = e.metadata.isDirectory) :
    SparesKey c url fs ⟨fs.files.modify q f⟩ := by
  intro part e' he'
  rw [AssocMap.get?_modify] at he'
  split_ifs at he' with hq
  · obtain ⟨e, he, rfl⟩ := Option.map_eq_some_iff.1 he'
    obtain ⟨hdata, hkind⟩ := h.resolve_left (not_not.2 (inCache_of_beq hq)) e
    exact ⟨e, he, hdata.symm, hkind.symm⟩
  · exact ⟨e', he', rfl, rfl⟩

lemma SparesKey.erase (q : PathBuf) : SparesKey c url fs ⟨fs.files.erase q⟩ :=
  fun _ e' he' => ⟨e', AssocMap.get?_of_get?_erase he', rfl, rfl⟩

lemma SparesKey.retain (f : PathBuf → FileEntry → Bool) :
    SparesKey c url fs ⟨fs.files.retain f⟩ :=
  fun _ e' he' => ⟨e', AssocMap.get?_of_get?_retain he', rfl, rfl⟩

lemma not_inCache_response (rest : Bytes) : ¬ InCache ⟨ascii "/responses/" ++ rest⟩ := by
  have hbase : (PathBuf.mk (ascii "/cache")).components = [.rootDir, .normal (ascii "cache")] := by
    decide
  have hbytes : ascii "/responses/" ++ rest = slash :: (ascii "responses" ++ slash :: rest) := rfl
  rw [InCache, PathBuf.startsWith_iff, hbase, hbytes, components_below (by decide)]
  intro h
  have := (List.cons_prefix_cons.1 (List.cons_prefix_cons.1 h).2).1
  exact absurd this (by decide)

/-- Writing a response leaves the cache alone. -/
lemma get?_storeResponseDirect (fs : HttpFS) (id : Bytes) (r : HttpResponse) (now : DateTime)
    (part : Part) : (fs.storeResponseDirect c id r now).files.get?
        (cachePath (urlToCacheKey c url) part.name) =
      fs.files.get? (cachePath (urlToCacheKey c url) part.name) := by
  have hpath : ∀ name, ¬ InCache (responsePath id name) := fun name => by
    rw [responsePath, List.append_assoc, List.append_assoc]
    exact not_inCache_response _
  have hput : ∀ (fs : HttpFS) (name : String) (data : Bytes) (size : UInt64),
      (fs.putFile (responsePath id name) data size now).files.get?
        (cachePath (urlToCacheKey c url) part.name) =
      fs.files.get? (cachePath (urlToCacheKey c url) part.name) :=
    fun fs name data size => get?_insert_of_not_inCache (hpath name) _ part
  rw [storeResponseDirect, hput, hput, hput, ensureDirectory]
  split_ifs
  · rfl
  · exact get?_insert_of_not_inCache (not_inCache_response id) _ part

lemma sparesKey_storeResponseDirect (id : Bytes) (r : HttpResponse) (now : DateTime) :
    SparesKey c url fs (fs.storeResponseDirect c id r now) :=
  .of_get?_eq (get?_storeResponseDirect fs id r now)

/-! ### What executions keep -/

/-- What an execution keeps. -/
def HttpFS.fetched (c : Crates) (checks : Bool) (fs : HttpFS) (id : Bytes) (now later : DateTime)
    (origin : Origin) : Option Fetch :=
  match fs.readRequest id, fs.exchange c id now origin with
  | .ok r, .ok (.answered response (some (_, ttl))) =>
    (expirySecs checks later ttl).map fun expiry =>
      ⟨trim r.url, r.headersJson, response, expiry⟩
  | _, _ => none

/-- A request that is executed. -/
structure Execution where
  id : Bytes
  now : DateTime
  later : DateTime
  origin : Origin

/-- The request that an operation executes. -/
def Op.execution (fs : HttpFS) : Op → Option Execution
  | .write path data _ _ now later origin =>
    match fs.files.get? path with
    | none => none
    | some e =>
      if e.metadata.isDirectory then none
      else if path.fileName = some (ascii "trigger") ∧
          trim (fromUtf8Lossy data) = ascii "send" then
        match parseRequestId path with
        | .ok id => some ⟨id, now, later, origin⟩
        | _ => none
      else none
  | _ => none

/-- What an operation keeps. -/
def Op.fetched (c : Crates) (checks : Bool) (fs : HttpFS) (op : Op) : Option Fetch :=
  (op.execution fs).bind fun x => fs.fetched c checks x.id x.now x.later x.origin

/-- The path at which an operation may put content. -/
def Op.target : Op → Option PathBuf
  | .create path _ | .write path _ _ _ _ _ _ | .mkdir path _ | .rename _ path
  | .truncate path _ _ | .touch path _ => some path
  | .remove _ | .removeAll _ | .chmod _ _ _ => none

/-- The operation puts no content into the cache by itself. -/
def Op.Spares (op : Op) : Prop := ∀ p ∈ op.target, ¬ InCache p

instance (op : Op) : Decidable op.Spares :=
  inferInstanceAs (Decidable (∀ p ∈ op.target, ¬ InCache p))

/-- The filesystem after some operations. -/
def HttpFS.after (c : Crates) (checks : Bool) (fs : HttpFS) (ops : List Op) : HttpFS :=
  ops.foldl (fun fs op => (fs.exec c checks op).2) fs

/-- What they keep, in their order. -/
def HttpFS.fetches (c : Crates) (checks : Bool) (fs : HttpFS) : List Op → List Fetch
  | [] => []
  | op :: ops => (op.fetched c checks fs).toList ++ (fs.exec c checks op).2.fetches c checks ops

/-- The last response that was kept under a key, if the last one comes first. -/
def latest (c : Crates) (key : Bytes) (log : List Fetch) : Option Fetch :=
  log.find? fun f => urlToCacheKey c f.url = key

/-- The files of the cache come from what was kept last under their keys. -/
def Inv (c : Crates) (fs : HttpFS) (log : List Fetch) : Prop :=
  ∀ url (part : Part) e, fs.files.get? (cachePath (urlToCacheKey c url) part.name) = some e →
    ∃ f, latest c (urlToCacheKey c url) log = some f ∧ e.data = part.content c f

/-! ### The step -/

lemma Inv.spares {log : List Fetch} (h : Inv c fs log) (hspares : SparesCache c fs fs') :
    Inv c fs' log := by
  intro url part e' he'
  obtain ⟨e, he, hdata⟩ := hspares url part e' he'
  obtain ⟨f, hf, hcontent⟩ := h url part e he
  exact ⟨f, hf, hdata ▸ hcontent⟩

variable (fs) in
lemma get?_putFile {k k' : Bytes} (hk : IsName k) (hk' : IsName k') {n n' : String}
    (hn : IsName (ascii n)) (hn' : IsName (ascii n')) (data : Bytes) (size : UInt64)
    (now : DateTime) : (fs.putFile (cachePath k n) data size now).files.get? (cachePath k' n') =
      if k = k' ∧ ascii n = ascii n' then some ⟨data, .file (cachePath k n) size now⟩
      else fs.files.get? (cachePath k' n') := by
  rw [putFile, AssocMap.get?_insert]
  exact if_congr (cachePath_beq hk hk' hn hn') rfl rfl

variable (fs) in
lemma get?_ensureDirectory {k k' : Bytes} (hk : IsName k) (hk' : IsName k') {n : String}
    (hn : IsName (ascii n)) (now : DateTime) :
    (fs.ensureDirectory (cacheDir k) now).files.get? (cachePath k' n) =
      fs.files.get? (cachePath k' n) := by
  have hne : ¬ (cacheDir k == cachePath k' n) = true := by
    rw [PathBuf.beq_iff, components_cacheDir hk, components_cachePath hk' hn]
    simp
  rw [ensureDirectory]
  split_ifs
  · rfl
  · rw [putDirectory, AssocMap.get?_insert, if_neg hne]

variable (c fs) in
/-- Keeping a response writes its four files together. -/
lemma get?_setCachedResponse {f : Fetch} {ttl : UInt64} {now : DateTime}
    (hexpiry : expirySecs checks now ttl = some f.expiry) (url : Bytes) (part : Part) :
    ∃ size, (fs.setCachedResponse c checks (urlToCacheKey c f.url) f.response ttl
        now).2.files.get? (cachePath (urlToCacheKey c url) part.name) =
      if urlToCacheKey c f.url = urlToCacheKey c url then
        some ⟨part.content c f, .file (cachePath (urlToCacheKey c url) part.name) size now⟩
      else fs.files.get? (cachePath (urlToCacheKey c url) part.name) := by
  have hk := isName_urlToCacheKey (c := c) f.url
  have hk' := isName_urlToCacheKey (c := c) url
  have hput := fun (fs : HttpFS) {n : String} (hn : IsName (ascii n)) =>
    get?_putFile fs hk hk' hn part.isName_name
  have hdir := get?_ensureDirectory fs hk hk' part.isName_name now
  rw [HttpFS.setCachedResponse, hexpiry]
  simp only
  cases etag f.response.headers <;> dsimp only
  all_goals
    simp (disch := decide) only [hput, hdir]
    by_cases hkey : urlToCacheKey c f.url = urlToCacheKey c url
    · simp only [hkey, true_and, if_true]
      cases part <;> exact ⟨_, rfl⟩
    · exact ⟨0, by simp [hkey]⟩

/-- Keeping a response writes its four files together. -/
lemma Inv.setCachedResponse {log : List Fetch} (h : Inv c fs log) {f : Fetch} {ttl : UInt64}
    {now : DateTime} (hexpiry : expirySecs checks now ttl = some f.expiry) :
    Inv c (fs.setCachedResponse c checks (urlToCacheKey c f.url) f.response ttl now).2
      (f :: log) := by
  intro url part e he
  obtain ⟨size, hget⟩ := get?_setCachedResponse c fs hexpiry url part
  rw [hget] at he
  rw [latest, List.find?_cons]
  split_ifs at he with hkey
  · obtain rfl := Option.some.inj he
    exact ⟨f, by simp [hkey], rfl⟩
  · obtain ⟨g, hg, hcontent⟩ := h url part e he
    exact ⟨g, by simpa [hkey, latest] using hg, hcontent⟩

/-- Without an expiry only the directory of the key is made. -/
lemma sparesKey_setCachedResponse {url' : Bytes} {r : HttpResponse} {ttl : UInt64}
    {now : DateTime} (hexpiry : expirySecs checks now ttl = none) :
    SparesKey c url fs (fs.setCachedResponse c checks (urlToCacheKey c url') r ttl now).2 := by
  rw [HttpFS.setCachedResponse, hexpiry]
  exact .of_get?_eq fun part => get?_ensureDirectory fs (isName_urlToCacheKey url')
    (isName_urlToCacheKey url) part.isName_name now

lemma exists_of_bind_eq_ok {A B : Type} {x : Outcome A} {f : A → Outcome B} {b : B}
    (h : x.bind f = .ok b) : ∃ a, x = .ok a ∧ f a = .ok b := by
  cases x with
  | ok a => exact ⟨a, rfl, h⟩
  | err e => cases h
  | panic => cases h

/-- An answer is kept under the key of the URL. -/
lemma key_of_ask {r : RequestFiles} {origin : Origin} {response : HttpResponse} {key : Bytes}
    {ttl : UInt64} (h : fs.ask c r origin = .ok (.answered response (some (key, ttl)))) :
    key = urlToCacheKey c (trim r.url) := by
  obtain ⟨headers, -, h⟩ := exists_of_bind_eq_ok h
  obtain ⟨-, -, h⟩ := exists_of_bind_eq_ok h
  split at h
  · cases h
  · obtain ⟨answer, -, h⟩ := exists_of_bind_eq_ok h
    obtain ⟨body, -, h⟩ := exists_of_bind_eq_ok h
    simp only [Outcome.ok.injEq, Exchange.answered.injEq] at h
    obtain ⟨ttl', -, hkey⟩ := Option.map_eq_some_iff.1 h.2
    exact (Prod.mk.inj hkey).1.symm

lemma exists_readRequest {id : Bytes} {now : DateTime} {origin : Origin} {x : Exchange}
    (h : fs.exchange c id now origin = .ok x) : ∃ r, fs.readRequest id = .ok r := by
  rw [exchange] at h
  obtain ⟨r, hr, -⟩ := exists_of_bind_eq_ok h
  exact ⟨r, hr⟩

lemma key_of_exchange {id : Bytes} {now : DateTime} {origin : Origin} {r : RequestFiles}
    {response : HttpResponse} {key : Bytes} {ttl : UInt64} (hr : fs.readRequest id = .ok r)
    (h : fs.exchange c id now origin = .ok (.answered response (some (key, ttl)))) :
    key = urlToCacheKey c (trim r.url) := by
  rw [exchange, hr, Outcome.ok_bind] at h
  split_ifs at h
  · split at h
    · cases h
    · exact key_of_ask h
  · exact key_of_ask h

/-- An execution leaves the cache alone or keeps a response. -/
lemma Inv.executeRequest {log : List Fetch} (h : Inv c fs log) (id : Bytes)
    (now later : DateTime) (origin : Origin) :
    Inv c (fs.executeRequest c checks id now later origin).2
      ((fs.fetched c checks id now later origin).toList ++ log) := by
  have hstored := fun r => h.spares (.of_keys fun _ => sparesKey_storeResponseDirect id r later)
  rw [HttpFS.executeRequest, HttpFS.fetched]
  match hexchange : fs.exchange c id now origin with
  | .err _ | .panic =>
    cases fs.readRequest id <;> exact h
  | .ok (.served r) | .ok (.answered r none) =>
    cases fs.readRequest id <;> exact hstored r
  | .ok (.answered response (some (key, ttl))) =>
    obtain ⟨r, hr⟩ := exists_readRequest hexchange
    have hkey := key_of_exchange hr hexchange
    simp only [hr, hkey]
    cases hexpiry : expirySecs checks later ttl with
    | none =>
      exact (hstored response).spares (.of_keys fun _ => sparesKey_setCachedResponse hexpiry)
    | some expiry =>
      rw [Option.map_some, Option.toList_some, List.singleton_append]
      exact (hstored response).setCachedResponse
        (f := ⟨trim r.url, r.headersJson, response, expiry⟩) hexpiry

lemma sparesKey_create {path : PathBuf} (h : ¬ InCache path) (now : DateTime) :
    SparesKey c url fs (fs.create path now).2 := by
  rw [create]
  split
  · exact .refl fs
  · exact .refl fs
  · split_ifs
    · exact .refl fs
    · exact .refl fs
    · exact .insert h _

lemma sparesKey_mkdir {path : PathBuf} (h : ¬ InCache path) (now : DateTime) :
    SparesKey c url fs (fs.mkdir path now).2 := by
  rw [mkdir]
  split_ifs
  · exact .refl fs
  · exact .refl fs
  · exact .insert h _

lemma sparesKey_remove (path : PathBuf) : SparesKey c url fs (fs.remove path).2 := by
  rw [remove]
  split
  · exact .refl fs
  · dsimp only
    split_ifs <;> exact .erase path

lemma sparesKey_removeAll (path : PathBuf) : SparesKey c url fs (fs.removeAll path).2 := by
  rw [removeAll]
  split_ifs
  · exact .retain _
  · exact .refl fs

/-- An entry that is put back is where it was. -/
lemma sparesKey_rename {oldPath newPath : PathBuf} (h : ¬ InCache newPath) :
    SparesKey c url fs (fs.rename oldPath newPath).2 := by
  rw [rename]
  split
  · exact .refl fs
  · next e he =>
    dsimp only
    split_ifs
    · intro part e' he'
      rw [AssocMap.get?_insert_erase _ (BEq.rfl), ← AssocMap.get?_insert] at he'
      rw [AssocMap.get?_insert] at he'
      split_ifs at he' with hpath
      · obtain rfl := Option.some.inj he'
        exact ⟨e, by rw [← he, AssocMap.get?_congr _ hpath], rfl, rfl⟩
      · exact ⟨e', he', rfl, rfl⟩
    · exact (SparesKey.erase oldPath).trans (.insert h _)

lemma sparesKey_chmod (path : PathBuf) (mode : UInt32) (now : DateTime) :
    SparesKey c url fs (fs.chmod path mode now).2 := by
  rw [chmod]
  split
  · exact .refl fs
  · exact .modify (.inr fun _ => ⟨rfl, FileMetadata.isDirectory_setPermissions _ mode⟩)

lemma sparesKey_truncate {path : PathBuf} (h : ¬ InCache path) (size : UInt64)
    (now : DateTime) : SparesKey c url fs (fs.truncate path size now).2 := by
  rw [truncate]
  split
  · exact .refl fs
  · split_ifs
    · exact .refl fs
    · exact .modify (.inl h)

lemma sparesKey_touch {path : PathBuf} (h : ¬ InCache path) (now : DateTime) :
    SparesKey c url fs (fs.touch path now).2 := by
  have htimes : ∀ fs : HttpFS, SparesKey c url fs (fs.setTimes path now) :=
    fun fs => .modify (.inr fun _ => ⟨rfl, rfl⟩)
  have hcreate : SparesKey c url fs (fs.create path now).2 := sparesKey_create h now
  rw [touch]
  split_ifs
  · exact htimes fs
  · split
    · next heq => exact (heq ▸ hcreate).trans (htimes _)
    · exact hcreate

variable (checks) in
/-- A write executes a request or leaves the cache alone. -/
lemma write_cases {path : PathBuf} (h : ¬ InCache path) (data : Bytes) (offset : Int64)
    (flags : WriteFlags) (now later : DateTime) (origin : Origin) :
    (∃ x, (Op.write path data offset flags now later origin).execution fs = some x ∧
      (fs.write c checks path data offset flags now later origin).2 =
        (fs.executeRequest c checks x.id x.now x.later x.origin).2) ∨
    ((Op.write path data offset flags now later origin).execution fs = none ∧
      ∀ url, SparesKey c url fs (fs.write c checks path data offset flags now later origin).2) := by
  rw [Op.execution, write]
  cases fs.files.get? path with
  | none => exact .inr ⟨rfl, fun _ => .refl fs⟩
  | some e =>
    dsimp only
    split_ifs
    · exact .inr ⟨rfl, fun _ => .refl fs⟩
    · cases parseRequestId path with
      | ok id => exact .inl ⟨⟨id, now, later, origin⟩, rfl, rfl⟩
      | err _ => exact .inr ⟨rfl, fun _ => .refl fs⟩
      | panic => exact .inr ⟨rfl, fun _ => .refl fs⟩
    · exact .inr ⟨rfl, fun _ => .refl fs⟩
    · exact .inr ⟨rfl, fun _ => .modify (.inl h)⟩

variable (checks) in
/-- An operation executes a request or leaves the cache alone. -/
lemma exec_cases {op : Op} (hop : op.Spares) :
    (∃ x, op.execution fs = some x ∧ (fs.exec c checks op).2 =
      (fs.executeRequest c checks x.id x.now x.later x.origin).2) ∨
    (op.execution fs = none ∧ ∀ url, SparesKey c url fs (fs.exec c checks op).2) := by
  cases op with
  | create path now => exact .inr ⟨rfl, fun _ => sparesKey_create (hop path rfl) now⟩
  | mkdir path now => exact .inr ⟨rfl, fun _ => sparesKey_mkdir (hop path rfl) now⟩
  | remove path => exact .inr ⟨rfl, fun _ => sparesKey_remove path⟩
  | removeAll path => exact .inr ⟨rfl, fun _ => sparesKey_removeAll path⟩
  | rename oldPath newPath => exact .inr ⟨rfl, fun _ => sparesKey_rename (hop newPath rfl)⟩
  | chmod path mode now => exact .inr ⟨rfl, fun _ => sparesKey_chmod path mode now⟩
  | truncate path size now => exact .inr ⟨rfl, fun _ => sparesKey_truncate (hop path rfl) size now⟩
  | touch path now => exact .inr ⟨rfl, fun _ => sparesKey_touch (hop path rfl) now⟩
  | write path data offset flags now later origin =>
    exact write_cases checks (hop path rfl) data offset flags now later origin

variable (checks) in
/-- One operation. -/
lemma Inv.exec {log : List Fetch} (h : Inv c fs log) {op : Op} (hop : op.Spares) :
    Inv c (fs.exec c checks op).2 ((op.fetched c checks fs).toList ++ log) := by
  rw [Op.fetched]
  rcases exec_cases checks hop with ⟨x, hx, hexec⟩ | ⟨hnone, hspares⟩
  · rw [hx, hexec, Option.bind_some]
    exact h.executeRequest x.id x.now x.later x.origin
  · rw [hnone]
    exact h.spares (.of_keys hspares)

variable (checks) in
/-- A run. -/
lemma Inv.after {ops : List Op} (hops : ∀ op ∈ ops, op.Spares) {log : List Fetch}
    (h : Inv c fs log) :
    Inv c (fs.after c checks ops) ((fs.fetches c checks ops).reverse ++ log) := by
  induction ops generalizing fs log with
  | nil => exact h
  | cons op ops ih =>
    have hstep := ih (fun o ho => hops o (List.mem_cons_of_mem _ ho))
      (h.exec checks (hops op List.mem_cons_self))
    have hlog : (fs.fetches c checks (op :: ops)).reverse ++ log =
        ((fs.exec c checks op).2.fetches c checks ops).reverse ++
          ((op.fetched c checks fs).toList ++ log) := by
      rw [fetches, List.reverse_append, List.append_assoc]
      cases op.fetched c checks fs <;> rfl
    rw [hlog]
    exact hstep

lemma inv_new (now : DateTime) : Inv c (new now) [] := by
  intro url part e he
  have hkey := isName_urlToCacheKey (c := c) url
  have hcomponents := components_cachePath hkey part.isName_name
  have hne : ∀ p : PathBuf, p.components.length ≤ 2 →
      ¬ (p == cachePath (urlToCacheKey c url) part.name) = true := by
    intro p hp heq
    rw [PathBuf.beq_iff.1 heq, hcomponents] at hp
    simp at hp
  rw [new, putDirectory, putDirectory, putDirectory, putDirectory] at he
  simp only [AssocMap.get?_insert, if_neg (hne ⟨ascii "/"⟩ (by decide)),
    if_neg (hne ⟨ascii "/requests"⟩ (by decide)), if_neg (hne ⟨ascii "/responses"⟩ (by decide)),
    if_neg (hne ⟨ascii "/cache"⟩ (by decide)), AssocMap.get?_empty] at he
  cases he

/-! ### What is served -/

lemma readBytes_eq_ok_iff {path : PathBuf} {data : Bytes} : fs.readBytes path = .ok data ↔
    ∃ e, fs.files.get? path = some e ∧ e.metadata.isDirectory = false ∧ e.data = data := by
  rw [readBytes, getEntry]
  cases hget : fs.files.get? path with
  | none => simp [Outcome.bind]
  | some e =>
    rw [Outcome.ok_bind]
    cases hdir : e.metadata.isDirectory <;> simp [hdir]

lemma readToString_eq_ok_iff {path : PathBuf} {text : Bytes} : fs.readToString path = .ok text ↔
    fs.readBytes path = .ok text ∧ isUtf8 text = true := by
  rw [readToString, isUtf8]
  cases fs.readBytes path with
  | ok data =>
    rw [Outcome.ok_bind]
    cases herror : utf8Error data <;> grind
  | err _ => simp [Outcome.bind]
  | panic => simp [Outcome.bind]

lemma ok?_eq_some {A : Type} {x : Outcome A} {a : A} : ok? x = some a ↔ x = .ok a := by
  cases x <;> simp [ok?]

/-- What the four files of a response that is found say. -/
lemma getCachedResponse_eq_some_iff {key : Bytes} {now : DateTime} {r : HttpResponse} :
    fs.getCachedResponse c key now = some r ↔
      ∃ expiryText expiry statusText json,
        (fs.readToString (cachePath key "expiry") = .ok expiryText ∧
          parseU64 (trim expiryText) = some expiry ∧ timestamp now ≤ expiry.toInt64.toInt) ∧
        (fs.readToString (cachePath key "status") = .ok statusText ∧
          parseU16 (trim statusText) = some r.status) ∧
        (fs.readToString (cachePath key "headers.json") = .ok json ∧
          c.fromJson json = .ok r.headers) ∧
        fs.readBytes (cachePath key "body") = .ok r.body := by
  have hparsed : ∀ {json : Bytes} {headers : Headers},
      (c.fromJson json).toOption = some headers ↔ c.fromJson json = .ok headers := by
    intro json headers
    cases c.fromJson json <;> simp [Except.toOption]
  simp only [HttpFS.getCachedResponse, Option.bind_eq_bind, Option.bind_eq_some_iff, ok?_eq_some,
    Function.comp]
  constructor
  · rintro ⟨expiry, ⟨expiryText, hexpiryText, hexpiry⟩, hr⟩
    split_ifs at hr with hlate
    simp only [Option.bind_eq_some_iff, ok?_eq_some] at hr
    obtain ⟨status, ⟨statusText, hstatus⟩, headers, ⟨json, hjson⟩, body, hbody, hr⟩ := hr
    obtain rfl := Option.some.inj hr
    have hjson' := hjson.imp_right hparsed.1
    exact ⟨expiryText, expiry, statusText, json, ⟨hexpiryText, hexpiry, Int.not_lt.1 hlate⟩,
      hstatus, hjson', hbody⟩
  · rintro ⟨expiryText, expiry, statusText, json, ⟨hexpiryText, hexpiry, hle⟩, hstatus, hjson,
      hbody⟩
    refine ⟨expiry, ⟨expiryText, hexpiryText, hexpiry⟩, ?_⟩
    rw [if_neg (Int.not_lt.2 hle)]
    simp only [Option.bind_eq_some_iff, ok?_eq_some, hparsed]
    exact ⟨r.status, ⟨statusText, hstatus⟩, r.headers, ⟨json, hjson⟩, r.body, hbody, rfl⟩

/-- The response that is found under a key is the one that was kept last. -/
lemma Inv.getCachedResponse {log : List Fetch} (h : Inv c fs log) {url : Bytes}
    {now : DateTime} {r : HttpResponse}
    (hr : fs.getCachedResponse c (urlToCacheKey c url) now = some r) :
    ∃ f, latest c (urlToCacheKey c url) log = some f ∧ r.status = f.response.status ∧
      c.fromJson (c.toJson f.response.headers) = .ok r.headers ∧ r.body = f.response.body ∧
      timestamp now ≤ f.expiry.toInt64.toInt := by
  obtain ⟨expiryText, expiry, statusText, json, ⟨hexpiryText, hexpiry, hle⟩,
    ⟨hstatusText, hstatus⟩, ⟨hjson, hheaders⟩, hbody⟩ := getCachedResponse_eq_some_iff.1 hr
  -- the four files come from one response
  have hpart : ∀ (part : Part) {data : Bytes},
      fs.readBytes (cachePath (urlToCacheKey c url) part.name) = .ok data →
      ∃ f, latest c (urlToCacheKey c url) log = some f ∧ data = part.content c f := by
    intro part data hdata
    obtain ⟨e, he, -, rfl⟩ := readBytes_eq_ok_iff.1 hdata
    exact h url part e he
  obtain ⟨f, hf, rfl⟩ := hpart .expiry (readToString_eq_ok_iff.1 hexpiryText).1
  obtain ⟨f₁, hf₁, rfl⟩ := hpart .status (readToString_eq_ok_iff.1 hstatusText).1
  obtain ⟨f₂, hf₂, rfl⟩ := hpart .headers (readToString_eq_ok_iff.1 hjson).1
  obtain ⟨f₃, hf₃, hbody'⟩ := hpart .body hbody
  obtain rfl := Option.some.inj (hf.symm.trans hf₁)
  obtain rfl := Option.some.inj (hf.symm.trans hf₂)
  obtain rfl := Option.some.inj (hf.symm.trans hf₃)
  rw [Part.content, trim_of_visible (visible_decimal _), parseU64_decimal] at hexpiry
  rw [Part.content, trim_of_visible (visible_decimal _), parseU16_decimal] at hstatus
  obtain rfl := Option.some.inj hexpiry
  exact ⟨f, hf, (Option.some.inj hstatus).symm, hheaders, hbody', hle⟩

/-- A response is another one, up to the order of its headers. -/
structure SameResponse (r r' : HttpResponse) : Prop where
  status : r.status = r'.status
  headers : ∀ name, r.headers.get? name = r'.headers.get? name
  body : r.body = r'.body

/-- Headers that are written as JSON are read back. -/
def RoundTrips (c : Crates) (headers : Headers) : Prop :=
  ∃ headers', c.fromJson (c.toJson headers) = .ok headers' ∧
    ∀ name, headers'.get? name = headers.get? name

lemma exists_of_served {id : Bytes} {now : DateTime} {origin : Origin} {r : RequestFiles}
    {response : HttpResponse} (hr : fs.readRequest id = .ok r)
    (h : fs.exchange c id now origin = .ok (.served response)) :
    fs.getCachedResponse c (urlToCacheKey c (trim r.url)) now = some response := by
  have hask : fs.ask c r origin ≠ .ok (.served response) := by
    intro h
    obtain ⟨headers, -, h⟩ := exists_of_bind_eq_ok h
    obtain ⟨-, -, h⟩ := exists_of_bind_eq_ok h
    split at h
    · cases h
    · obtain ⟨answer, -, h⟩ := exists_of_bind_eq_ok h
      obtain ⟨body, -, h⟩ := exists_of_bind_eq_ok h
      cases h
  rw [exchange, hr, Outcome.ok_bind] at h
  split_ifs at h
  · split at h
    · next cached hcached =>
      cases h
      exact hcached
    · exact absurd h hask
  · exact absurd h hask

lemma exchange_of_cached {id : Bytes} {now : DateTime} {origin : Origin} {r : RequestFiles}
    {response : HttpResponse} (hr : fs.readRequest id = .ok r)
    (hget : Method.parse r.method = some .GET)
    (h : fs.getCachedResponse c (urlToCacheKey c (trim r.url)) now = some response) :
    fs.exchange c id now origin = .ok (.served response) := by
  rw [exchange, hr, Outcome.ok_bind, if_pos hget, h]

/-- In every run in which nobody writes to the cache by hand and the hashes of the URLs do not
collide: a response that is served was kept by an earlier `GET` of the same URL and has not
expired, and every `GET` of that URL is served it, whatever its headers. -/
theorem served_of_fetch {start : DateTime} {ops : List Op} (hops : ∀ op ∈ ops, op.Spares)
    (hjson : ∀ f ∈ (new start).fetches c checks ops, RoundTrips c f.response.headers)
    {id : Bytes} {now : DateTime} {origin : Origin} {r : RequestFiles} {response : HttpResponse}
    (hr : ((new start).after c checks ops).readRequest id = .ok r)
    (hhash : ∀ f ∈ (new start).fetches c checks ops, c.hash f.url = c.hash (trim r.url) →
      f.url = trim r.url)
    (hserved : ((new start).after c checks ops).exchange c id now origin =
      .ok (.served response)) :
    (∃ f ∈ (new start).fetches c checks ops, f.url = trim r.url ∧
      SameResponse response f.response ∧ timestamp now ≤ f.expiry.toInt64.toInt) ∧
    ∀ id' r' origin', ((new start).after c checks ops).readRequest id' = .ok r' →
      Method.parse r'.method = some .GET → trim r'.url = trim r.url →
      ((new start).after c checks ops).exchange c id' now origin' = .ok (.served response) := by
  have hcached := exists_of_served hr hserved
  constructor
  · have hnew : Inv c (new start) [] := inv_new start
    have hinv := hnew.after checks hops
    obtain ⟨f, hf, hstatus, hheaders, hbody, hexpiry⟩ := hinv.getCachedResponse hcached
    have hmem : f ∈ (new start).fetches c checks ops := by
      simpa using List.mem_of_find?_eq_some hf
    have hkey : urlToCacheKey c f.url = urlToCacheKey c (trim r.url) := by
      simpa using List.find?_some hf
    refine ⟨f, hmem, hhash f hmem (urlToCacheKey_eq_iff.1 hkey), ⟨hstatus, ?_, hbody⟩, hexpiry⟩
    obtain ⟨headers', hparsed, hsame⟩ := hjson f hmem
    obtain rfl := Except.ok.inj (hparsed.symm.trans hheaders)
    exact hsame
  · intro id' r' origin' hr' hget hurl
    exact exchange_of_cached hr' hget (hurl ▸ hcached)


/-! ### Two users of one URL -/

/-- An origin that answers every request with a body, or does not answer. -/
def mailOrigin (answer : Except String Bytes) : Origin where
  client := .ok ()
  send := fun _ => answer.map fun body => ⟨200, ∅, .ok body⟩

/-- Write a file. -/
def putOps (path text : String) (origin : Origin) : List Op :=
  [.create ⟨ascii path⟩ 0, .write ⟨ascii path⟩ (ascii text) 0 .NONE 0 0 origin]

/-- Write down a request for a mailbox and execute it. -/
def mailOps (dir headers : String) (origin : Origin) : List Op :=
  .mkdir ⟨ascii dir⟩ 0 :: putOps (dir ++ "/url") "http://mail/inbox" origin ++
    putOps (dir ++ "/method") "GET" origin ++ putOps (dir ++ "/headers.json") headers origin ++
    putOps (dir ++ "/trigger") "send" origin

def aliceJson : String := "\x7b\"Authorization\":\"alice\"\x7d"

def bobJson : String := "\x7b\"Authorization\":\"bob\"\x7d"

/-- A hash, and as much of JSON as occurs. -/
def mailCrates : Crates where
  hash url := url.foldl (fun h b => 31 * h + b.toUInt64) 7
  toJson _ := ascii "\x7b\x7d"
  fromJson json :=
    if json = ascii "\x7b\x7d" then .ok ∅
    else if json = ascii aliceJson then
      .ok ((∅ : Headers).insert (ascii "Authorization") (ascii "alice"))
    else if json = ascii bobJson then
      .ok ((∅ : Headers).insert (ascii "Authorization") (ascii "bob"))
    else .error "expected value"

/-- A request with the credentials of Alice, which the origin answers, and one with those of Bob,
which it does not get. -/
def sharedOps : List Op :=
  mailOps "/requests/a" aliceJson (mailOrigin (.ok (ascii "Dear Alice"))) ++
    mailOps "/requests/b" bobJson (mailOrigin (.error "unreachable"))

/-- The request that Bob has written down, what is found for it, and what has been kept. -/
lemma shared : ok? (((new 0).after mailCrates false sharedOps).readRequest (ascii "b")) =
      some ⟨ascii "http://mail/inbox", ascii "GET", ascii bobJson, []⟩ ∧
    (((new 0).after mailCrates false sharedOps).getCachedResponse mailCrates
      (urlToCacheKey mailCrates (ascii "http://mail/inbox")) 0).map HttpResponse.body =
        some (ascii "Dear Alice") ∧
    ((new 0).fetches mailCrates false sharedOps).map
      (fun f => (f.url, f.headersJson, f.response.headers.entries)) =
        [(ascii "http://mail/inbox", ascii aliceJson, [])] := by
  decide +kernel

lemma readRequest_shared : ((new 0).after mailCrates false sharedOps).readRequest (ascii "b") =
    .ok ⟨ascii "http://mail/inbox", ascii "GET", ascii bobJson, []⟩ :=
  ok?_eq_some.1 shared.1

/-- The response that is found for Bob. -/
lemma exists_shared : ∃ response, ((new 0).after mailCrates false sharedOps).exchange mailCrates
    (ascii "b") 0 (mailOrigin (.error "unreachable")) = .ok (.served response) ∧
      response.body = ascii "Dear Alice" := by
  obtain ⟨-, hcached, -⟩ := shared
  rw [Option.map_eq_some_iff] at hcached
  obtain ⟨response, hcached, hbody⟩ := hcached
  have hget : Method.parse (ascii "GET") = some .GET := by decide
  have hurl : trim (ascii "http://mail/inbox") = ascii "http://mail/inbox" := by decide
  exact ⟨response, exchange_of_cached readRequest_shared hget (hurl.symm ▸ hcached), hbody⟩

/-- What has been kept was asked for by Alice. -/
lemma fetches_shared : ∀ f ∈ (new 0).fetches mailCrates false sharedOps,
    f.url = ascii "http://mail/inbox" ∧ f.headersJson = ascii aliceJson ∧
      f.response.headers.entries = [] := by
  intro f hf
  have hmem := List.mem_map_of_mem
    (f := fun f => (f.url, f.headersJson, f.response.headers.entries)) hf
  rw [shared.2.2, List.mem_singleton] at hmem
  obtain ⟨hurl, hrest⟩ := Prod.mk.inj hmem
  exact ⟨hurl, Prod.mk.inj hrest⟩

theorem served_of_fetch_shared : ∃ f ∈ (new 0).fetches mailCrates false sharedOps,
    f.url = ascii "http://mail/inbox" ∧ f.response.body = ascii "Dear Alice" := by
  obtain ⟨response, hserved, hbody⟩ := exists_shared
  have hurl : trim (ascii "http://mail/inbox") = ascii "http://mail/inbox" := by decide
  have hops : ∀ op ∈ sharedOps, op.Spares := by decide +kernel
  have hjson : ∀ f ∈ (new 0).fetches mailCrates false sharedOps,
      RoundTrips mailCrates f.response.headers := by
    intro f hf
    refine ⟨∅, rfl, fun name => ?_⟩
    rw [AssocMap.get?, AssocMap.get?, (fetches_shared f hf).2.2]
    rfl
  have hhash : ∀ f ∈ (new 0).fetches mailCrates false sharedOps,
      mailCrates.hash f.url = mailCrates.hash (trim (ascii "http://mail/inbox")) →
        f.url = trim (ascii "http://mail/inbox") :=
    fun f hf _ => (fetches_shared f hf).1.trans hurl.symm
  have hfetch := served_of_fetch hops hjson readRequest_shared hhash hserved
  obtain ⟨f, hf, hfurl, hsame, -⟩ := hfetch.1
  exact ⟨f, hf, hfurl.trans hurl, hsame.body.symm.trans hbody⟩

/-- Bob gets what was sent to Alice. -/
theorem served_across_headers :
    (∃ response, ((new 0).after mailCrates false sharedOps).exchange mailCrates (ascii "b") 0
      (mailOrigin (.error "unreachable")) = .ok (.served response) ∧
        response.body = ascii "Dear Alice") ∧
    ((new 0).after mailCrates false sharedOps).readRequest (ascii "b") =
      .ok ⟨ascii "http://mail/inbox", ascii "GET", ascii bobJson, []⟩ ∧
    ∀ f ∈ (new 0).fetches mailCrates false sharedOps, f.headersJson ≠ ascii bobJson := by
  refine ⟨exists_shared, readRequest_shared, fun f hf => ?_⟩
  rw [(fetches_shared f hf).2.1]
  decide

end Racfs.HttpFs
