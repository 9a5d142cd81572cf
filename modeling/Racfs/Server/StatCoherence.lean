/-
# The stat endpoint and the filesystem

Requests come one after the other, nothing expires, and the filesystem behind the server is any
one that behaves as a tree of paths (`IsPathTree`) and takes paths up to their spelling
(`Lexical`), as `MountableFS` does.  The stat endpoint should then answer as the filesystem would
(`Agrees`).

A mutation drops the cached metadata of its paths and of their parents.  This is enough for all of
them but one: the rename of a directory moves everything below it, and what is cached for paths
below stays.  `StepOk` is the condition on a rename.
-/
import Racfs.Lib.Run
import Racfs.Server.Api
import Racfs.Vfs.PathTree

namespace Racfs

/-! ### Spellings of a path -/

/-- A path from the root without `..` is its normalized path, spelled differently. -/
lemma PathBuf.beq_lexical {p : PathBuf} (hroot : p.hasRoot = true)
    (hdots : Component.parentDir ∉ p.components) : (p == p.lexical.toPath) = true := by
  obtain ⟨names, hnames⟩ : ∃ names : List Bytes,
      p.components = .rootDir :: names.map Component.normal := by
    rw [PathBuf.components, if_pos hroot] at hdots ⊢
    have hall : ∀ c ∈ (p.bytes.tail.splitOn slash).filterMap Component.parse,
        ∃ n, c = Component.normal n := by
      intro c hc
      rcases PathBuf.mem_filterMap_parse hc with rfl | ⟨n, rfl, -⟩
      · exact absurd (List.mem_cons_of_mem _ hc) hdots
      · exact ⟨n, rfl⟩
    generalize (p.bytes.tail.splitOn slash).filterMap Component.parse = cs at hall
    induction cs with
    | nil => exact ⟨[], rfl⟩
    | cons c cs ih =>
      obtain ⟨n, rfl⟩ := hall c (by simp)
      obtain ⟨names, hnames⟩ := ih fun c hc => hall c (by simp [hc])
      exact ⟨n :: names, by simpa using hnames⟩
  have hlexical : p.lexical.names = names := by
    show PathBuf.follow [] p.components = names
    simp [hnames, PathBuf.follow, PathBuf.follow_map_normal]
  rw [PathBuf.beq_iff, AbsPath.components_toPath, hlexical, hnames]

namespace Server

open Vfs

/-- A path that passes the check is a spelling of a normalized path. -/
lemma beq_lexical_of_validatePath {path : Bytes} (h : validatePath path = none) :
    (PathBuf.mk path == (PathBuf.mk path).lexical.toPath) = true := by
  rw [validatePath] at h
  split_ifs at h with hnil hhead hnul hdots hlen
  have hroot : (PathBuf.mk path).hasRoot = true := by
    rw [PathBuf.hasRoot, beq_iff_eq]
    exact not_not.1 hhead
  refine PathBuf.beq_lexical hroot fun hmem => hdots ?_
  rw [PathBuf.components, if_pos hroot, List.mem_cons] at hmem
  obtain ⟨piece, hpiece, hparse⟩ := List.mem_filterMap.1 (hmem.resolve_left (by simp))
  obtain rfl : piece = [dot, dot] := by
    rw [Component.parse] at hparse
    split_ifs at hparse with _ _ h
    · exact h
    · simp at hparse
  exact (infix_of_mem_splitOn hpiece).trans (List.tail_suffix _).isInfix

/-- The filesystem takes paths up to their spelling. -/
structure Lexical {S : Type*} (fs : FileSystem S) : Prop where
  stat : ∀ s p, fs.stat s p = fs.stat s p.lexical.toPath
  mutate : ∀ s now m, fs.mutate s now m = fs.mutate s now (m.map fun p => p.lexical.toPath)

/-! ### Requests -/

/-- The requests of the API that change or look up metadata. -/
inductive ApiRequest
  | create (path : Bytes)
  | write (body : WriteRequest)
  | mkdir (path : Bytes) (perm : Option UInt32)
  | remove (path : Bytes)
  | rename (oldPath newPath : Bytes)
  | chmod (path : Bytes) (mode : UInt32)
  | truncate (path : Bytes) (size : UInt64)
  | stat (path : Bytes)

/-- The calls of the filesystem that they lead to. -/
inductive VfsCall
  | stat (path : Bytes)
  | change (m : Mutation PathBuf)

namespace ApiRequest

/-- The first check of the parameters that fails. -/
def refused : ApiRequest → Option HttpErrorResponse
  | create path | mkdir path _ | remove path | truncate path _ | stat path => validatePath path
  | write body => validatePath body.path <|> validateWriteDataLen body.data.length
  | rename oldPath newPath => validatePath oldPath <|> validatePath newPath
  | chmod path mode => validatePath path <|> validateMode mode

/-- What the filesystem is asked for. -/
def call : ApiRequest → VfsCall
  | create path => .change (.create ⟨path⟩)
  | write body => .change (.write ⟨body.path⟩ body.data (body.offset.getD 0) .NONE)
  | mkdir path perm => .change (.mkdir ⟨path⟩ (perm.getD 0o755))
  | remove path => .change (.remove ⟨path⟩)
  | rename oldPath newPath => .change (.rename ⟨oldPath⟩ ⟨newPath⟩)
  | chmod path mode => .change (.chmod ⟨path⟩ mode)
  | truncate path size => .change (.truncate ⟨path⟩ size)
  | stat path => .stat path

end ApiRequest

/-- What is dropped from the cache after a mutation. -/
def StatCache.drop (c : StatCache) : Mutation PathBuf → StatCache
  | .rename oldPath newPath => c.invalidateRename oldPath newPath
  | .create path | .write path _ _ _ | .mkdir path _ | .remove path | .removeAll path
  | .chmod path _ | .truncate path _ | .touch path => c.invalidate path

/-- A server: the filesystem and the cached metadata. -/
structure CachingServer (S : Type*) where
  vfs : S
  cache : StatCache

namespace CachingServer

variable {S : Type*} (fs : FileSystem S)

/-- Nothing is cached. -/
def new (ttl : ℤ) (vfs : S) : CachingServer S := ⟨vfs, ∅, ttl⟩

/-- The metadata that the stat endpoint answers with, and the cache then. -/
def stat (s : CachingServer S) (now : DateTime) (path : Bytes) :
    Outcome FileMetadata × StatCache :=
  s.cache.getOrFetch ⟨path⟩ now (fs.stat s.vfs ⟨path⟩)

/-- A mutation, and what is dropped from the cache if it succeeds. -/
def change (s : CachingServer S) (now : DateTime) (m : Mutation PathBuf) : CachingServer S :=
  let r := fs.mutate s.vfs now m
  ⟨r.2, if r.1.isOk then s.cache.drop m else s.cache⟩

/-- A request. -/
def handle (s : CachingServer S) (now : DateTime) (request : ApiRequest) : CachingServer S :=
  match request.refused with
  | some _ => s
  | none =>
    match request.call with
    | .stat path => { s with cache := (s.stat fs now path).2 }
    | .change m => s.change fs now m

/-- Nothing in the cache has expired. -/
def Unexpired (s : CachingServer S) (now : DateTime) : Prop :=
  ∀ e ∈ s.cache.entries.entries, now < e.2.2

instance (s : CachingServer S) (now : DateTime) : Decidable (s.Unexpired now) :=
  inferInstanceAs (Decidable (∀ e ∈ s.cache.entries.entries, now < e.2.2))

/-- One request; runs in which an entry expires are not considered. -/
def step (s : CachingServer S) (ev : DateTime × ApiRequest) : Option (CachingServer S) :=
  if s.Unexpired ev.1 then some (s.handle fs ev.1 ev.2) else none

/-- A stat request, made now with any path, is answered as the filesystem would answer. -/
def Agrees (s : CachingServer S) : Prop :=
  ∀ path now, validatePath path = none → s.Unexpired now →
    (s.stat fs now path).1 = fs.stat s.vfs ⟨path⟩

/-- The condition on a rename that succeeds: it leaves the metadata as it is at every path below
the old or the new one that is cached and is not dropped. -/
def StepOk (s : CachingServer S) (ev : DateTime × ApiRequest) : Prop :=
  match ev.2 with
  | .rename oldPath newPath => ev.2.refused = none →
    (fs.mutate s.vfs ev.1 (.rename ⟨oldPath⟩ ⟨newPath⟩)).1.isOk = true →
    ∀ q : AbsPath, ((PathBuf.mk oldPath).lexical.Above q ∨ (PathBuf.mk newPath).lexical.Above q) →
      (s.cache.invalidateRename ⟨oldPath⟩ ⟨newPath⟩).entries.contains q.toPath = true →
      fs.stat (fs.mutate s.vfs ev.1 (.rename ⟨oldPath⟩ ⟨newPath⟩)).2 q.toPath =
        fs.stat s.vfs q.toPath
  | _ => True

/-! ### Coherence -/

variable {fs}

/-- Everything cached was asked for with a path that passes the check, and is what the filesystem
has now. -/
structure Coherent (fs : FileSystem S) (s : CachingServer S) : Prop where
  valid : ∀ e ∈ s.cache.entries.entries, validatePath e.1.bytes = none
  agree : ∀ e ∈ s.cache.entries.entries, fs.stat s.vfs e.1 = .ok e.2.1

lemma exists_unexpired (s : CachingServer S) : ∃ now, s.Unexpired now := by
  have hbelow : ∀ l : List (PathBuf × FileMetadata × DateTime), ∃ now, ∀ e ∈ l, now < e.2.2 := by
    intro l
    induction l with
    | nil => exact ⟨0, by simp⟩
    | cons e l ih =>
      obtain ⟨now, hnow⟩ := ih
      refine ⟨min now (e.2.2 - 1), fun e' he' => ?_⟩
      rcases List.mem_cons.1 he' with rfl | he'
      · exact Int.lt_of_le_sub_one (Int.min_le_right _ _)
      · exact Int.lt_of_le_of_lt (Int.min_le_left _ _) (hnow e' he')
  exact hbelow s.cache.entries.entries

/-- The answer of the stat endpoint for something cached. -/
lemma stat_of_cached {s : CachingServer S} {now : DateTime} (hnow : s.Unexpired now)
    {e : PathBuf × FileMetadata × DateTime} (he : e ∈ s.cache.entries.entries) :
    s.stat fs now e.1.bytes = (.ok e.2.1, s.cache) := by
  have hget : s.cache.entries.get? e.1 = some e.2 := AssocMap.get?_of_mem he
  rw [stat, StatCache.getOrFetch]
  simp only [hget, if_pos (hnow e he)]

/-- The answer for something that is not cached. -/
lemma stat_of_not_cached {s : CachingServer S} {path : Bytes}
    (h : s.cache.entries.get? ⟨path⟩ = none) (now : DateTime) :
    s.stat fs now path = s.cache.fetched ⟨path⟩ now (fs.stat s.vfs ⟨path⟩) := by
  rw [stat, StatCache.getOrFetch]
  simp only [h]

/-- Spellings of one path have the same metadata. -/
lemma stat_congr (hlex : Lexical fs) {p q : PathBuf} (h : (p == q) = true) (s : S) :
    fs.stat s p = fs.stat s q := by
  have heq : p.lexical = q.lexical := by
    refine AbsPath.ext ?_
    show PathBuf.follow [] p.components = PathBuf.follow [] q.components
    rw [PathBuf.beq_iff.1 h]
  rw [hlex.stat s p, hlex.stat s q, heq]

lemma Coherent.agrees (hlex : Lexical fs) {s : CachingServer S} (h : Coherent fs s) :
    s.Agrees fs := by
  intro path now _ hnow
  cases hget : s.cache.entries.get? ⟨path⟩ with
  | none => rw [stat_of_not_cached hget, StatCache.fst_fetched]
  | some v =>
    obtain ⟨k, hk, hbeq⟩ := AssocMap.mem_of_get? hget
    have hanswer : (s.stat fs now path).1 = .ok v.1 := by
      rw [stat, StatCache.getOrFetch]
      simp only [hget, if_pos (hnow _ hk)]
    rw [hanswer, ← stat_congr hlex hbeq, h.agree _ hk]

/-- Answers that agree, for what is cached. -/
lemma Agrees.of_mem {s : CachingServer S} (h : s.Agrees fs)
    {e : PathBuf × FileMetadata × DateTime} (he : e ∈ s.cache.entries.entries)
    (hvalid : validatePath e.1.bytes = none) : fs.stat s.vfs e.1 = .ok e.2.1 := by
  obtain ⟨now, hnow⟩ := s.exists_unexpired
  have hagrees := h e.1.bytes now hvalid hnow
  rw [stat_of_cached hnow he] at hagrees
  exact hagrees.symm

/-! ### Requests -/

lemma Coherent.stat {s : CachingServer S} (h : Coherent fs s) {now : DateTime}
    (hnow : s.Unexpired now) {path : Bytes} (hvalid : validatePath path = none) :
    Coherent fs { s with cache := (s.stat fs now path).2 } := by
  cases hget : s.cache.entries.get? ⟨path⟩ with
  | some v =>
    obtain ⟨k, hk, hbeq⟩ := AssocMap.mem_of_get? hget
    have hsame : (s.stat fs now path).2 = s.cache := by
      rw [CachingServer.stat, StatCache.getOrFetch]
      simp only [hget, if_pos (hnow _ hk)]
    rw [hsame]
    exact h
  | none =>
    rw [stat_of_not_cached hget]
    cases hstat : fs.stat s.vfs ⟨path⟩ with
    | err e => exact h
    | panic => exact h
    | ok m =>
      have hmem : ∀ e ∈ (s.cache.entries.insert ⟨path⟩ (m, now + s.cache.ttl)).entries,
          e = (⟨path⟩, m, now + s.cache.ttl) ∨ e ∈ s.cache.entries.entries := by
        intro e he
        rw [AssocMap.insert] at he
        simp only [AssocMap.upsert_of_lookup_eq_none hget, List.mem_append,
          List.mem_singleton] at he
        exact he.symm
      constructor
      · intro e he
        rcases hmem e he with rfl | he
        · exact hvalid
        · exact h.valid e he
      · intro e he
        rcases hmem e he with rfl | he
        · exact hstat
        · exact h.agree e he

lemma subset_drop (c : StatCache) (m : Mutation PathBuf) :
    (c.drop m).entries.entries ⊆ c.entries.entries := by
  cases m with
  | rename o n =>
    exact List.Subset.trans (StatCache.subset_invalidate _ n) (StatCache.subset_invalidate _ o)
  | _ => exact StatCache.subset_invalidate _ _

/-- The metadata of the paths of a mutation is dropped. -/
lemma get?_drop (c : StatCache) {m : Mutation PathBuf} {p : PathBuf} (hp : p ∈ m.paths) :
    (c.drop m).entries.get? p = none := by
  cases m with
  | rename o n =>
    rcases List.mem_pair.1 hp with rfl | rfl
    · exact StatCache.get?_invalidate_of_none (c.get?_invalidate_self _) n
    · exact StatCache.get?_invalidate_self _ _
  | _ =>
    rw [List.mem_singleton.1 hp]
    exact c.get?_invalidate_self _

/-- What a mutation of the API asks for: paths that pass the check, and only a rename changes
subtrees. -/
lemma paths_of_call {request : ApiRequest} {m : Mutation PathBuf}
    (hrefused : request.refused = none) (hm : request.call = .change m) :
    (∀ p ∈ m.paths, validatePath p.bytes = none) ∧
      (m.deep = true → ∃ o n, request = .rename o n ∧ m = .rename ⟨o⟩ ⟨n⟩) := by
  cases request with
  | stat path => cases hm
  | rename o n =>
    cases hm
    obtain ⟨ho, hn⟩ : validatePath o = none ∧ validatePath n = none := by
      simpa [ApiRequest.refused] using hrefused
    refine ⟨fun p hp => ?_, fun _ => ⟨o, n, rfl, rfl⟩⟩
    rcases List.mem_pair.1 hp with rfl | rfl
    · exact ho
    · exact hn
  | write body =>
    cases hm
    obtain ⟨hpath, -⟩ : validatePath body.path = none ∧ _ := by
      simpa [ApiRequest.refused] using hrefused
    exact ⟨fun p hp => by rw [List.mem_singleton.1 hp]; exact hpath, fun h => by cases h⟩
  | chmod path mode =>
    cases hm
    obtain ⟨hpath, -⟩ : validatePath path = none ∧ _ := by
      simpa [ApiRequest.refused] using hrefused
    exact ⟨fun p hp => by rw [List.mem_singleton.1 hp]; exact hpath, fun h => by cases h⟩
  | _ =>
    cases hm
    exact ⟨fun p hp => by rw [List.mem_singleton.1 hp]; exact hrefused, fun h => by cases h⟩

lemma map_map_lexical (m : Mutation PathBuf) :
    (m.map PathBuf.lexical).map AbsPath.toPath = m.map fun p => p.lexical.toPath := by
  cases m <;> rfl

lemma paths_map {P Q : Type*} (f : P → Q) (m : Mutation P) :
    (m.map f).paths = m.paths.map f := by
  cases m <;> rfl

lemma deep_map {P Q : Type*} (f : P → Q) (m : Mutation P) : (m.map f).deep = m.deep := by
  cases m <;> rfl

/-- A mutation leaves the metadata of a path as it is that it does not touch. -/
lemma stat_mutate (htree : IsPathTree fs) (hlex : Lexical fs) {s : S} {now : DateTime}
    {m : Mutation PathBuf} {q : AbsPath} (h : ¬ (m.map PathBuf.lexical).Touches q) :
    fs.stat (fs.mutate s now m).2 q.toPath = fs.stat s q.toPath := by
  rw [hlex.mutate s now m, ← map_map_lexical]
  exact (htree.frame s now (m.map PathBuf.lexical) q h).2.1

/-- A mutation that succeeds leaves the cache coherent if it does not change the metadata of what
is still cached below its paths. -/
lemma Coherent.change (htree : IsPathTree fs) (hlex : Lexical fs) {s : CachingServer S}
    (h : Coherent fs s) {now : DateTime} {m : Mutation PathBuf}
    (hvalid : ∀ p ∈ m.paths, validatePath p.bytes = none)
    (hdeep : (fs.mutate s.vfs now m).1.isOk = true → m.deep = true →
      ∀ q : AbsPath, (∃ p ∈ m.paths, p.lexical.Above q) →
        (s.cache.drop m).entries.contains q.toPath = true →
        fs.stat (fs.mutate s.vfs now m).2 q.toPath = fs.stat s.vfs q.toPath) :
    Coherent fs (s.change fs now m) := by
  rw [CachingServer.change]
  cases hok : (fs.mutate s.vfs now m).1.isOk with
  | false =>
    rw [htree.failed s.vfs now m hok]
    exact h
  | true =>
    simp only [if_true]
    refine ⟨fun e he => h.valid e (subset_drop _ _ he), fun e he => ?_⟩
    have hold := subset_drop _ _ he
    have hspelling := beq_lexical_of_validatePath (h.valid e hold)
    have hkept : (s.cache.drop m).entries.contains e.1.lexical.toPath = true := by
      rw [AssocMap.contains, ← AssocMap.get?_congr _ hspelling, AssocMap.get?_of_mem he]
      rfl
    have hsame : fs.stat (fs.mutate s.vfs now m).2 e.1.lexical.toPath =
        fs.stat s.vfs e.1.lexical.toPath := by
      by_cases htouches : (m.map PathBuf.lexical).Touches e.1.lexical
      · rw [Mutation.Touches, paths_map, deep_map] at htouches
        obtain ⟨p', hp', htouch⟩ := htouches
        obtain ⟨p, hp, rfl⟩ := List.mem_map.1 hp'
        rcases htouch with heq | ⟨hd, habove⟩
        · -- the metadata of the path itself has been dropped
          have hbeq : (e.1 == p) = true := by
            rw [heq] at hspelling
            exact BEq.trans hspelling (BEq.symm (beq_lexical_of_validatePath (hvalid p hp)))
          have hgone := get?_drop s.cache hp
          rw [← AssocMap.get?_congr _ hbeq, AssocMap.get?_of_mem he] at hgone
          cases hgone
        · exact hdeep hok hd _ ⟨p, hp, habove⟩ hkept
      · exact stat_mutate htree hlex htouches
    rw [hlex.stat _ e.1, hsame, ← hlex.stat, h.agree e hold]

/-- A request under the condition keeps the cache coherent. -/
lemma Coherent.step (htree : IsPathTree fs) (hlex : Lexical fs) {s s' : CachingServer S}
    {ev : DateTime × ApiRequest} (h : Coherent fs s) (hok : StepOk fs s ev)
    (hs' : s.step fs ev = some s') : Coherent fs s' := by
  obtain ⟨now, request⟩ := ev
  obtain ⟨hnow, hs'⟩ := Option.ite_none_right_eq_some.1 hs'
  simp only at hnow hs'
  rw [← Option.some.inj hs', handle]
  cases hrefused : request.refused with
  | some e => exact h
  | none =>
    cases hm : request.call with
    | stat path =>
      refine h.stat hnow ?_
      cases request <;> cases hm
      exact hrefused
    | change m =>
      obtain ⟨hvalid, hrename⟩ := paths_of_call hrefused hm
      refine h.change htree hlex hvalid fun hsucc hdeep q habove hkept => ?_
      obtain ⟨o, n, rfl, rfl⟩ := hrename hdeep
      obtain ⟨p, hp, habove⟩ := habove
      refine hok hrefused hsucc q ?_ hkept
      rcases List.mem_pair.1 hp with rfl | rfl
      · exact .inl habove
      · exact .inr habove

/-- A request after which all answers agree meets the condition. -/
lemma stepOk_of_agrees (hlex : Lexical fs) {s s' : CachingServer S} {ev : DateTime × ApiRequest}
    (h : Coherent fs s) (hs' : s.step fs ev = some s') (hagrees : s'.Agrees fs) :
    StepOk fs s ev := by
  obtain ⟨now, request⟩ := ev
  obtain ⟨-, hs'⟩ := Option.ite_none_right_eq_some.1 hs'
  cases request with
  | rename o n =>
    intro hrefused hsucc q habove hkept
    obtain ⟨v, hv⟩ := AssocMap.contains_iff.1 hkept
    obtain ⟨k, hk, hbeq⟩ := AssocMap.mem_of_get? hv
    have hold := subset_drop s.cache (.rename ⟨o⟩ ⟨n⟩) hk
    have hcached : s' = ⟨(fs.mutate s.vfs now (.rename ⟨o⟩ ⟨n⟩)).2,
        s.cache.drop (.rename ⟨o⟩ ⟨n⟩)⟩ := by
      rw [← Option.some.inj hs', handle, hrefused]
      simp only at hsucc
      simp only [ApiRequest.call, CachingServer.change, hsucc, if_true]
    subst hcached
    have hnew := hagrees.of_mem hk (h.valid _ hold)
    rw [← stat_congr hlex hbeq, ← stat_congr hlex hbeq, h.agree _ hold]
    exact hnew
  | _ => trivial

/-- For what is below the old path and not below the new one, the condition says that it is not
cached: the rename takes it away. -/
lemma not_cached_of_stepOk (htree : IsPathTree fs) (hlex : Lexical fs) {s : CachingServer S}
    (h : Coherent fs s) {now : DateTime} {o n : Bytes} (hok : StepOk fs s (now, .rename o n))
    (hrefused : (ApiRequest.rename o n).refused = none)
    (hsucc : (fs.mutate s.vfs now (.rename ⟨o⟩ ⟨n⟩)).1.isOk = true) {r : AbsPath}
    (hr : ¬ (PathBuf.mk n).lexical.Above ((PathBuf.mk o).lexical.append r)) :
    (s.cache.invalidateRename ⟨o⟩ ⟨n⟩).entries.contains
      ((PathBuf.mk o).lexical.append r).toPath = false := by
  by_contra hcached
  rw [Bool.not_eq_false] at hcached
  have hsame := hok hrefused hsucc _ (.inl (AbsPath.above_append _ r)) hcached
  obtain ⟨v, hv⟩ := AssocMap.contains_iff.1 hcached
  obtain ⟨k, hk, hbeq⟩ := AssocMap.mem_of_get? hv
  have hold := subset_drop s.cache (.rename ⟨o⟩ ⟨n⟩) hk
  rw [← stat_congr hlex hbeq s.vfs, h.agree _ hold] at hsame
  rw [hlex.mutate] at hsucc hsame
  have hgone := (htree.moved s.vfs now _ _ r hsucc).2.2 hr
  simp only [Mutation.map] at hsame
  rw [hsame] at hgone
  cases hgone

/-- **When the stat endpoint agrees with the filesystem.**  In a run of requests over a filesystem
that behaves as a tree of paths, every stat request is answered as the filesystem would answer it
exactly if every successful rename leaves the metadata of what is cached below its paths as it
is. -/
theorem stat_agrees_iff (htree : IsPathTree fs) (hlex : Lexical fs) (ttl : ℤ) (vfs : S)
    (evs : List (DateTime × ApiRequest)) :
    StatesMeet (step fs) (Agrees fs) (new ttl vfs) evs ↔
      StepsMeet (step fs) (StepOk fs) (new ttl vfs) evs :=
  statesMeet_iff_of_invariant (fun _ (h : Coherent fs _) => h.agrees hlex)
    (fun _ _ _ h hs' hagrees => stepOk_of_agrees hlex h hs' hagrees)
    (fun _ _ _ h hok hs' => h.step htree hlex hok hs') 
    ⟨fun _ he => (nomatch he), fun _ he => (nomatch he)⟩

/-! ### Filesystems -/

/-- A filesystem with normalized paths before it, as `MountableFS` passes them on. -/
def normalized (fs : FileSystem S) : FileSystem S where
  read s p offset size := fs.read s p.lexical.toPath offset size
  stat s p := fs.stat s p.lexical.toPath
  readDir s p := fs.readDir s p.lexical.toPath
  mutate s now m := fs.mutate s now (m.map fun p => p.lexical.toPath)

lemma map_toPath_normalized (m : Mutation AbsPath) :
    ((m.map AbsPath.toPath).map fun p => p.lexical.toPath) = m.map AbsPath.toPath := by
  cases m <;> simp [Mutation.map]

lemma isPathTree_normalized (h : IsPathTree fs) : IsPathTree (normalized fs) where
  failed s now m hm := h.failed s now _ hm
  frame s now m q hq := by
    simp only [normalized, map_toPath_normalized, PathBuf.lexical_toPath]
    exact h.frame s now m q hq
  removed s now p r hp := by
    simp only [normalized, Mutation.map, PathBuf.lexical_toPath] at hp ⊢
    exact h.removed s now p r hp
  moved s now o n r hr := by
    simp only [normalized, Mutation.map, PathBuf.lexical_toPath] at hr ⊢
    exact h.moved s now o n r hr
  readWindow s p offset size := h.readWindow s _ offset size
  readLength s p data hdata := h.readLength s _ data hdata

lemma lexical_normalized (fs : FileSystem S) : Lexical (normalized fs) where
  stat s p := by simp [normalized]
  mutate s now m := by
    simp only [normalized]
    congr 1
    cases m <;> simp [Mutation.map]

/-- The plain tree of paths. -/
def treeFileSystem : FileSystem PathTree := normalized PathTree.fileSystem

/-- A file is looked up, changed and renamed. -/
def fileRequests : List (DateTime × ApiRequest) :=
  [(0, .create (ascii "/f")), (1, .stat (ascii "/f")), (2, .chmod (ascii "/f") 0o600),
    (3, .stat (ascii "//f"))]

/-- A file is looked up in a directory that is renamed. -/
def dirRequests : List (DateTime × ApiRequest) :=
  [(0, .mkdir (ascii "/d") none), (1, .create (ascii "/d/f")), (2, .stat (ascii "/d/f")),
    (3, .rename (ascii "/d") (ascii "/e"))]

/-- All answers agree while a file is changed. -/
theorem stat_agrees_fileRequests :
    StatesMeet (step treeFileSystem) (Agrees treeFileSystem) (new 1000 (PathTree.new 0))
      fileRequests := by
  refine (stat_agrees_iff (isPathTree_normalized PathTree.isPathTree)
    (lexical_normalized PathTree.fileSystem) 1000 (PathTree.new 0) fileRequests).2 ?_
  exact fun _ _ => ⟨trivial, fun _ _ => ⟨trivial, fun _ _ => ⟨trivial, fun _ _ =>
    ⟨trivial, trivial⟩⟩⟩⟩

/-- After the rename of the directory the file is still found at its old path. -/
theorem not_agrees_dirRequests :
    IsPathTree treeFileSystem ∧ Lexical treeFileSystem ∧
    ¬ StatesMeet (step treeFileSystem) (Agrees treeFileSystem) (new 1000 (PathTree.new 0))
      dirRequests := by
  refine ⟨isPathTree_normalized PathTree.isPathTree, lexical_normalized _, fun h => ?_⟩
  have hrun : ∃ s, run (step treeFileSystem) (new 1000 (PathTree.new 0)) dirRequests = some s ∧
      s.Unexpired 4 ∧ (s.stat treeFileSystem 4 (ascii "/d/f")).1.isOk = true ∧
      (treeFileSystem.stat s.vfs ⟨ascii "/d/f"⟩).isOk = false :=
    ⟨_, rfl, by decide +kernel, by decide +kernel, by decide +kernel⟩
  obtain ⟨s, hs, hnow, hcached, hgone⟩ := hrun
  have hagrees := (h.run_invariant (fun _ _ _ _ _ _ => trivial) trivial hs).2
  rw [hagrees _ 4 (by decide +kernel) hnow, hgone] at hcached
  cases hcached

end CachingServer

end Server
end Racfs
