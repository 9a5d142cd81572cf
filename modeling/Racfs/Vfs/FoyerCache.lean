/-
# The cache of a running server

The server wraps a backend in `CachedFs` over `FoyerCache` when the cache of its mount is enabled
(`racfs-server/src/main.rs`).  `FoyerCache` (`racfs-core/src/cache.rs`) is a bounded cache: a map
from which any entry may disappear at any time.  It has no operation for all keys with a prefix,
and `invalidate_prefix` does nothing.  `CachedFs::remove_all` (`racfs-vfs/src/cached_fs.rs`)
relies on it, so that of all that is cached it removes only the listing of the parent.

A state records since which step a key has had its value, and which paths were removed with all
below them in which step.  An entry from before the removal of a path should not be the answer to
a later call for this path or a path below it (`Forgotten`).  `forgotten_iff` says when this is
so in a run: a path is removed only when nothing is cached for it and the paths below it.
-/
import Racfs.Lib.Run
import Racfs.Vfs.Transparent

namespace Racfs.Vfs.Foyer

open CachedFs

/-! ### The wrapper over `FoyerCache` -/

/-- Remove all keys with a prefix: nothing happens. -/
def invalidatePrefix (cache : AssocMap Bytes Bytes) (_pre : Bytes) : AssocMap Bytes Bytes := cache

variable {S : Type*} (fs : FileSystem S) (json : MetadataJson) (keyPrefix : Bytes)

/-- What `remove_all` removes from the cache. -/
def invalidateAll (cache : AssocMap Bytes Bytes) (path : PathBuf) : AssocMap Bytes Bytes :=
  let cache := invalidatePrefix cache (key keyPrefix .read path)
  let cache := invalidatePrefix cache (key keyPrefix .stat path)
  let cache := invalidatePrefix cache (key keyPrefix .readdir path)
  invalidateParent keyPrefix cache path

/-- What a mutation removes when it has succeeded. -/
def invalidate (cache : AssocMap Bytes Bytes) : Mutation PathBuf → AssocMap Bytes Bytes
  | .removeAll path => invalidateAll keyPrefix cache path
  | m => CachedFs.invalidate keyPrefix cache m

/-- Pass a mutation on, and remove keys when it has succeeded. -/
def mutate (s : CachedFs S) (now : DateTime) (m : Mutation PathBuf) :
    Outcome Reply × CachedFs S :=
  let r := fs.mutate s.inner now m
  match r.1 with
  | .ok a => (.ok a, ⟨r.2, invalidate keyPrefix s.cache m⟩)
  | .err e => (.err e, ⟨r.2, s.cache⟩)
  | .panic => (.panic, ⟨r.2, s.cache⟩)

/-- A call. -/
def exec (s : CachedFs S) (now : DateTime) : Request PathBuf → Outcome Reply × CachedFs S
  | .read path offset size =>
    let r := CachedFs.read fs keyPrefix s path offset size
    (r.1.map .data, r.2)
  | .stat path =>
    let r := CachedFs.stat fs json keyPrefix s path
    (r.1.map .metadata, r.2)
  | .readDir path =>
    let r := CachedFs.readDir fs json keyPrefix s path
    (r.1.map .entries, r.2)
  | .mutate m => mutate fs keyPrefix s now m

/-! ### Runs -/

/-- The wrapper, and the record of what has happened. -/
structure State (S : Type*) where
  cached : CachedFs S
  /-- The number of steps. -/
  clock : ℕ
  /-- The step since which a key has had its value. -/
  since : Bytes → ℕ
  /-- The paths that were removed with all below them, and the steps. -/
  removed : List (PathBuf × ℕ)

/-- Nothing is cached yet. -/
def State.new (inner : S) : State S := ⟨⟨inner, ∅⟩, 0, fun _ => 0, []⟩

/-- The state after a step. -/
def State.moved (s : State S) (cached : CachedFs S) (removed : List PathBuf) : State S where
  cached := cached
  clock := s.clock + 1
  since k := if cached.cache.get? k = s.cached.cache.get? k then s.since k else s.clock + 1
  removed := removed.map (fun path => (path, s.clock + 1)) ++ s.removed

/-- What can happen: a call, or the loss of an entry. -/
inductive Event
  | call (now : DateTime) (request : Request PathBuf)
  | evict (k : Bytes)

/-- The path that a call has removed with all below it. -/
def removedBy : Request PathBuf → Outcome Reply → List PathBuf
  | .mutate (.removeAll path), .ok _ => [path]
  | _, _ => []

/-- One step; every event is possible in every state. -/
def step (s : State S) : Event → Option (State S)
  | .call now request =>
    let r := exec fs json keyPrefix s.cached now request
    some (s.moved r.2 (removedBy request r.1))
  | .evict k => some (s.moved { s.cached with cache := s.cached.cache.erase k } [])

/-! ### What should hold, and when it does -/

/-- A value of a key is the answer to a call.  Metadata has to be decoded first. -/
def Answers : Kind → Bytes → Prop
  | .read, _ => True
  | .stat, bytes => (json.one.fromSlice bytes).isSome
  | .readdir, bytes => (json.list.fromSlice bytes).isSome

/-- What is cached for a path that was removed, or for a path below it, is from after the
removal. -/
def Forgotten (s : State S) : Prop :=
  ∀ path n, (path, n) ∈ s.removed → ∀ kind (q : PathBuf) bytes, q.startsWith path = true →
    s.cached.cache.get? (key keyPrefix kind q) = some bytes → Answers json kind bytes →
      n < s.since (key keyPrefix kind q)

/-- Nothing is cached for a path and the paths below it. -/
def NothingCached (cache : AssocMap Bytes Bytes) (path : PathBuf) : Prop :=
  ∀ kind (q : PathBuf) bytes, q.startsWith path = true →
    cache.get? (key keyPrefix kind q) = some bytes → ¬ Answers json kind bytes

/-- A path that is removed with all below it has nothing in the cache. -/
def StepOk (s : State S) : Event → Prop
  | .call now (.mutate (.removeAll path)) =>
    (∃ a, (fs.mutate s.cached.inner now (.removeAll path)).1 = .ok a) →
      NothingCached json keyPrefix s.cached.cache path
  | _ => True

/-- The invariant. -/
structure Inv (s : State S) : Prop where
  forgotten : Forgotten json keyPrefix s
  since_le : ∀ k, s.since k ≤ s.clock
  removed_le : ∀ path n, (path, n) ∈ s.removed → n ≤ s.clock

variable {fs json keyPrefix}

/-- The listing of the parent is of no path below. -/
lemma key_ne_parent {path parent q : PathBuf} {kind : Kind} (hparent : path.parent = some parent)
    (hq : q.startsWith path = true) : key keyPrefix kind q ≠ key keyPrefix .readdir parent := by
  intro heq
  obtain ⟨-, htext⟩ := (key_eq_iff keyPrefix).1 heq
  have hlen : q.components.length = parent.components.length := by
    have hlossy := congrArg (fun t => (PathBuf.mk t).components.length) htext
    simpa [PathBuf.components_toStringLossy] using hlossy
  have hlt := PathBuf.length_components_parent_lt hparent
  have hle := (PathBuf.startsWith_iff.1 hq).length_le
  omega

/-- What is cached below a path stays when it is removed. -/
lemma get?_invalidateAll {cache : AssocMap Bytes Bytes} {path q : PathBuf} {kind : Kind}
    (hq : q.startsWith path = true) :
    (invalidateAll keyPrefix cache path).get? (key keyPrefix kind q) =
      cache.get? (key keyPrefix kind q) := by
  simp only [invalidateAll, invalidatePrefix, invalidateParent]
  cases hparent : path.parent with
  | none => rfl
  | some parent =>
    simp only
    split_ifs
    · rfl
    · rw [AssocMap.get?_erase, if_neg]
      rw [beq_iff_eq]
      exact (key_ne_parent hparent hq).symm

/-- A step that removes nothing, or only paths without anything in the cache. -/
lemma Inv.moved {s : State S} (h : Inv json keyPrefix s) {cached : CachedFs S}
    {removed : List PathBuf}
    (hnothing : ∀ path ∈ removed, NothingCached json keyPrefix cached.cache path) :
    Inv json keyPrefix (s.moved cached removed) := by
  refine ⟨fun path n hmem kind q bytes hq hget hanswers => ?_, fun k => ?_, fun path n hmem => ?_⟩
  · rcases List.mem_append.1 hmem with hmem | hmem
    · obtain ⟨p, hp, heq⟩ := List.mem_map.1 hmem
      obtain ⟨rfl, -⟩ := Prod.mk.inj heq
      exact absurd hanswers (hnothing p hp kind q bytes hq hget)
    · simp only [State.moved] at hget ⊢
      split_ifs with hsame
      · rw [hsame] at hget
        exact h.forgotten path n hmem kind q bytes hq hget hanswers
      · have hle := h.removed_le path n hmem
        omega
  · simp only [State.moved]
    split_ifs
    · have hle := h.since_le k
      omega
    · exact Nat.le_refl _
  · rcases List.mem_append.1 hmem with hmem | hmem
    · obtain ⟨p, -, heq⟩ := List.mem_map.1 hmem
      obtain ⟨-, rfl⟩ := Prod.mk.inj heq
      exact Nat.le_refl _
    · exact Nat.le_succ_of_le (h.removed_le path n hmem)

/-- The call that removes a path, when it succeeds. -/
lemma exec_removeAll {s : CachedFs S} {now : DateTime} {path : PathBuf} {a : Reply}
    (h : (fs.mutate s.inner now (.removeAll path)).1 = .ok a) :
    exec fs json keyPrefix s now (.mutate (.removeAll path)) =
      (.ok a, ⟨(fs.mutate s.inner now (.removeAll path)).2,
        invalidateAll keyPrefix s.cache path⟩) := by
  simp only [exec, mutate, h, invalidate]

lemma mem_removedBy {s : CachedFs S} {now : DateTime} {request : Request PathBuf}
    {path : PathBuf} (h : path ∈ removedBy request (exec fs json keyPrefix s now request).1) :
    request = .mutate (.removeAll path) ∧
      ∃ a, (fs.mutate s.inner now (.removeAll path)).1 = .ok a := by
  rw [removedBy.eq_def] at h
  split at h
  · next p reply hexec =>
    obtain rfl := List.mem_singleton.1 h
    refine ⟨rfl, reply, ?_⟩
    simp only [exec, mutate] at hexec
    cases hmutate : (fs.mutate s.inner now (.removeAll path)).1 with
    | ok a =>
      rw [hmutate] at hexec
      exact hexec
    | err e =>
      rw [hmutate] at hexec
      cases hexec
    | panic =>
      rw [hmutate] at hexec
      cases hexec
  · cases h

lemma inv_step {s s' : State S} {e : Event} (h : Inv json keyPrefix s)
    (hok : StepOk fs json keyPrefix s e) (hs' : step fs json keyPrefix s e = some s') :
    Inv json keyPrefix s' := by
  cases e with
  | evict k =>
    rw [← Option.some.inj hs']
    exact h.moved fun path hpath => nomatch hpath
  | call now request =>
    rw [← Option.some.inj hs']
    refine h.moved fun path hpath => ?_
    obtain ⟨rfl, a, ha⟩ := mem_removedBy hpath
    rw [exec_removeAll ha]
    intro kind q bytes hq hget
    rw [get?_invalidateAll hq] at hget
    exact hok ⟨a, ha⟩ kind q bytes hq hget

/-- A step that leads to a state without old entries is one under the condition. -/
lemma stepOk_of_forgotten {s s' : State S} {e : Event} (h : Inv json keyPrefix s)
    (hs' : step fs json keyPrefix s e = some s') (hforgotten : Forgotten json keyPrefix s') :
    StepOk fs json keyPrefix s e := by
  rw [StepOk.eq_def]
  split
  · next now path =>
    rintro ⟨a, ha⟩ kind q bytes hq hget hanswers
    rw [← Option.some.inj hs', exec_removeAll ha] at hforgotten
    -- the entry is still there, and it was there before
    have hkept := @get?_invalidateAll keyPrefix s.cached.cache path q kind hq
    have hlt := hforgotten path (s.clock + 1) List.mem_cons_self kind q bytes hq
      (hkept.trans hget) hanswers
    simp only [State.moved] at hlt
    rw [if_pos hkept] at hlt
    have hle := h.since_le (key keyPrefix kind q)
    omega
  · trivial

lemma inv_new (inner : S) : Inv json keyPrefix (State.new inner) where
  forgotten _ _ hmem := nomatch hmem
  since_le _ := Nat.le_refl _
  removed_le _ _ hmem := nomatch hmem

/-- In all runs, no entry from before the removal of a path is the answer to a call for it or
for a path below it, exactly as long as no path is removed while something is cached for it or
for a path below it. -/
theorem forgotten_iff (fs : FileSystem S) (json : MetadataJson) (keyPrefix : Bytes) (inner : S)
    (evs : List Event) :
    StatesMeet (step fs json keyPrefix) (Forgotten json keyPrefix) (State.new inner) evs ↔
      StepsMeet (step fs json keyPrefix) (StepOk fs json keyPrefix) (State.new inner) evs := by
  have hforgotten : ∀ s : State S, Inv json keyPrefix s → Forgotten json keyPrefix s :=
    fun s h => h.forgotten
  exact statesMeet_iff_of_invariant hforgotten
    (fun _ _ _ h hs' hnew => stepOk_of_forgotten h hs' hnew)
    (fun _ _ _ h hok hs' => inv_step h hok hs') (inv_new inner)

/-- A file is read, and removed. -/
def removedRun : List Event :=
  [.call 0 (.mutate (.create ⟨ascii "/f"⟩)),
    .call 0 (.mutate (.write ⟨ascii "/f"⟩ (ascii "x") 0 .NONE)),
    .call 0 (.read ⟨ascii "/f"⟩ 0 (-1)), .call 0 (.mutate (.removeAll ⟨ascii "/f"⟩))]

/-- A step over an in-memory filesystem that is mounted at `/m`. -/
def memStep : State MemFs.MemFS → Event → Option (State MemFs.MemFS) :=
  step memFileSystem failingJson (ascii "/m:")

/-- The file is gone after this run, and a read of it still returns its content. -/
theorem not_forgotten_removedRun :
    (∃ s, run memStep (.new (MemFs.MemFS.new 0)) removedRun = some s ∧
      s.removed = [(⟨ascii "/f"⟩, 4)] ∧
      memFileSystem.read s.cached.inner ⟨ascii "/f"⟩ 0 (-1) = .err (.NotFound ⟨ascii "/f"⟩) ∧
      (CachedFs.read memFileSystem (ascii "/m:") s.cached ⟨ascii "/f"⟩ 0 (-1)).1 =
        .ok (ascii "x") ∧
      s.since (key (ascii "/m:") .read ⟨ascii "/f"⟩) = 3) ∧
    ¬ StatesMeet memStep (Forgotten failingJson (ascii "/m:")) (.new (MemFs.MemFS.new 0))
      removedRun := by
  refine ⟨⟨_, rfl, rfl, rfl, rfl, rfl⟩, fun h => ?_⟩
  have hlast := (h.run_invariant (fun _ _ _ _ _ _ => trivial) trivial rfl).2
  have hlt : 4 < 3 := hlast ⟨ascii "/f"⟩ 4 List.mem_cons_self .read ⟨ascii "/f"⟩ (ascii "x")
    (by decide) rfl trivial
  omega

end Racfs.Vfs.Foyer
