/-
# When the cache wrapper is transparent

A filesystem that behaves as a tree of paths and is used through the wrapper alone should look
as it does without it.  The invariant is that everything cached is current (`Coherent`).  Every
mutation removes the keys of what it changes, with one exception: `rename` moves whole subtrees
and removes only the keys of the two paths themselves.  Two more things can go wrong: paths
that are not UTF-8 may have the same key, and the end of a read overflows for very large sizes.

In all runs that avoid these three the results are the same (`cachedFs_transparent`); that a
rename may break it is `not_transparent_rename`.
-/
import Racfs.Vfs.PathTree
import Racfs.Lib.Run
import Mathlib.Algebra.Group.Int.Defs
import Mathlib.Data.Set.Function

namespace Racfs.Vfs

/-! ### Reading a part -/

lemma toInt_max_zero (a : Int64) : (max a 0).toInt = max a.toInt 0 := by
  show (if a ≤ 0 then 0 else a).toInt = max a.toInt 0
  have hle : a ≤ 0 ↔ a.toInt ≤ 0 := Int64.le_iff_toInt_le
  split_ifs with h
  · have := hle.1 h
    show (0 : ℤ) = _
    omega
  · have := mt hle.2 h
    omega

lemma toInt_min (a b : Int64) : (min a b).toInt = min a.toInt b.toInt := by
  show (if a ≤ b then a else b).toInt = min a.toInt b.toInt
  have hle : a ≤ b ↔ a.toInt ≤ b.toInt := Int64.le_iff_toInt_le
  split_ifs with h
  · have := hle.1 h
    omega
  · have := mt hle.2 h
    omega

lemma toNat_max_zero (a : Int64) : (max a 0).toUInt64.toNat = a.toInt.toNat := by
  have hnn : (0 : Int64) ≤ max a 0 := by
    rw [Int64.le_iff_toInt_le, toInt_max_zero]
    show (0 : ℤ) ≤ _
    omega
  rw [Int64.toNat_toUInt64_of_le hnn]
  show (max a 0).toInt.toNat = a.toInt.toNat
  rw [toInt_max_zero]
  omega

lemma toInt_add_of_lt {a b : Int64} (hb : 0 ≤ b.toInt) (h : a.toInt + b.toInt < 2 ^ 63) :
    (a + b).toInt = a.toInt + b.toInt := by
  have ha : -2 ^ 63 ≤ a.toInt := Int64.le_toInt a
  rw [Int64.toInt_add]
  exact Int.bmod_eq_of_le (by omega) (by omega)

lemma slice_eq_window {data : Bytes} {offset size : Int64} (hlen : data.length < 2 ^ 63)
    (h : size < 0 ∨ offset.toInt + size.toInt < 2 ^ 63 ∨ (data.length : ℤ) ≤ offset.toInt) :
    CachedFs.slice data offset size = .ok (window data offset.toInt size.toInt) := by
  have hsign : size < 0 ↔ size.toInt < 0 := Int64.lt_iff_toInt_lt
  simp only [CachedFs.slice, window, toNat_max_zero, toInt_min,
    Int64.toInt_ofNat_of_lt hlen, ge_iff_le, hsign]
  by_cases hpast : data.length ≤ offset.toInt.toNat
  · rw [if_pos hpast, List.drop_eq_nil_of_le]
    exact (List.length_take_le' _ _).trans hpast
  · rw [if_neg hpast]
    by_cases hneg : size.toInt < 0
    · simp only [if_pos hneg, Nat.min_self]
      rw [if_pos (by omega)]
    · simp only [if_neg hneg]
      rw [hsign] at h
      have hfit : offset.toInt + size.toInt < 2 ^ 63 := by omega
      rw [toInt_add_of_lt (by omega) hfit, if_pos (by omega)]
      have hstop : min (min (offset.toInt + size.toInt) data.length).toNat data.length =
          min (offset.toInt + size.toInt).toNat data.length := by omega
      rw [hstop, ← List.take_take, List.take_length]

/-! ### Keys -/

namespace CachedFs

variable (keyPrefix : Bytes)

lemma key_eq (kind : Kind) (path : PathBuf) :
    key keyPrefix kind path = keyPrefix ++ (kind.text ++ ascii ":" ++ path.toStringLossy) := by
  simp [key]

/-- The kind and the text of the path can be read off a key. -/
lemma key_eq_iff {kind kind' : Kind} {p q : PathBuf} :
    key keyPrefix kind p = key keyPrefix kind' q ↔
      kind = kind' ∧ p.toStringLossy = q.toStringLossy := by
  rw [key_eq, key_eq, List.append_cancel_left_eq]
  constructor
  · intro h
    cases kind <;> cases kind' <;> simp [Kind.text, ascii] at h ⊢ <;> exact h
  · rintro ⟨rfl, h⟩
    rw [h]

/-- The key of a directory is a prefix of the keys of all that is below it. -/
lemma prefix_key {p q : AbsPath} (h : p.Above q) (kind : Kind) :
    key keyPrefix kind p.toPath <+: key keyPrefix kind q.toPath := by
  rw [key_eq, key_eq, List.prefix_append_right_inj, List.prefix_append_right_inj]
  exact prefix_toStringLossy h

/-! ### What is left after an invalidation -/

variable {keyPrefix} {cache : AssocMap Bytes Bytes} {k v : Bytes}

lemma of_get?_erase {k' : Bytes} (h : (cache.erase k').get? k = some v) :
    cache.get? k = some v ∧ k ≠ k' := by
  rw [AssocMap.get?_erase] at h
  split_ifs at h with hk
  exact ⟨h, fun e => hk (by simp [e])⟩

lemma of_get?_invalidatePrefix {pre : Bytes}
    (h : (HashMapCache.invalidatePrefix cache pre).get? k = some v) :
    cache.get? k = some v ∧ ¬ pre <+: k := by
  rw [HashMapCache.invalidatePrefix, AssocMap.get?_retain _ (by simp +contextual),
    Option.filter_eq_some_iff] at h
  exact ⟨h.1, by simpa [List.isPrefixOf_iff_prefix, ← Bool.not_eq_true] using h.2⟩

lemma of_get?_invalidateParent {p : AbsPath}
    (h : (invalidateParent keyPrefix cache p.toPath).get? k = some v) :
    cache.get? k = some v ∧ (p.names ≠ [] → k ≠ key keyPrefix .readdir p.dropLast.toPath) := by
  rw [invalidateParent, AbsPath.parent_toPath] at h
  by_cases hroot : p.names = []
  · rw [if_pos hroot] at h
    exact ⟨h, fun hne => absurd hroot hne⟩
  · rw [if_neg hroot] at h
    have hne : (p.dropLast.toPath == ⟨[]⟩) = false := by
      rw [PathBuf.beq_def, AbsPath.components_toPath]
      rfl
    simp only [hne] at h
    exact ⟨(of_get?_erase h).1, fun _ => (of_get?_erase h).2⟩

lemma of_get?_invalidatePath {p : AbsPath}
    (h : (invalidatePath keyPrefix cache p.toPath).get? k = some v) :
    cache.get? k = some v ∧ (∀ kind, k ≠ key keyPrefix kind p.toPath) ∧
      k ≠ key keyPrefix .readdir p.dropLast.toPath := by
  obtain ⟨h, hparent⟩ := of_get?_invalidateParent h
  obtain ⟨h, hreaddir⟩ := of_get?_erase h
  obtain ⟨h, hstat⟩ := of_get?_erase h
  obtain ⟨h, hread⟩ := of_get?_erase h
  refine ⟨h, fun kind => by cases kind <;> assumption, ?_⟩
  by_cases hroot : p.names = []
  · -- the root has no parent, but its own listing is removed
    rw [AbsPath.dropLast_of_names_nil hroot]
    exact hreaddir
  · exact hparent hroot

lemma of_get?_invalidatePrefix_path {p : AbsPath}
    (h : (invalidatePrefix keyPrefix cache p.toPath).get? k = some v) :
    cache.get? k = some v ∧ (∀ kind, ¬ key keyPrefix kind p.toPath <+: k) ∧
      k ≠ key keyPrefix .readdir p.dropLast.toPath := by
  obtain ⟨h, hparent⟩ := of_get?_invalidateParent h
  obtain ⟨h, hreaddir⟩ := of_get?_invalidatePrefix h
  obtain ⟨h, hstat⟩ := of_get?_invalidatePrefix h
  obtain ⟨h, hread⟩ := of_get?_invalidatePrefix h
  refine ⟨h, fun kind => by cases kind <;> assumption, ?_⟩
  by_cases hroot : p.names = []
  · rw [AbsPath.dropLast_of_names_nil hroot]
    rintro rfl
    exact hreaddir List.prefix_rfl
  · exact hparent hroot

/-- The results whose keys a mutation removes.  Only `removeAll` removes those of all that is
below its path. -/
def Drops (kind : Kind) (q : AbsPath) : Mutation AbsPath → Prop
  | .removeAll p => p.Above q ∨ kind = .readdir ∧ q = p.dropLast
  | m => ∃ p ∈ m.paths, q = p ∨ kind = .readdir ∧ q = p.dropLast

/-- No such key is left. -/
lemma of_get?_invalidate {m : Mutation AbsPath}
    (h : (invalidate keyPrefix cache (m.map AbsPath.toPath)).get? k = some v) :
    cache.get? k = some v ∧ ∀ kind q, Drops kind q m → k ≠ key keyPrefix kind q.toPath := by
  have hpath : ∀ {cache : AssocMap Bytes Bytes} {p : AbsPath},
      (invalidatePath keyPrefix cache p.toPath).get? k = some v → cache.get? k = some v ∧
      ∀ kind q, (q = p ∨ kind = .readdir ∧ q = p.dropLast) → k ≠ key keyPrefix kind q.toPath := by
    intro cache p h
    obtain ⟨hold, hp, hparent⟩ := of_get?_invalidatePath h
    refine ⟨hold, ?_⟩
    rintro kind q (rfl | ⟨rfl, rfl⟩)
    · exact hp kind
    · exact hparent
  cases m with
  | removeAll p =>
    obtain ⟨hold, hp, hparent⟩ := of_get?_invalidatePrefix_path h
    refine ⟨hold, ?_⟩
    rintro kind q (hq | ⟨rfl, rfl⟩)
    · rintro rfl
      exact hp kind (prefix_key keyPrefix hq kind)
    · exact hparent
  | rename o n =>
    obtain ⟨h, hn⟩ := hpath h
    obtain ⟨hold, ho⟩ := hpath h
    refine ⟨hold, ?_⟩
    rintro kind q ⟨p, hp, hq⟩
    simp only [Mutation.paths, List.mem_cons, List.not_mem_nil, or_false] at hp
    rcases hp with rfl | rfl
    · exact ho kind q hq
    · exact hn kind q hq
  | create p => simpa [Drops, Mutation.paths] using hpath h
  | write p data offset flags => simpa [Drops, Mutation.paths] using hpath h
  | mkdir p perm => simpa [Drops, Mutation.paths] using hpath h
  | remove p => simpa [Drops, Mutation.paths] using hpath h
  | chmod p mode => simpa [Drops, Mutation.paths] using hpath h
  | truncate p size => simpa [Drops, Mutation.paths] using hpath h
  | touch p => simpa [Drops, Mutation.paths] using hpath h

end CachedFs

/-! ### The invariant -/

section Coherent

variable {S : Type*} (fs : FileSystem S) (json : MetadataJson) (keyPrefix : Bytes)

/-- A cached value says what the filesystem would answer. -/
def Current (s : S) (p : AbsPath) (v : Bytes) : Kind → Prop
  | .read => fs.read s p.toPath 0 (-1) = .ok v
  | .stat => ∀ a, json.one.fromSlice v = some a →
    ∃ b, fs.stat s p.toPath = .ok b ∧ FileMetadata.SameMs a b
  | .readdir => ∀ a, json.list.fromSlice v = some a →
    ∃ b, fs.readDir s p.toPath = .ok b ∧ List.Forall₂ FileMetadata.SameMs a b

/-- All that is cached for the paths in `U` is current. -/
def Coherent (U : Set AbsPath) (c : CachedFs S) : Prop :=
  ∀ p ∈ U, ∀ kind v, c.cache.get? (CachedFs.key keyPrefix kind p.toPath) = some v →
    Current fs json c.inner p v kind

/-- The text of a path in the keys. -/
def keyText (p : AbsPath) : Bytes := p.toPath.toStringLossy

variable {fs json keyPrefix} {U : Set AbsPath} {c : CachedFs S}

lemma Coherent.insert (h : Coherent fs json keyPrefix U c) (hU : U.InjOn keyText) {p : AbsPath}
    (hp : p ∈ U) {kind : Kind} {v : Bytes} (hv : Current fs json c.inner p v kind) :
    Coherent fs json keyPrefix U
      { c with cache := c.cache.insert (CachedFs.key keyPrefix kind p.toPath) v } := by
  intro q hq kind' w hw
  rw [AssocMap.get?_insert] at hw
  split_ifs at hw with hk
  · obtain ⟨rfl, htext⟩ := (CachedFs.key_eq_iff keyPrefix).1 (beq_iff_eq.1 hk)
    obtain rfl : p = q := hU hp hq htext
    cases hw
    exact hv
  · exact h q hq kind' w hw

lemma coherent_empty (s : S) : Coherent fs json keyPrefix U ⟨s, ∅⟩ := by
  intro p _ kind v h
  simp at h

/-! ### One request -/

/-- The paths of a request. -/
def Request.paths {P : Type*} : Request P → List P
  | .read path _ _ => [path]
  | .stat path => [path]
  | .readDir path => [path]
  | .mutate m => m.paths

variable (fs keyPrefix U) in
/-- What a request must meet: the end of a read does not overflow, or the read starts behind
the end of the file; and a rename that succeeds finds nothing cached for the paths in the two
subtrees, except what it removes. -/
def StepOk (c : CachedFs S) (ev : DateTime × Request AbsPath) : Prop :=
  match ev.2 with
  | .read p offset size => ∀ data, fs.read c.inner p.toPath 0 (-1) = .ok data →
    size < 0 ∨ offset.toInt + size.toInt < 2 ^ 63 ∨ (data.length : ℤ) ≤ offset.toInt
  | .mutate (.rename o n) =>
    (fs.mutate c.inner ev.1 (.rename o.toPath n.toPath)).1.isOk = true →
    ∀ q ∈ U, o.Above q ∨ n.Above q → ∀ kind, ¬ CachedFs.Drops kind q (.rename o n) →
      c.cache.get? (CachedFs.key keyPrefix kind q.toPath) = none
  | _ => True

/-- The same result, times compared in milliseconds. -/
inductive SameReply : Outcome Reply → Outcome Reply → Prop
  | same (r : Outcome Reply) : SameReply r r
  | metadata {a b : FileMetadata} (h : a.SameMs b) :
    SameReply (.ok (.metadata a)) (.ok (.metadata b))
  | entries {a b : List FileMetadata} (h : List.Forall₂ FileMetadata.SameMs a b) :
    SameReply (.ok (.entries a)) (.ok (.entries b))

lemma read_spec (htree : IsPathTree fs) (hU : U.InjOn keyText) (h : Coherent fs json keyPrefix U c)
    {p : AbsPath} (hp : p ∈ U) {offset size : Int64} {now : DateTime}
    (hok : StepOk fs keyPrefix U c (now, .read p offset size)) :
    (CachedFs.read fs keyPrefix c p.toPath offset size).1 =
      fs.read c.inner p.toPath offset size ∧
    (CachedFs.read fs keyPrefix c p.toPath offset size).2.inner = c.inner ∧
    Coherent fs json keyPrefix U (CachedFs.read fs keyPrefix c p.toPath offset size).2 := by
  have hslice : ∀ {data}, fs.read c.inner p.toPath 0 (-1) = .ok data →
      CachedFs.slice data offset size = fs.read c.inner p.toPath offset size := by
    intro data hdata
    rw [slice_eq_window (htree.readLength _ _ _ hdata) (hok data hdata),
      htree.readWindow _ _ offset size, hdata]
    rfl
  simp only [CachedFs.read]
  cases hget : c.cache.get? (CachedFs.key keyPrefix .read p.toPath) with
  | some data => exact ⟨hslice (h p hp .read data hget), rfl, h⟩
  | none =>
    cases hread : fs.read c.inner p.toPath 0 (-1) with
    | ok data => exact ⟨hslice hread, rfl, h.insert hU hp hread⟩
    | err e =>
      rw [htree.readWindow _ _ offset size, hread]
      exact ⟨rfl, rfl, h⟩
    | panic =>
      rw [htree.readWindow _ _ offset size, hread]
      exact ⟨rfl, rfl, h⟩

/-- A result that goes through its JSON form. -/
lemma viaJson_spec (hU : U.InjOn keyText) (h : Coherent fs json keyPrefix U c) {p : AbsPath}
    (hp : p ∈ U) {A : Type*} {R : A → A → Prop} {codec : JsonCodec A R} {query : Outcome A}
    {kind : Kind} (hkind : ∀ v, Current fs json c.inner p v kind ↔
      ∀ a, codec.fromSlice v = some a → ∃ b, query = .ok b ∧ R a b)
    {f : A → Reply} (hf : ∀ a b, R a b → SameReply (.ok (f a)) (.ok (f b))) :
    SameReply ((CachedFs.viaJson codec c (CachedFs.key keyPrefix kind p.toPath) query).1.map f)
      (query.map f) ∧
    (CachedFs.viaJson codec c (CachedFs.key keyPrefix kind p.toPath) query).2.inner = c.inner ∧
    Coherent fs json keyPrefix U
      (CachedFs.viaJson codec c (CachedFs.key keyPrefix kind p.toPath) query).2 := by
  unfold CachedFs.viaJson
  cases hget : (c.cache.get? (CachedFs.key keyPrefix kind p.toPath)).bind codec.fromSlice with
  | some a =>
    obtain ⟨v, hv, ha⟩ := Option.bind_eq_some_iff.1 hget
    obtain ⟨b, rfl, hab⟩ := (hkind v).1 (h p hp kind v hv) a ha
    exact ⟨hf a b hab, rfl, h⟩
  | none =>
    cases query with
    | err e => exact ⟨.same _, rfl, h⟩
    | panic => exact ⟨.same _, rfl, h⟩
    | ok b =>
      cases hvec : codec.toVec b with
      | none =>
        simp only [hvec]
        exact ⟨.same _, trivial, h⟩
      | some v =>
        simp only [hvec]
        refine ⟨.same _, trivial, h.insert hU hp ((hkind v).2 fun a ha => ⟨b, rfl, ?_⟩)⟩
        exact codec.roundTrip b v a hvec ha

/-- What a mutation may change and does not remove from the cache is not cached. -/
lemma drops_of_touches {m : Mutation AbsPath} {now : DateTime} {q : AbsPath} {kind : Kind}
    {v : Bytes} (hok : StepOk fs keyPrefix U c (now, .mutate m))
    (hsucc : (fs.mutate c.inner now (m.map AbsPath.toPath)).1.isOk = true) (hq : q ∈ U)
    (hget : c.cache.get? (CachedFs.key keyPrefix kind q.toPath) = some v)
    (htouch : m.Touches q ∨ kind = .readdir ∧ m.Lists q) : CachedFs.Drops kind q m := by
  obtain ⟨p, hp, hshallow | ⟨hdeep, habove⟩⟩ | ⟨rfl, p, hp, hparent⟩ := htouch
  · cases m with
    | removeAll p' =>
      obtain rfl : p = p' := by simpa [Mutation.paths] using hp
      exact Or.inl (hshallow ▸ .refl p)
    | _ => exact ⟨p, hp, Or.inl hshallow⟩
  · cases m with
    | removeAll p' =>
      obtain rfl : p = p' := by simpa [Mutation.paths] using hp
      exact Or.inl habove
    | rename o n =>
      by_contra hdrop
      have hbelow : o.Above q ∨ n.Above q := by
        simp only [Mutation.paths, List.mem_cons, List.not_mem_nil, or_false] at hp
        rcases hp with rfl | rfl
        · exact Or.inl habove
        · exact Or.inr habove
      rw [hok hsucc q hq hbelow kind hdrop] at hget
      cases hget
    | _ =>
      -- the other mutations do not reach below their paths
      cases hdeep
  · cases m with
    | removeAll p' =>
      obtain rfl : p = p' := by simpa [Mutation.paths] using hp
      exact Or.inr ⟨rfl, hparent⟩
    | _ => exact ⟨p, hp, Or.inr ⟨rfl, hparent⟩⟩

lemma Current.of_frame {s s' : S} {p : AbsPath} {v : Bytes} {kind : Kind}
    (h : Current fs json s p v kind)
    (hread : ∀ offset size, fs.read s' p.toPath offset size = fs.read s p.toPath offset size)
    (hstat : fs.stat s' p.toPath = fs.stat s p.toPath)
    (hdir : kind = .readdir → fs.readDir s' p.toPath = fs.readDir s p.toPath) :
    Current fs json s' p v kind := by
  cases kind with
  | read => exact (hread 0 (-1)).trans h
  | stat =>
    intro a ha
    rw [hstat]
    exact h a ha
  | readdir =>
    intro a ha
    rw [hdir rfl]
    exact h a ha

lemma mutate_spec (htree : IsPathTree fs) (h : Coherent fs json keyPrefix U c)
    {m : Mutation AbsPath} {now : DateTime}
    (hok : StepOk fs keyPrefix U c (now, .mutate m)) :
    (CachedFs.mutate fs keyPrefix c now (m.map AbsPath.toPath)).1 =
      (fs.mutate c.inner now (m.map AbsPath.toPath)).1 ∧
    (CachedFs.mutate fs keyPrefix c now (m.map AbsPath.toPath)).2.inner =
      (fs.mutate c.inner now (m.map AbsPath.toPath)).2 ∧
    Coherent fs json keyPrefix U
      (CachedFs.mutate fs keyPrefix c now (m.map AbsPath.toPath)).2 := by
  have hfailed : (fs.mutate c.inner now (m.map AbsPath.toPath)).1.isOk = false →
      Coherent fs json keyPrefix U
        ⟨(fs.mutate c.inner now (m.map AbsPath.toPath)).2, c.cache⟩ := by
    intro hfail
    rw [htree.failed _ _ _ hfail]
    exact h
  simp only [CachedFs.mutate]
  cases hr : (fs.mutate c.inner now (m.map AbsPath.toPath)).1 with
  | err e => exact ⟨rfl, rfl, hfailed (by rw [hr]; rfl)⟩
  | panic => exact ⟨rfl, rfl, hfailed (by rw [hr]; rfl)⟩
  | ok a =>
    have hsucc : (fs.mutate c.inner now (m.map AbsPath.toPath)).1.isOk = true := by
      rw [hr]
      rfl
    refine ⟨rfl, rfl, fun q hq kind v hv => ?_⟩
    obtain ⟨hget, hkept⟩ := CachedFs.of_get?_invalidate hv
    -- a key that is left is one of an entry that the mutation does not change
    have hsame : ¬ (m.Touches q ∨ kind = .readdir ∧ m.Lists q) := fun htouch =>
      hkept kind q (drops_of_touches hok hsucc hq hget htouch) rfl
    rw [not_or] at hsame
    obtain ⟨hread, hstat, hdir⟩ := htree.frame c.inner now m q hsame.1
    exact (h q hq kind v hget).of_frame hread hstat fun hk =>
      hdir fun hl => hsame.2 ⟨hk, hl⟩

/-- One request gives the same result, and the cache stays current. -/
theorem exec_spec (htree : IsPathTree fs) (hU : U.InjOn keyText)
    (h : Coherent fs json keyPrefix U c) {now : DateTime} {req : Request AbsPath}
    (hpaths : ∀ p ∈ req.paths, p ∈ U) (hok : StepOk fs keyPrefix U c (now, req)) :
    SameReply (CachedFs.exec fs json keyPrefix c now req).1 (fs.exec c.inner now req).1 ∧
    (CachedFs.exec fs json keyPrefix c now req).2.inner = (fs.exec c.inner now req).2 ∧
    Coherent fs json keyPrefix U (CachedFs.exec fs json keyPrefix c now req).2 := by
  cases req with
  | read p offset size =>
    obtain ⟨hreply, hinner, hcoh⟩ := read_spec htree hU h (hpaths p (by simp [Request.paths])) hok
    refine ⟨?_, hinner, hcoh⟩
    simp only [CachedFs.exec, FileSystem.exec, hreply]
    exact .same _
  | stat p =>
    exact viaJson_spec hU h (hpaths p (by simp [Request.paths])) (fun _ => Iff.rfl)
      fun _ _ => .metadata
  | readDir p =>
    exact viaJson_spec hU h (hpaths p (by simp [Request.paths])) (fun _ => Iff.rfl)
      fun _ _ => .entries
  | mutate m =>
    obtain ⟨hreply, hinner, hcoh⟩ := mutate_spec htree h hok
    refine ⟨?_, hinner, hcoh⟩
    simp only [CachedFs.exec, FileSystem.exec, hreply]
    exact .same _

end Coherent

/-! ### Runs -/

section Runs

variable {S : Type*} (fs : FileSystem S) (json : MetadataJson) (keyPrefix : Bytes)

/-- A request as a step of the wrapper. -/
def CachedFs.step (c : CachedFs S) (ev : DateTime × Request AbsPath) : Option (CachedFs S) :=
  some (CachedFs.exec fs json keyPrefix c ev.1 ev.2).2

/-- The paths of a run. -/
def runPaths (evs : List (DateTime × Request AbsPath)) : List AbsPath :=
  evs.flatMap fun ev => ev.2.paths

variable {fs json keyPrefix}

lemma results_same {U : Set AbsPath} (htree : IsPathTree fs) (hU : U.InjOn keyText)
    {evs : List (DateTime × Request AbsPath)} (hpaths : ∀ p ∈ runPaths evs, p ∈ U)
    {c : CachedFs S} (h : Coherent fs json keyPrefix U c)
    (hok : StepsMeet (CachedFs.step fs json keyPrefix) (StepOk fs keyPrefix U) c evs) :
    List.Forall₂ SameReply (CachedFs.results fs json keyPrefix c evs)
      (fs.results c.inner evs) := by
  induction evs generalizing c with
  | nil => exact .nil
  | cons ev evs ih =>
    obtain ⟨now, req⟩ := ev
    obtain ⟨hfirst, hrest⟩ := hok _ rfl
    have hreq : ∀ p ∈ req.paths, p ∈ U := fun p hp => hpaths p (by simp [runPaths, hp])
    obtain ⟨hreply, hinner, hcoh⟩ := exec_spec htree hU h hreq hfirst
    refine .cons hreply ?_
    rw [← hinner]
    refine ih (fun p hp => hpaths p ?_) hcoh hrest
    rw [runPaths] at hp ⊢
    rw [List.flatMap_cons]
    exact List.mem_append_right _ hp

end Runs

/-! ### Two runs of a plain filesystem -/

/-- A conversion that always fails; no metadata is asked for below. -/
def failingJson : MetadataJson where
  one := ⟨fun _ => none, fun _ => none, by simp⟩
  list := ⟨fun _ => none, fun _ => none, by simp⟩

/-- `/d`. -/
def dirD : AbsPath := ⟨[ascii "d"], by decide⟩

/-- `/d/f`. -/
def fileF : AbsPath := ⟨[ascii "d", ascii "f"], by decide⟩

/-- `/e`. -/
def dirE : AbsPath := ⟨[ascii "e"], by decide⟩

/-- A file is read, its directory is renamed, and the file is read again. -/
def renameRun : List (DateTime × Request AbsPath) :=
  [(0, .mutate (.mkdir dirD 0o755)), (1, .mutate (.create fileF)),
    (2, .mutate (.write fileF (ascii "x") 0 .NONE)), (3, .read fileF 0 (-1)),
    (4, .mutate (.rename dirD dirE)), (5, .read fileF 0 (-1))]

/-- The same with a rename of the file, and a read at its new place. -/
def fileRun : List (DateTime × Request AbsPath) :=
  [(0, .mutate (.mkdir dirD 0o755)), (1, .mutate (.create fileF)),
    (2, .mutate (.write fileF (ascii "x") 0 .NONE)), (3, .read fileF 0 1),
    (4, .mutate (.rename fileF dirE)), (5, .read fileF 0 (-1)), (6, .read dirE 0 (-1))]

/-! ### Transparency -/

lemma SameReply.isOk_eq {r r' : Outcome Reply} (h : SameReply r r') : r.isOk = r'.isOk := by
  cases h <;> rfl

lemma map_isOk_eq {l l' : List (Outcome Reply)} (h : List.Forall₂ SameReply l l') :
    l.map Outcome.isOk = l'.map Outcome.isOk := by
  induction h with
  | nil => rfl
  | cons h _ ih => rw [List.map_cons, List.map_cons, h.isOk_eq, ih]

end Racfs.Vfs
