/-
# The handle manager

`HandleManager` (`racfs-vfs/src/handle_manager.rs`) keeps the open file handles in two tables:
by identifier, and by the pair of path and flags, so that a second open of the same file with
the same flags gets the first one's handle.  A handle that has not been used for the lease
timeout is removed by `cleanupExpired`.

This file has the sections of the code that run under the locks of the tables, as functions of
the tables, and what each of them does to the two indexes (`Agree`).  How calls interleave
between the sections is the subject of `Racfs.Vfs.HandleCalls`.
-/
import Racfs.Core

namespace Racfs.Vfs

/-- What a handle is looked up by: the path and the flags. -/
abbrev HandleKey := PathBuf × OpenFlags

/-- A stored handle; points of time are in nanoseconds. -/
structure HandleEntry where
  handle : FileHandle
  created : ℕ
  lastAccessed : ℕ

/-- The key of a stored handle. -/
def HandleEntry.key (e : HandleEntry) : HandleKey := (e.handle.path, e.handle.flags)

/-- The two tables of handles. -/
structure HandleManager where
  handles : AssocMap HandleId HandleEntry
  /-- The identifier of the handle for a path and flags. -/
  pathIndex : AssocMap HandleKey HandleId
  leaseTimeout : ℕ
  maxHandles : ℕ

namespace HandleManager

/-- A handle manager without handles. -/
def withConfig (leaseTimeoutSecs maxHandles : ℕ) : HandleManager :=
  ⟨∅, ∅, leaseTimeoutSecs * 1000000000, maxHandles⟩

/-- The first section of `open_handle`: whether the limit is reached. -/
def atLimit (m : HandleManager) : Bool := m.handles.size ≥ m.maxHandles

/-- The lookup of `open_handle`, made once before and once under the write locks. -/
def find (m : HandleManager) (key : HandleKey) : Option FileHandle :=
  (m.pathIndex.get? key).bind fun id => (m.handles.get? id).map HandleEntry.handle

/-- Add a handle with the identifier that has been generated for it. -/
def insertHandle (m : HandleManager) (key : HandleKey) (id : HandleId) (now : ℕ) :
    HandleManager :=
  { m with
    handles := m.handles.insert id ⟨FileHandle.new key.1 key.2 id, now, now⟩
    pathIndex := m.pathIndex.insert key id }

/-- Close a handle. -/
def closeHandle (m : HandleManager) (id : HandleId) : Except FSError Unit × HandleManager :=
  match m.handles.get? id with
  | none => (.error (.InvalidHandle id.toString), m)
  | some e =>
    (.ok (), { m with handles := m.handles.erase id, pathIndex := m.pathIndex.erase e.key })

/-- Change a stored handle; the common part of the next three functions. -/
def updateEntry (m : HandleManager) (id : HandleId) (f : HandleEntry → HandleEntry) :
    Except FSError HandleEntry × HandleManager :=
  match m.handles.get? id with
  | none => (.error (.InvalidHandle id.toString), m)
  | some e => (.ok (f e), { m with handles := m.handles.modify id f })

/-- The handle with an identifier; this renews its lease. -/
def getHandle (m : HandleManager) (id : HandleId) (now : ℕ) :
    Except FSError FileHandle × HandleManager :=
  let r := m.updateEntry id fun e => { e with lastAccessed := now }
  (r.1.map HandleEntry.handle, r.2)

/-- Renew the lease of a handle. -/
def renewLease (m : HandleManager) (id : HandleId) (now : ℕ) :
    Except FSError Unit × HandleManager :=
  let r := m.updateEntry id fun e => { e with lastAccessed := now }
  (r.1.map fun _ => (), r.2)

/-- Set the offset of a handle. -/
def updateOffset (m : HandleManager) (id : HandleId) (offset : Int64) (now : ℕ) :
    Except FSError Unit × HandleManager :=
  let r := m.updateEntry id fun e =>
    { e with handle := { e.handle with offset := offset }, lastAccessed := now }
  (r.1.map fun _ => (), r.2)

/-- Whether the lease of a handle has run out; the time since a later point is zero. -/
def isExpired (m : HandleManager) (now : ℕ) (e : HandleEntry) : Bool :=
  now - e.lastAccessed ≥ m.leaseTimeout

/-- Remove the expired handles and return their number. -/
def cleanupExpired (m : HandleManager) (now : ℕ) : ℕ × HandleManager :=
  let expired := m.handles.entries.filter fun e => m.isExpired now e.2
  (expired.length,
    { m with
      handles := expired.foldl (fun hs e => hs.erase e.1) m.handles
      pathIndex := expired.foldl (fun ix e => ix.erase e.2.key) m.pathIndex })

/-! ### The two indexes -/

/-- The indexes agree: a key has an identifier in the path index exactly when the handle with
that identifier is stored and has that key. -/
def Agree (m : HandleManager) : Prop :=
  ∀ k id, m.pathIndex.get? k = some id ↔ ∃ e, m.handles.get? id = some e ∧ (e.key == k) = true

/-- Every handle is stored under its own identifier. -/
def Named (m : HandleManager) : Prop := ∀ id e, m.handles.get? id = some e → e.handle.id = id

/-- A key is live when a handle for it is stored. -/
def Live (m : HandleManager) (k : HandleKey) : Prop :=
  ∃ id e, m.handles.get? id = some e ∧ (e.key == k) = true

variable {m : HandleManager}

/-- Two stored handles with one key are one handle. -/
lemma Agree.unique (h : m.Agree) {id id' : HandleId} {e e' : HandleEntry}
    (he : m.handles.get? id = some e) (he' : m.handles.get? id' = some e')
    (hk : (e.key == e'.key) = true) : id = id' := by
  have h1 := (h e'.key id).2 ⟨e, he, hk⟩
  have h2 := (h e'.key id').2 ⟨e', he', BEq.rfl⟩
  exact Option.some.inj (h1.symm.trans h2)

/-- The lookup finds the handle of the key, if there is one. -/
lemma Agree.find_eq_some_iff (h : m.Agree) {k : HandleKey} {fh : FileHandle} :
    m.find k = some fh ↔
      ∃ id e, m.handles.get? id = some e ∧ (e.key == k) = true ∧ e.handle = fh := by
  simp only [find, Option.bind_eq_some_iff, Option.map_eq_some_iff]
  constructor
  · rintro ⟨id, hid, e, he, rfl⟩
    obtain ⟨e', he', hk⟩ := (h k id).1 hid
    obtain rfl : e = e' := Option.some.inj (he.symm.trans he')
    exact ⟨id, e, he, hk, rfl⟩
  · rintro ⟨id, e, he, hk, rfl⟩
    exact ⟨id, (h k id).2 ⟨e, he, hk⟩, e, he, rfl⟩

lemma Agree.find_eq_none_iff (h : m.Agree) {k : HandleKey} : m.find k = none ↔ ¬ m.Live k := by
  rw [← not_iff_not, not_not, ← Ne, Option.ne_none_iff_exists']
  constructor
  · rintro ⟨fh, hfh⟩
    obtain ⟨id, e, he, hk, -⟩ := h.find_eq_some_iff.1 hfh
    exact ⟨id, e, he, hk⟩
  · rintro ⟨id, e, he, hk⟩
    exact ⟨e.handle, h.find_eq_some_iff.2 ⟨id, e, he, hk, rfl⟩⟩

/-! ### Adding a handle -/

lemma get?_handles_insertHandle (key : HandleKey) (id id' : HandleId) (now : ℕ) :
    (m.insertHandle key id now).handles.get? id' =
      if id = id' then some ⟨FileHandle.new key.1 key.2 id, now, now⟩ else m.handles.get? id' := by
  simp [insertHandle, AssocMap.get?_insert]

/-- A handle with a new identifier and a key that is not live keeps the indexes in agreement. -/
lemma Agree.insertHandle (h : m.Agree) {key : HandleKey} {id : HandleId}
    (hid : m.handles.get? id = none) (hkey : ¬ m.Live key) (now : ℕ) :
    (m.insertHandle key id now).Agree := by
  intro k id'
  rw [get?_handles_insertHandle]
  simp only [HandleManager.insertHandle, AssocMap.get?_insert]
  by_cases hk : (key == k) = true
  · rw [if_pos hk, Option.some.injEq]
    constructor
    · rintro rfl
      exact ⟨⟨FileHandle.new key.1 key.2 id, now, now⟩, by rw [if_pos rfl], hk⟩
    · rintro ⟨e, he, hek⟩
      by_contra hne
      rw [if_neg hne] at he
      exact hkey ⟨id', e, he, BEq.trans hek (BEq.symm hk)⟩
  · rw [if_neg hk, h k id']
    by_cases hid' : id = id'
    · subst hid'
      rw [if_pos rfl, hid]
      constructor
      · rintro ⟨e, he, -⟩
        cases he
      · rintro ⟨e, he, hek⟩
        cases he
        exact absurd hek hk
    · rw [if_neg hid']

lemma Named.insertHandle (h : m.Named) (key : HandleKey) (id : HandleId) (now : ℕ) :
    (m.insertHandle key id now).Named := by
  intro id' e he
  rw [get?_handles_insertHandle] at he
  split at he
  · next heq =>
    cases he
    exact heq
  · exact h id' e he

/-! ### Changing a handle -/

lemma get?_handles_updateEntry (id id' : HandleId) (f : HandleEntry → HandleEntry) :
    (m.updateEntry id f).2.handles.get? id' =
      if id = id' then (m.handles.get? id').map f else m.handles.get? id' := by
  unfold updateEntry
  cases hget : m.handles.get? id with
  | none =>
    by_cases h : id = id'
    · subst h
      simp [hget]
    · simp [h]
  | some e => simp [AssocMap.get?_modify]

lemma pathIndex_updateEntry (id : HandleId) (f : HandleEntry → HandleEntry) :
    (m.updateEntry id f).2.pathIndex = m.pathIndex := by
  rw [updateEntry]
  split <;> rfl

lemma size_updateEntry (id : HandleId) (f : HandleEntry → HandleEntry) :
    (m.updateEntry id f).2.handles.size = m.handles.size ∧
      (m.updateEntry id f).2.maxHandles = m.maxHandles := by
  rw [updateEntry]
  split <;> simp

/-- The stored handles after a change that leaves identifiers and keys alone. -/
lemma exists_of_updateEntry {id id' : HandleId} {f : HandleEntry → HandleEntry} {e' : HandleEntry}
    (hf : ∀ e, (f e).key = e.key ∧ (f e).handle.id = e.handle.id)
    (h : (m.updateEntry id f).2.handles.get? id' = some e') :
    ∃ e, m.handles.get? id' = some e ∧ e'.key = e.key ∧ e'.handle.id = e.handle.id := by
  rw [get?_handles_updateEntry] at h
  split at h
  · obtain ⟨e, he, rfl⟩ := Option.map_eq_some_iff.1 h
    exact ⟨e, he, hf e⟩
  · exact ⟨e', h, rfl, rfl⟩

lemma exists_updateEntry_of {id id' : HandleId} {f : HandleEntry → HandleEntry} {e : HandleEntry}
    (hf : ∀ e, (f e).key = e.key ∧ (f e).handle.id = e.handle.id)
    (h : m.handles.get? id' = some e) :
    ∃ e', (m.updateEntry id f).2.handles.get? id' = some e' ∧ e'.key = e.key := by
  rw [get?_handles_updateEntry, h]
  split
  · exact ⟨f e, rfl, (hf e).1⟩
  · exact ⟨e, rfl, rfl⟩

lemma Agree.updateEntry (h : m.Agree) (id : HandleId) {f : HandleEntry → HandleEntry}
    (hf : ∀ e, (f e).key = e.key ∧ (f e).handle.id = e.handle.id) :
    (m.updateEntry id f).2.Agree := by
  intro k id'
  rw [pathIndex_updateEntry, h k id']
  constructor
  · rintro ⟨e, he, hk⟩
    obtain ⟨e', he', hkey⟩ := exists_updateEntry_of hf he
    exact ⟨e', he', hkey ▸ hk⟩
  · rintro ⟨e', he', hk⟩
    obtain ⟨e, he, hkey, -⟩ := exists_of_updateEntry hf he'
    exact ⟨e, he, hkey ▸ hk⟩

lemma Named.updateEntry (h : m.Named) (id : HandleId) {f : HandleEntry → HandleEntry}
    (hf : ∀ e, (f e).key = e.key ∧ (f e).handle.id = e.handle.id) :
    (m.updateEntry id f).2.Named := by
  intro id' e' he'
  obtain ⟨e, he, -, hid⟩ := exists_of_updateEntry hf he'
  exact hid.trans (h id' e he)

/-! ### Removing handles -/

/-- Closing a handle and cleaning up do the same thing: some handles are removed from the one
table and their keys from the other. -/
structure RemovesOnly (m m' : HandleManager) (R : HandleId → HandleEntry → Prop) : Prop where
  handles : ∀ id e, m'.handles.get? id = some e ↔ m.handles.get? id = some e ∧ ¬ R id e
  index : ∀ k id, m'.pathIndex.get? k = some id ↔ m.pathIndex.get? k = some id ∧
    ¬ ∃ id e, m.handles.get? id = some e ∧ R id e ∧ (e.key == k) = true
  size : m'.handles.size ≤ m.handles.size ∧ m'.maxHandles = m.maxHandles

variable {m' : HandleManager} {R : HandleId → HandleEntry → Prop}

lemma Agree.removes (h : m.Agree) (hr : RemovesOnly m m' R) : m'.Agree := by
  intro k id
  rw [hr.index, h k id]
  constructor
  · rintro ⟨⟨e, he, hk⟩, hnot⟩
    exact ⟨e, (hr.handles id e).2 ⟨he, fun hR => hnot ⟨id, e, he, hR, hk⟩⟩, hk⟩
  · rintro ⟨e, he, hk⟩
    obtain ⟨he, hR⟩ := (hr.handles id e).1 he
    refine ⟨⟨e, he, hk⟩, ?_⟩
    -- a removed handle with the key would be this one
    rintro ⟨id', e', he', hR', hk'⟩
    obtain rfl := h.unique he he' (BEq.trans hk (BEq.symm hk'))
    obtain rfl : e = e' := Option.some.inj (he.symm.trans he')
    exact hR hR'

lemma Named.removes (h : m.Named) (hr : RemovesOnly m m' R) : m'.Named :=
  fun id e he => h id e ((hr.handles id e).1 he).1

lemma removesOnly_closeHandle (id : HandleId) :
    RemovesOnly m (m.closeHandle id).2 fun id' _ => id = id' := by
  rw [closeHandle]
  cases hget : m.handles.get? id with
  | none =>
    refine ⟨fun id' e => ?_, fun k id' => ?_, by simp⟩
    · simp only [iff_self_and]
      rintro he rfl
      simp [hget] at he
    · simp only [iff_self_and]
      rintro - ⟨id'', e, he, rfl, -⟩
      simp [hget] at he
  | some e₀ =>
    refine ⟨fun id' e => ?_, fun k id' => ?_, AssocMap.size_erase_le _ _, rfl⟩
    · simp only [AssocMap.get?_erase, beq_iff_eq]
      by_cases hid : id = id' <;> simp [hid]
    · simp only [AssocMap.get?_erase]
      by_cases hk : (e₀.key == k) = true
      · rw [if_pos hk]
        simp only [reduceCtorEq, false_iff, not_and, not_not]
        exact fun _ => ⟨id, e₀, hget, rfl, hk⟩
      · rw [if_neg hk]
        simp only [iff_self_and]
        rintro - ⟨id'', e, he, rfl, hk'⟩
        rw [hget, Option.some.injEq] at he
        exact hk (he ▸ hk')

lemma removesOnly_cleanupExpired (now : ℕ) :
    RemovesOnly m (m.cleanupExpired now).2 fun _ e => m.isExpired now e = true := by
  have hmem : ∀ id e, (id, e) ∈ m.handles.entries.filter (fun e => m.isExpired now e.2) ↔
      m.handles.get? id = some e ∧ m.isExpired now e = true := by
    intro id e
    rw [List.mem_filter]
    refine and_congr_left fun _ => ⟨AssocMap.get?_of_mem, fun h => ?_⟩
    obtain ⟨id', hid', hbeq⟩ := AssocMap.mem_of_get? h
    exact beq_iff_eq.1 hbeq ▸ hid'
  simp only [cleanupExpired]
  refine ⟨fun id e => ?_, fun k id => ?_, ?_, rfl⟩
  · rw [AssocMap.get?_foldl_erase]
    split
    · next hany =>
      obtain ⟨⟨id', e'⟩, hin, hid⟩ := List.any_eq_true.1 hany
      obtain rfl : id' = id := beq_iff_eq.1 hid
      obtain ⟨he', hexp⟩ := (hmem id' e').1 hin
      simp only [reduceCtorEq, false_iff, not_and, not_not]
      intro he
      obtain rfl : e' = e := Option.some.inj (he'.symm.trans he)
      exact hexp
    · next hany =>
      simp only [iff_self_and]
      intro he hexp
      exact hany (List.any_eq_true.2 ⟨(id, e), (hmem id e).2 ⟨he, hexp⟩, by simp⟩)
  · rw [AssocMap.get?_foldl_erase]
    split
    · next hany =>
      obtain ⟨⟨id', e'⟩, hin, hk⟩ := List.any_eq_true.1 hany
      obtain ⟨he', hexp⟩ := (hmem id' e').1 hin
      simp only [reduceCtorEq, false_iff, not_and, not_not]
      exact fun _ => ⟨id', e', he', hexp, hk⟩
    · next hany =>
      simp only [iff_self_and]
      rintro - ⟨id', e', he', hexp, hk⟩
      exact hany (List.any_eq_true.2 ⟨(id', e'), (hmem id' e').2 ⟨he', hexp⟩, hk⟩)
  · exact AssocMap.size_foldl_erase_le _ _ _

end HandleManager

end Racfs.Vfs
