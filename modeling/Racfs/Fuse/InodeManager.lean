/-
# Inode numbers

`InodeManager` (`racfs-fuse/src/inode_manager.rs`) gives every path that the kernel asks for a
number, and keeps the two tables between numbers and paths and a counter.
-/
import Racfs.Core

namespace Racfs.Fuse

/-- The inode number of the root. -/
def ROOT_INODE : UInt64 := 1

/-- The two tables, and the next number. -/
structure InodeManager where
  inodeToPath : AssocMap UInt64 PathBuf
  pathToInode : AssocMap PathBuf UInt64
  nextInode : UInt64

namespace InodeManager

/-- Only the root has a number. -/
def new : InodeManager where
  inodeToPath := (∅ : AssocMap UInt64 PathBuf).insert ROOT_INODE ⟨[slash]⟩
  pathToInode := (∅ : AssocMap PathBuf UInt64).insert ⟨[slash]⟩ ROOT_INODE
  nextInode := ROOT_INODE + 1

/-- The number of a path, a new one if it has none. -/
def allocate (m : InodeManager) (path : PathBuf) : UInt64 × InodeManager :=
  match m.pathToInode.get? path with
  | some inode => (inode, m)
  | none =>
    (m.nextInode,
      { inodeToPath := m.inodeToPath.insert m.nextInode path
        pathToInode := m.pathToInode.insert path m.nextInode
        nextInode := m.nextInode + 1 })

/-- The path of a number. -/
def getPath (m : InodeManager) (inode : UInt64) : Option PathBuf := m.inodeToPath.get? inode

/-- The number of a path. -/
def getInode (m : InodeManager) (path : PathBuf) : Option UInt64 := m.pathToInode.get? path

/-- Forget a number. -/
def remove (m : InodeManager) (inode : UInt64) : InodeManager :=
  match m.inodeToPath.get? inode with
  | some path =>
    { m with
      inodeToPath := m.inodeToPath.erase inode
      pathToInode := m.pathToInode.erase path }
  | none => m

/-- Forget a path. -/
def removePath (m : InodeManager) (path : PathBuf) : InodeManager :=
  match m.pathToInode.get? path with
  | some inode =>
    { m with
      inodeToPath := m.inodeToPath.erase inode
      pathToInode := m.pathToInode.erase path }
  | none => m

/-- A path in the table after an allocation was there before or is the one that it was for. -/
lemma getPath_allocate {m : InodeManager} {path p : PathBuf} {ino : UInt64}
    (h : (m.allocate path).2.getPath ino = some p) : m.getPath ino = some p ∨ p = path := by
  rw [allocate] at h
  cases hget : m.pathToInode.get? path with
  | some inode =>
    rw [hget] at h
    exact Or.inl h
  | none =>
    rw [hget] at h
    simp only [getPath, AssocMap.get?_insert] at h
    split_ifs at h
    · exact Or.inr (Option.some.inj h).symm
    · exact Or.inl h

lemma getPath_remove {m : InodeManager} {ino ino' : UInt64} {p : PathBuf}
    (h : (m.remove ino').getPath ino = some p) : m.getPath ino = some p := by
  rw [remove] at h
  cases hget : m.inodeToPath.get? ino' with
  | none => rwa [hget] at h
  | some path =>
    rw [hget] at h
    exact AssocMap.get?_of_get?_erase h

/-- Nothing is forgotten exactly if the number has no path. -/
lemma remove_eq_self_iff {m : InodeManager} {ino : UInt64} :
    m.remove ino = m ↔ m.getPath ino = none := by
  rw [remove, getPath]
  cases hget : m.inodeToPath.get? ino with
  | none => simp
  | some path =>
    simp only [reduceCtorEq, iff_false]
    intro heq
    have herase : m.inodeToPath.erase ino = m.inodeToPath := congrArg inodeToPath heq
    rw [AssocMap.erase_eq_self_iff, hget] at herase
    cases herase

/-! ### The two tables together -/

/-- The number of a path leads back to that path, and the numbers in use are below the
counter. -/
structure Consistent (m : InodeManager) : Prop where
  path_of_inode : ∀ path ino, m.getInode path = some ino →
    ∃ q, m.getPath ino = some q ∧ (q == path) = true
  below : ∀ ino q, m.getPath ino = some q → ino < m.nextInode

lemma consistent_new : new.Consistent := by
  refine ⟨fun path ino h => ?_, fun ino q h => ?_⟩
  · rw [getInode, new, AssocMap.get?_insert] at h
    split_ifs at h with hpath
    · obtain rfl : ROOT_INODE = ino := Option.some.inj h
      exact ⟨⟨[slash]⟩, rfl, hpath⟩
    · cases h
  · rw [getPath, new, AssocMap.get?_insert] at h
    split_ifs at h with hino
    · obtain rfl : ROOT_INODE = ino := by simpa using hino
      decide
    · cases h

/-- The number of a path is in the table after an allocation. -/
lemma getInode_allocate_self (m : InodeManager) (path : PathBuf) :
    (m.allocate path).2.getInode path = some (m.allocate path).1 := by
  rw [allocate]
  cases hget : m.pathToInode.get? path with
  | some ino => exact hget
  | none => simp [getInode]

/-- A number that a path has stays its number. -/
lemma getInode_allocate {m : InodeManager} {p : PathBuf} {ino : UInt64}
    (h : m.getInode p = some ino) (path : PathBuf) :
    (m.allocate path).2.getInode p = some ino := by
  rw [allocate]
  cases hget : m.pathToInode.get? path with
  | some i => exact h
  | none =>
    simp only [getInode, AssocMap.get?_insert]
    rw [if_neg, ← h]
    · rfl
    · intro hpath
      rw [getInode, ← AssocMap.get?_congr _ hpath, hget] at h
      cases h

/-- A path with a number gets no other. -/
lemma allocate_of_getInode {m : InodeManager} {path p : PathBuf} {ino : UInt64}
    (h : m.getInode p = some ino) (hp : (p == path) = true) : (m.allocate path).1 = ino := by
  rw [getInode, AssocMap.get?_congr _ hp] at h
  rw [allocate, h]

/-- An allocation does not change the path of a number in use. -/
lemma Consistent.getPath_allocate_of {m : InodeManager} (h : m.Consistent) {ino : UInt64}
    {q : PathBuf} (hq : m.getPath ino = some q) (path : PathBuf) :
    (m.allocate path).2.getPath ino = some q := by
  rw [InodeManager.allocate]
  cases hget : m.pathToInode.get? path with
  | some i => exact hq
  | none =>
    have hne : ¬ (m.nextInode == ino) = true := by
      rw [beq_iff_eq]
      exact (UInt64.ne_of_lt (h.below ino q hq)).symm
    show (m.inodeToPath.insert m.nextInode path).get? ino = some q
    rw [AssocMap.get?_insert, if_neg hne]
    exact hq

/-- An allocation takes one number at most. -/
lemma Consistent.allocate {m : InodeManager} (h : m.Consistent)
    (hroom : m.nextInode.toNat + 1 < 2 ^ 64) (path : PathBuf) :
    (m.allocate path).2.Consistent ∧
      (m.allocate path).2.nextInode.toNat ≤ m.nextInode.toNat + 1 := by
  have hkept : ∀ {ino q}, m.getPath ino = some q → (m.allocate path).2.getPath ino = some q :=
    fun hq => h.getPath_allocate_of hq path
  rw [InodeManager.allocate] at hkept ⊢
  cases hget : m.pathToInode.get? path with
  | some ino => exact ⟨h, Nat.le_succ _⟩
  | none =>
    rw [hget] at hkept
    have hnext : (m.nextInode + 1).toNat = m.nextInode.toNat + 1 := by
      rw [UInt64.toNat_add]
      exact Nat.mod_eq_of_lt hroom
    refine ⟨⟨fun p ino hp => ?_, fun ino q hq => ?_⟩, hnext.le⟩
    · simp only [getInode, AssocMap.get?_insert] at hp
      split_ifs at hp with hpath
      · obtain rfl : m.nextInode = ino := Option.some.inj hp
        exact ⟨path, AssocMap.get?_insert_self _ _ _, hpath⟩
      · obtain ⟨q, hq, hqp⟩ := h.path_of_inode p ino hp
        exact ⟨q, hkept hq, hqp⟩
    · simp only [getPath, AssocMap.get?_insert] at hq
      show ino.toNat < (m.nextInode + 1).toNat
      rw [hnext]
      split_ifs at hq with hino
      · obtain rfl : m.nextInode = ino := by simpa using hino
        omega
      · have hlt : ino.toNat < m.nextInode.toNat := h.below ino q hq
        omega

lemma nextInode_remove (m : InodeManager) (ino : UInt64) :
    (m.remove ino).nextInode = m.nextInode := by
  rw [remove]
  cases m.inodeToPath.get? ino <;> rfl

lemma Consistent.remove {m : InodeManager} (h : m.Consistent) (ino : UInt64) :
    (m.remove ino).Consistent := by
  have hbelow : ∀ i q, (m.remove ino).getPath i = some q → i < (m.remove ino).nextInode := by
    intro i q hq
    rw [nextInode_remove]
    exact h.below i q (getPath_remove hq)
  refine ⟨fun p i hp => ?_, hbelow⟩
  rw [InodeManager.remove] at hp ⊢
  cases hget : m.inodeToPath.get? ino with
  | none =>
    rw [hget] at hp
    exact h.path_of_inode p i hp
  | some path =>
    rw [hget] at hp
    simp only [getInode, AssocMap.get?_erase] at hp
    split_ifs at hp with hpath
    obtain ⟨q, hq, hqp⟩ := h.path_of_inode p i hp
    -- a path of the number that is removed would be removed with it
    have hne : ¬ (ino == i) = true := by
      intro hi
      obtain rfl : ino = i := by simpa using hi
      rw [getPath, hget, Option.some.injEq] at hq
      exact hpath (by rw [hq]; exact hqp)
    refine ⟨q, ?_, hqp⟩
    show (m.inodeToPath.erase ino).get? i = some q
    rw [AssocMap.get?_erase, if_neg hne]
    exact hq

/-- The tables after any number of removals and at most `k` allocations. -/
inductive Moved (m : InodeManager) : ℕ → InodeManager → Prop
  | refl (k : ℕ) : Moved m k m
  | allocate {k : ℕ} {m' : InodeManager} (h : Moved m k m') (path : PathBuf) :
    Moved m (k + 1) (m'.allocate path).2
  | remove {k : ℕ} {m' : InodeManager} (h : Moved m k m') (ino : UInt64) :
    Moved m k (m'.remove ino)

lemma Moved.add {m m' : InodeManager} {k : ℕ} (h : Moved m k m') (j : ℕ) :
    Moved m (k + j) m' := by
  induction h with
  | refl k => exact .refl (k + j)
  | @allocate k m' _ path ih =>
    rw [Nat.add_right_comm]
    exact ih.allocate path
  | remove _ ino ih => exact ih.remove ino

lemma Moved.trans {m₁ m₂ m₃ : InodeManager} {j k : ℕ} (h : Moved m₁ j m₂) (h' : Moved m₂ k m₃) :
    Moved m₁ (j + k) m₃ := by
  induction h' with
  | refl k => exact h.add k
  | allocate _ path ih => exact ih.allocate path
  | remove _ ino ih => exact ih.remove ino

/-- As long as the counter does not overflow, the tables stay consistent. -/
lemma Moved.consistent {m m' : InodeManager} {k : ℕ} (h : Moved m k m') (hm : m.Consistent)
    (hroom : m.nextInode.toNat + k < 2 ^ 64) :
    m'.Consistent ∧ m'.nextInode.toNat ≤ m.nextInode.toNat + k := by
  induction h with
  | refl k => exact ⟨hm, Nat.le_add_right _ _⟩
  | allocate _ path ih =>
    obtain ⟨hcons, hle⟩ := ih (by omega)
    obtain ⟨hcons', hle'⟩ := hcons.allocate (by omega) path
    exact ⟨hcons', by omega⟩
  | remove _ ino ih =>
    obtain ⟨hcons, hle⟩ := ih hroom
    exact ⟨hcons.remove ino, by rw [nextInode_remove]; exact hle⟩

end InodeManager

end Racfs.Fuse
