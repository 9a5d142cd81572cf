/-
# Runs of the inode tables

`InodeManager` keeps the numbers of the paths and the paths of the numbers in two tables, which
`allocate`, `remove` and `remove_path` change by separate operations
(`racfs-fuse/src/inode_manager.rs`).  The two tables are inverse to each other, up to the
spelling of a path (`Inverse`), as long as the counter never comes to a number in use.

A run is a list of calls.  As long as fewer than `2 ^ 64 - 2` of them take a new number the
counter stays above all numbers that were ever in use; so a new number is really new, and a path
keeps its number until one of the two is removed (`tables_of_run`).
-/
import Racfs.Fuse.InodeManager

namespace Racfs.Fuse

namespace InodeManager

/-- The two tables are inverse to each other. -/
structure Inverse (m : InodeManager) : Prop where
  inode_of_path : ∀ ino path, m.getPath ino = some path → m.getInode path = some ino
  path_of_inode : ∀ path ino, m.getInode path = some ino →
    ∃ q, m.getPath ino = some q ∧ (q == path) = true

/-- The number is in one of the tables. -/
def Uses (m : InodeManager) (ino : UInt64) : Prop :=
  (∃ path, m.getPath ino = some path) ∨ ∃ path, m.getInode path = some ino

lemma inverse_new : new.Inverse := by
  refine ⟨fun ino path h => ?_, consistent_new.path_of_inode⟩
  rw [getPath, new, AssocMap.get?_insert] at h
  split_ifs at h with hino
  · obtain rfl : ROOT_INODE = ino := by simpa using hino
    rw [← Option.some.inj h]
    exact AssocMap.get?_insert_self _ _ _
  · cases h

/-! ### What the calls do to the tables -/

/-- The tables with the next number for a path. -/
def added (m : InodeManager) (path : PathBuf) : InodeManager where
  inodeToPath := m.inodeToPath.insert m.nextInode path
  pathToInode := m.pathToInode.insert path m.nextInode
  nextInode := m.nextInode + 1

/-- The tables without a number and a path. -/
def dropped (m : InodeManager) (ino : UInt64) (path : PathBuf) : InodeManager :=
  { m with
    inodeToPath := m.inodeToPath.erase ino
    pathToInode := m.pathToInode.erase path }

section Cases

variable {m : InodeManager} {ino i : UInt64} {path p : PathBuf}

lemma allocate_eq_of_some (h : m.getInode path = some ino) : m.allocate path = (ino, m) := by
  rw [getInode] at h
  rw [allocate, h]

lemma allocate_eq_of_none (h : m.getInode path = none) :
    m.allocate path = (m.nextInode, m.added path) := by
  rw [getInode] at h
  rw [allocate, h]
  rfl

lemma remove_eq_of_some (h : m.getPath ino = some path) : m.remove ino = m.dropped ino path := by
  rw [getPath] at h
  rw [remove, h]
  rfl

lemma remove_eq_of_none (h : m.getPath ino = none) : m.remove ino = m := by
  rw [getPath] at h
  rw [remove, h]

lemma removePath_eq_of_some (h : m.getInode path = some ino) :
    m.removePath path = m.dropped ino path := by
  rw [getInode] at h
  rw [removePath, h]
  rfl

lemma removePath_eq_of_none (h : m.getInode path = none) : m.removePath path = m := by
  rw [getInode] at h
  rw [removePath, h]

lemma getPath_added : (m.added path).getPath i =
    if (m.nextInode == i) = true then some path else m.getPath i :=
  AssocMap.get?_insert _ _ _ _

lemma getInode_added : (m.added path).getInode p =
    if (path == p) = true then some m.nextInode else m.getInode p :=
  AssocMap.get?_insert _ _ _ _

lemma getPath_dropped : (m.dropped ino path).getPath i =
    if (ino == i) = true then none else m.getPath i :=
  AssocMap.get?_erase _ _ _

lemma getInode_dropped : (m.dropped ino path).getInode p =
    if (path == p) = true then none else m.getInode p :=
  AssocMap.get?_erase _ _ _

lemma getInode_congr (h : (p == path) = true) : m.getInode p = m.getInode path :=
  AssocMap.get?_congr _ h

end Cases

namespace Inverse

variable {m : InodeManager} (h : m.Inverse)

include h

/-- A number in use has a path. -/
lemma exists_getPath_of_uses {ino : UInt64} (huse : m.Uses ino) : ∃ q, m.getPath ino = some q := by
  rcases huse with hpath | ⟨path, hpath⟩
  · exact hpath
  · obtain ⟨q, hq, -⟩ := h.path_of_inode path ino hpath
    exact ⟨q, hq⟩

/-- A new path with a number that is free. -/
lemma added {path : PathBuf} (hpath : m.getInode path = none)
    (hfree : m.getPath m.nextInode = none) : (m.added path).Inverse := by
  refine ⟨fun i q hq => ?_, fun q i hi => ?_⟩
  · rw [getPath_added] at hq
    rw [getInode_added]
    split_ifs at hq with hino
    · obtain rfl : path = q := Option.some.inj hq
      rw [if_pos (BEq.refl path), beq_iff_eq.1 hino]
    · have hi := h.inode_of_path i q hq
      rw [if_neg, hi]
      intro hpq
      rw [← getInode_congr hpq, hpath] at hi
      cases hi
  · rw [getInode_added] at hi
    split_ifs at hi with hpq
    · obtain rfl : m.nextInode = i := Option.some.inj hi
      exact ⟨path, by rw [getPath_added, if_pos (BEq.refl _)], hpq⟩
    · obtain ⟨q', hq', hqq⟩ := h.path_of_inode q i hi
      refine ⟨q', ?_, hqq⟩
      rw [getPath_added, if_neg, hq']
      intro hino
      rw [beq_iff_eq.1 hino, hq'] at hfree
      cases hfree

/-- A number and its path are dropped together. -/
lemma dropped {ino : UInt64} {path : PathBuf} (hino : m.getInode path = some ino) :
    (m.dropped ino path).Inverse := by
  refine ⟨fun i q hq => ?_, fun q i hi => ?_⟩
  · rw [getPath_dropped] at hq
    split_ifs at hq with hne
    have hi := h.inode_of_path i q hq
    rw [getInode_dropped, if_neg, hi]
    intro hpq
    rw [← getInode_congr hpq, hino] at hi
    exact hne (beq_iff_eq.2 (Option.some.inj hi))
  · rw [getInode_dropped] at hi
    split_ifs at hi with hne
    obtain ⟨q', hq', hqq⟩ := h.path_of_inode q i hi
    refine ⟨q', ?_, hqq⟩
    rw [getPath_dropped, if_neg, hq']
    intro hii
    obtain rfl : ino = i := beq_iff_eq.1 hii
    -- the path that is dropped is another spelling of `q`
    obtain ⟨p, hp, hpp⟩ := h.path_of_inode path ino hino
    obtain rfl : q' = p := Option.some.inj (hq'.symm.trans hp)
    exact hne (PartialEquivBEq.trans (BEq.symm hpp) hqq)

lemma remove (ino : UInt64) : (m.remove ino).Inverse := by
  cases hpath : m.getPath ino with
  | none => rwa [remove_eq_of_none hpath]
  | some path =>
    rw [remove_eq_of_some hpath]
    exact h.dropped (h.inode_of_path ino path hpath)

lemma removePath (path : PathBuf) : (m.removePath path).Inverse := by
  cases hino : m.getInode path with
  | none => rwa [removePath_eq_of_none hino]
  | some ino =>
    rw [removePath_eq_of_some hino]
    exact h.dropped hino

lemma allocate (hfree : m.getPath m.nextInode = none) (path : PathBuf) :
    (m.allocate path).2.Inverse := by
  cases hino : m.getInode path with
  | none =>
    rw [allocate_eq_of_none hino]
    exact h.added hino hfree
  | some ino =>
    rw [allocate_eq_of_some hino]
    exact h

end Inverse

/-! ### Runs -/

/-- A call. -/
inductive Call
  | allocate (path : PathBuf)
  | remove (ino : UInt64)
  | removePath (path : PathBuf)

/-- The tables after a call. -/
def call (m : InodeManager) : Call → InodeManager
  | .allocate path => (m.allocate path).2
  | .remove ino => m.remove ino
  | .removePath path => m.removePath path

/-- The tables after a run. -/
def afterCalls (m : InodeManager) (cs : List Call) : InodeManager := cs.foldl call m

/-- The numbers that a call takes. -/
def taken (m : InodeManager) : Call → ℕ
  | .allocate path => if (m.getInode path).isNone then 1 else 0
  | _ => 0

/-- The numbers that a run takes. -/
def allocations (m : InodeManager) : List Call → ℕ
  | [] => 0
  | c :: cs => m.taken c + (m.call c).allocations cs

/-- The call removes neither the path nor the number. -/
def Spares (path : PathBuf) (ino : UInt64) : Call → Prop
  | .allocate _ => True
  | .remove i => i ≠ ino
  | .removePath p => ¬ (p == path) = true

@[simp] lemma afterCalls_cons (m : InodeManager) (c : Call) (cs : List Call) :
    m.afterCalls (c :: cs) = (m.call c).afterCalls cs := rfl

lemma afterCalls_append (m : InodeManager) (cs cs' : List Call) :
    m.afterCalls (cs ++ cs') = (m.afterCalls cs).afterCalls cs' :=
  List.foldl_append

lemma allocations_append (m : InodeManager) (cs cs' : List Call) :
    m.allocations (cs ++ cs') = m.allocations cs + (m.afterCalls cs).allocations cs' := by
  induction cs generalizing m with
  | nil => simp [allocations, afterCalls]
  | cons c cs ih =>
    rw [List.cons_append, allocations, allocations, ih, afterCalls_cons]
    omega

/-- The tables are inverse, and the numbers in use are below the counter. -/
structure Sound (m : InodeManager) : Prop extends Inverse m where
  below : ∀ ino path, m.getPath ino = some path → ino < m.nextInode

lemma sound_new : new.Sound := ⟨inverse_new, consistent_new.below⟩

namespace Sound

variable {m : InodeManager}

lemma free (h : m.Sound) : m.getPath m.nextInode = none := by
  cases hpath : m.getPath m.nextInode with
  | none => rfl
  | some path =>
    have hlt : m.nextInode.toNat < m.nextInode.toNat := h.below _ path hpath
    omega

lemma lt_of_uses (h : m.Sound) {ino : UInt64} (huse : m.Uses ino) : ino < m.nextInode := by
  obtain ⟨q, hq⟩ := h.exists_getPath_of_uses huse
  exact h.below ino q hq

lemma consistent (h : m.Sound) : m.Consistent := ⟨h.path_of_inode, h.below⟩

/-- Dropping keeps the counter. -/
lemma dropped (h : m.Sound) {ino : UInt64} {path : PathBuf} (hino : m.getInode path = some ino) :
    (m.dropped ino path).Sound := by
  refine ⟨h.toInverse.dropped hino, fun i q hq => ?_⟩
  rw [getPath_dropped] at hq
  split_ifs at hq
  exact h.below i q hq

/-- What one call does. -/
lemma call (h : m.Sound) (c : Call) (hroom : m.nextInode.toNat + m.taken c < 2 ^ 64) :
    (m.call c).Sound ∧ (m.call c).nextInode.toNat = m.nextInode.toNat + m.taken c := by
  cases c with
  | allocate path =>
    cases hino : m.getInode path with
    | some ino =>
      have htaken : m.taken (.allocate path) = 0 := by simp [taken, hino]
      rw [InodeManager.call, allocate_eq_of_some hino, htaken]
      exact ⟨h, rfl⟩
    | none =>
      have htaken : m.taken (.allocate path) = 1 := by simp [taken, hino]
      rw [htaken] at hroom ⊢
      refine ⟨⟨h.toInverse.allocate h.free path, ?_⟩, ?_⟩
      · exact (h.consistent.allocate hroom path).1.below
      · show (m.allocate path).2.nextInode.toNat = m.nextInode.toNat + 1
        rw [allocate_eq_of_none hino]
        show (m.nextInode + 1).toNat = m.nextInode.toNat + 1
        rw [UInt64.toNat_add]
        exact Nat.mod_eq_of_lt hroom
  | remove ino =>
    refine ⟨⟨h.toInverse.remove ino, (h.consistent.remove ino).below⟩, ?_⟩
    exact congrArg UInt64.toNat (nextInode_remove m ino)
  | removePath path =>
    rw [InodeManager.call]
    cases hino : m.getInode path with
    | none =>
      rw [removePath_eq_of_none hino]
      exact ⟨h, rfl⟩
    | some ino =>
      rw [removePath_eq_of_some hino]
      exact ⟨h.dropped hino, rfl⟩

/-- A run whose numbers are all below `2 ^ 64`. -/
lemma afterCalls (h : m.Sound) (cs : List Call)
    (hroom : m.nextInode.toNat + m.allocations cs < 2 ^ 64) :
    (m.afterCalls cs).Sound ∧
      (m.afterCalls cs).nextInode.toNat = m.nextInode.toNat + m.allocations cs := by
  induction cs generalizing m with
  | nil => exact ⟨h, rfl⟩
  | cons c cs ih =>
    rw [allocations] at hroom ⊢
    obtain ⟨hcall, hnext⟩ := h.call c (by omega)
    obtain ⟨hrun, hnext'⟩ := ih hcall (by omega)
    exact ⟨hrun, by rw [afterCalls_cons, hnext']; omega⟩

/-- A call that spares a path and its number. -/
lemma getInode_call (h : m.Sound) {path : PathBuf} {ino : UInt64}
    (hino : m.getInode path = some ino) {c : Call} (hc : Spares path ino c) :
    (m.call c).getInode path = some ino := by
  -- what is dropped has another number, hence another path
  have hdropped : ∀ {i p}, m.getInode p = some i → i ≠ ino →
      (m.dropped i p).getInode path = some ino := by
    intro i p hi hne
    rw [getInode_dropped, if_neg, hino]
    intro hpath
    rw [getInode_congr hpath, hino] at hi
    exact hne (Option.some.inj hi).symm
  cases c with
  | allocate p => exact getInode_allocate hino p
  | remove i =>
    rw [InodeManager.call]
    cases hp : m.getPath i with
    | none => rwa [remove_eq_of_none hp]
    | some p =>
      rw [remove_eq_of_some hp]
      exact hdropped (h.inode_of_path i p hp) hc
  | removePath p =>
    rw [InodeManager.call]
    cases hi : m.getInode p with
    | none => rwa [removePath_eq_of_none hi]
    | some i =>
      rw [removePath_eq_of_some hi, getInode_dropped, if_neg hc, hino]

/-- A run that spares a path and its number. -/
lemma getInode_afterCalls {cs : List Call} (h : m.Sound)
    (hroom : m.nextInode.toNat + m.allocations cs < 2 ^ 64) {path : PathBuf} {ino : UInt64}
    (hino : m.getInode path = some ino) (hcs : ∀ c ∈ cs, Spares path ino c) :
    (m.afterCalls cs).getInode path = some ino := by
  induction cs generalizing m with
  | nil => exact hino
  | cons c cs ih =>
    rw [allocations] at hroom
    obtain ⟨hcall, hnext⟩ := h.call c (by omega)
    rw [afterCalls_cons]
    exact ih hcall (by omega) (h.getInode_call hino (hcs c List.mem_cons_self))
      fun c' hc' => hcs c' (List.mem_cons_of_mem _ hc')

end Sound

/-- Tables that were changed by allocations and removals. -/
lemma Moved.sound {m m' : InodeManager} {k : ℕ} (h : Moved m k m') (hm : m.Sound)
    (hroom : m.nextInode.toNat + k < 2 ^ 64) : m'.Sound := by
  induction h with
  | refl k => exact hm
  | @allocate k m' hmoved path ih =>
    have hsound := ih (by omega)
    have hle := (hmoved.consistent hm.consistent (by omega)).2
    have htaken : m'.taken (.allocate path) ≤ 1 := by
      rw [taken]
      split_ifs <;> omega
    exact (hsound.call (.allocate path) (by omega)).1
  | @remove k m' hmoved ino ih =>
    have hsound := ih hroom
    have hle := (hmoved.consistent hm.consistent hroom).2
    exact (hsound.call (.remove ino) (hle.trans_lt hroom)).1

lemma toNat_nextInode_new : new.nextInode.toNat = 2 := by decide

/-- A new number was not in use in any state of the run. -/
lemma not_uses_of_prefix {earlier cs : List Call} (hroom : new.allocations cs < 2 ^ 64 - 2)
    (hearlier : earlier <+: cs) :
    ¬ (new.afterCalls earlier).Uses (new.afterCalls cs).nextInode := by
  obtain ⟨rest, rfl⟩ := hearlier
  rw [allocations_append] at hroom
  have hnew := toNat_nextInode_new
  obtain ⟨hsound, hnext⟩ := sound_new.afterCalls earlier (by omega)
  obtain ⟨-, hnext'⟩ := hsound.afterCalls rest (by omega)
  intro huse
  have hlt : (new.afterCalls (earlier ++ rest)).nextInode.toNat <
      (new.afterCalls earlier).nextInode.toNat := hsound.lt_of_uses huse
  rw [afterCalls_append, hnext'] at hlt
  omega

/-- A path that is not removed, nor its number, gets the same number again. -/
lemma allocate_again {cs later : List Call} {path : PathBuf}
    (hroom : new.allocations (cs ++ .allocate path :: later) < 2 ^ 64 - 2)
    (hlater : ∀ c ∈ later, Spares path ((new.afterCalls cs).allocate path).1 c) :
    ((new.afterCalls (cs ++ .allocate path :: later)).allocate path).1 =
      ((new.afterCalls cs).allocate path).1 := by
  rw [allocations_append, allocations] at hroom
  have hnew := toNat_nextInode_new
  obtain ⟨hsound, hnext⟩ := sound_new.afterCalls cs (by omega)
  obtain ⟨hcall, hnext'⟩ := hsound.call (.allocate path) (by omega)
  rw [afterCalls_append, afterCalls_cons]
  refine allocate_of_getInode ?_ (BEq.refl path)
  exact hcall.getInode_afterCalls (by omega) (getInode_allocate_self _ path) hlater

end InodeManager

end Racfs.Fuse
