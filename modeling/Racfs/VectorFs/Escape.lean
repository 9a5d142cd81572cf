/-
# The predicate for a row

`get_document` and `delete_from_db` find a row by the predicate `path = '…'`, with a string literal
for the path, while `persist_document` takes the path as it is.  The quotes of a path are doubled,
as they have to be, and so the literal ends at its last quote.  Backslashes are doubled as well,
but to the reader of a literal each of them is one more character of the path.

So the predicate is true of the row of the path exactly if the path has no backslash
(`addressesRow_iff`).
-/
import Racfs.Lib.SqlLiteral
import Racfs.VectorFs.Model

namespace Racfs.VectorFs

open VectorFS

/-- The bytes `'` and `\`. -/
def quote : UInt8 := 39

def backslash : UInt8 := 92

/-- The predicate for the text of a path. -/
def predicate (text : Bytes) : Bytes := ascii "path = '" ++ escapeSqlString text ++ [quote]

variable {V : Type*}

/-- The literal for a path stands for its text, and the row that it finds is the one that is stored
for the path: it is read, and it is deleted, and no other one. -/
structure AddressesRow (V : Type*) (path : PathBuf) : Prop where
  literal : readLiteral quote ((predicate path.toStringLossy).drop 8) =
    some (path.toStringLossy, [])
  get : ∀ (fs : VectorFS V) faults call d, faults .persist = none → faults call = none →
    (fs.persistDocument faults path d).2.getDocument faults call path = .ok (some d)
  delete : ∀ (fs : VectorFS V) faults call, faults call = none → ∀ key,
    (fs.deleteFromDb faults call path).2.table.get? key =
      if key = path.toStringLossy then none else fs.table.get? key

lemma escapeSqlString_eq (s : Bytes) :
    escapeSqlString s = doubled quote (doubled backslash s) := by
  rw [doubled, doubled, List.flatMap_assoc, escapeSqlString]
  congr 1
  funext b
  by_cases hb : b = backslash
  · subst hb
    rfl
  · have hb' : ¬ b = 92 := hb
    rw [if_neg hb, if_neg hb', List.flatMap_singleton]
    rfl

lemma sqlLiteral_doubled (s : Bytes) : sqlLiteral (doubled quote s) = s := by
  induction s with
  | nil => rfl
  | cons b s ih =>
    rw [doubled_cons]
    by_cases hb : b = quote
    · subst hb
      rw [if_pos rfl]
      exact congrArg (quote :: ·) ih
    · rw [if_neg hb, List.singleton_append, sqlLiteral, ih]
      intro t hb'
      exact absurd hb' hb

/-- The row for a path is the one with all backslashes doubled. -/
lemma rowKey_eq (s : Bytes) : rowKey s = doubled backslash s := by
  rw [rowKey, escapeSqlString_eq, sqlLiteral_doubled]

lemma rowKey_eq_self_iff {s : Bytes} : rowKey s = s ↔ backslash ∉ s := by
  rw [rowKey_eq, doubled_eq_self_iff]

/-- Whatever the path, the literal ends at its last quote. -/
lemma readLiteral_predicate (s : Bytes) :
    readLiteral quote ((predicate s).drop 8) = some (rowKey s, []) := by
  have hdrop : (predicate s).drop 8 = doubled quote (doubled backslash s) ++ [quote] := by
    rw [predicate, escapeSqlString_eq, List.append_assoc]
    rfl
  rw [hdrop, rowKey_eq]
  exact readLiteral_doubled _ nofun

/-- A literal that stands for the path has no backslash in it. -/
lemma AddressesRow.backslash_not_mem {path : PathBuf} (h : AddressesRow V path) :
    backslash ∉ path.toStringLossy := by
  have hliteral := h.literal
  rw [readLiteral_predicate] at hliteral
  exact rowKey_eq_self_iff.mp (Prod.mk.inj (Option.some.inj hliteral)).1

/-- **Escaping.**  The literal for a path stands for it, and so the row that is stored for it is
read and deleted, if and only if the path has no backslash. -/
theorem addressesRow_iff (path : PathBuf) :
    AddressesRow V path ↔ backslash ∉ path.toStringLossy := by
  constructor
  · exact AddressesRow.backslash_not_mem
  · intro hmem
    have hkey := rowKey_eq_self_iff.mpr hmem
    refine ⟨by rw [readLiteral_predicate, hkey], ?_, ?_⟩
    · intro fs faults call d hpersist hcall
      simp only [getDocument, persistDocument, db, hpersist, hcall, Outcome.map_ok, hkey]
      rw [AssocMap.get?_insert_self]
    · intro fs faults call hcall key
      simp only [deleteFromDb, db, hcall, hkey]
      rw [AssocMap.get?_erase]
      exact if_congr (beq_iff_eq.trans eq_comm) rfl rfl

/-- A document with a backslash in its name is not found after it has been stored. -/
theorem addressesRow_backslash :
    readLiteral quote ((predicate (ascii "/documents/a\\b")).drop 8) =
      some (ascii "/documents/a\\\\b", []) ∧
    ((new 1 0 : VectorFS Bytes).persistDocument (fun _ => none) ⟨ascii "/documents/a\\b"⟩
      ⟨ascii "x", [], 0o644, 0, 0⟩).2.getDocument (fun _ => none) .get
        ⟨ascii "/documents/a\\b"⟩ = .ok none ∧
    ¬ AddressesRow Bytes ⟨ascii "/documents/a\\b"⟩ := by
  have htext : (PathBuf.mk (ascii "/documents/a\\b")).toStringLossy =
      ascii "/documents/a\\b" := by decide
  have hkey : rowKey (ascii "/documents/a\\b") = ascii "/documents/a\\\\b" := by decide
  have htable : (new 1 0 : VectorFS Bytes).table = ∅ := rfl
  refine ⟨by rw [readLiteral_predicate, hkey], ?_, ?_⟩
  · simp only [getDocument, persistDocument, db, Outcome.map_ok, htext, hkey, htable]
    rw [AssocMap.get?_insert, if_neg (by decide), AssocMap.get?_empty]
  · intro h
    have hmem := h.backslash_not_mem
    rw [htext] at hmem
    exact absurd hmem (by decide)

end Racfs.VectorFs
