/-
# The text of a query

A read of `matches.txt` takes the stored query apart (`parse_query_and_limit`): it is a JSON object
with the text and a limit, or else all of it is the text.  Before that it is trimmed.  The trimmed
text lies between two positions, that of the first byte that is no whitespace and that after the
last one, and each of them is looked for from its own end.  If there is no such byte the first one
is the length and the second one is zero, and the slice panics, except where the length is zero as
well (`parsesQuery_iff`).

The parser of JSON is a parameter.
-/
import Mathlib.Data.List.DropRight
import Racfs.VectorFs.Model

namespace Racfs.VectorFs

open StreamFs (trimEndMatches)
open VectorFS

/-- What is used of `serde_json`. -/
structure Json (J : Type*) where
  fromSlice : Bytes → Option J
  asObject : J → Option (AssocMap Bytes J)
  asStr : J → Option Bytes
  asU64 : J → Option UInt64

/-- The limit if a query says none. -/
def defaultSearchLimit : ℕ := 10

def maxSearchLimit : ℕ := 1000

/-- `u8::is_ascii_whitespace`. -/
def isAsciiWhitespace (b : UInt8) : Bool := b = 9 || b = 10 || b = 12 || b = 13 || b = 32

/-- `Iterator::rposition`. -/
def rposition {A : Type*} (p : A → Bool) (l : List A) : Option ℕ :=
  (l.reverse.findIdx? p).map fun i => l.length - 1 - i

/-- A text without the whitespace at its ends. -/
def trimWhitespace (b : Bytes) : Outcome Bytes :=
  let start := (b.findIdx? fun c => !isAsciiWhitespace c).getD b.length
  let stop := ((rposition (fun c => !isAsciiWhitespace c) b).map (· + 1)).getD 0
  if start ≤ stop ∧ stop ≤ b.length then .ok ((b.take stop).drop start) else .panic

variable {J V : Type*}

/-- The text of a query and the number of matches that it asks for. -/
def parseQueryAndLimit (json : Json J) (queryBytes : Bytes) : Outcome (Bytes × ℕ) :=
  (trimWhitespace queryBytes).map fun trimmed =>
    if trimmed = [] then ([], defaultSearchLimit)
    else
      match (json.fromSlice trimmed).bind json.asObject with
      | some obj =>
        let query := (obj.get? (ascii "query")).bind json.asStr
        let limit := (((obj.get? (ascii "limit")).bind json.asU64).map UInt64.toNat).getD
          defaultSearchLimit
        (query.getD queryBytes, max 1 (min limit maxSearchLimit))
      | none => (queryBytes, defaultSearchLimit)

/-- The query that a read of the matches takes apart. -/
def VectorFS.matchesQuery (fs : VectorFS V) (text : Bytes) : Bytes :=
  let id := trimEndMatches (ascii "/") (trimEndMatches (ascii "/matches.txt")
    (trimStartMatches (ascii "/search/") text))
  (fs.searchQueries.get? id).getD []

/-- What is expected of the parser for a query. -/
structure ParsesQuery (json : Json J) (b : Bytes) : Prop where
  trims : trimWhitespace b = .ok ((b.dropWhile isAsciiWhitespace).rdropWhile isAsciiWhitespace)
  returns : ∃ query limit, parseQueryAndLimit json b = .ok (query, limit) ∧
    1 ≤ limit ∧ limit ≤ maxSearchLimit

/-! ### Positions from both ends -/

section Positions

variable {A : Type*} {p : A → Bool}

lemma findIdx?_not_eq {l : List A} (h : ∃ a ∈ l, p a = false) :
    (l.findIdx? fun a => !p a) = some (l.takeWhile p).length := by
  induction l with
  | nil => obtain ⟨a, ha, -⟩ := h; exact absurd ha List.not_mem_nil
  | cons x l ih =>
    rw [List.findIdx?_cons]
    rcases hx : p x with - | -
    · rw [if_pos (by rfl), List.takeWhile_cons_of_neg (by simp [hx]), List.length_nil]
    · have hl : ∃ a ∈ l, p a = false := by
        obtain ⟨a, ha, hpa⟩ := h
        rcases List.mem_cons.mp ha with rfl | ha
        · exact absurd hx (by simp [hpa])
        · exact ⟨a, ha, hpa⟩
      rw [if_neg (by simp), ih hl, List.takeWhile_cons_of_pos hx, Option.map_some,
        List.length_cons]

lemma length_rdropWhile_add (l : List A) :
    (l.rdropWhile p).length + (l.reverse.takeWhile p).length = l.length := by
  rw [List.rdropWhile, List.length_reverse, Nat.add_comm, ← List.length_append,
    List.takeWhile_append_dropWhile, List.length_reverse]

lemma rposition_not_eq {l : List A} (h : ∃ a ∈ l, p a = false) :
    ((rposition (fun a => !p a) l).map (· + 1)).getD 0 = (l.rdropWhile p).length := by
  have hrev : ∃ a ∈ l.reverse, p a = false :=
    h.imp fun a ha => ⟨List.mem_reverse.mpr ha.1, ha.2⟩
  have hpos : 0 < (l.rdropWhile p).length := by
    obtain ⟨a, ha, hpa⟩ := h
    refine List.length_pos_of_ne_nil fun hnil => ?_
    exact absurd (List.rdropWhile_eq_nil_iff.mp hnil a ha) (by simp [hpa])
  have hlength := length_rdropWhile_add (p := p) l
  rw [rposition, findIdx?_not_eq hrev, Option.map_some, Option.map_some, Option.getD_some]
  omega

/-- The last position is not before the first one, and between them is what is left when both ends
are trimmed. -/
lemma drop_take_rdropWhile {l : List A} (h : ∃ a ∈ l, p a = false) :
    (l.takeWhile p).length ≤ (l.rdropWhile p).length ∧
      (l.take (l.rdropWhile p).length).drop (l.takeWhile p).length =
        (l.dropWhile p).rdropWhile p := by
  have hmid : l.rdropWhile p = l.takeWhile p ++ (l.dropWhile p).rdropWhile p := by
    conv_lhs => rw [← List.takeWhile_append_dropWhile (p := p) (l := l)]
    have hne : ∃ a ∈ (l.dropWhile p).reverse, p a = false := by
      obtain ⟨a, ha, hpa⟩ := h
      rw [← List.takeWhile_append_dropWhile (p := p) (l := l)] at ha
      rcases List.mem_append.mp ha with ha | ha
      · exact absurd (List.mem_takeWhile_imp ha) (by simp [hpa])
      · exact ⟨a, List.mem_reverse.mpr ha, hpa⟩
    have hne' : ((l.dropWhile p).reverse.dropWhile p).isEmpty = false := by
      obtain ⟨a, ha, hpa⟩ := hne
      rw [List.isEmpty_eq_false_iff]
      intro hnil
      exact absurd (List.dropWhile_eq_nil_iff.mp hnil a ha) (by simp [hpa])
    rw [List.rdropWhile, List.reverse_append, List.dropWhile_append, hne', if_neg nofun,
      List.reverse_append, List.reverse_reverse, List.rdropWhile]
  constructor
  · rw [hmid, List.length_append]
    omega
  · rw [← List.prefix_iff_eq_take.mp (List.rdropWhile_prefix p l), hmid, List.drop_left]

end Positions

/-! ### The query -/

lemma trimWhitespace_of_exists {b : Bytes} (h : ∃ c ∈ b, isAsciiWhitespace c = false) :
    trimWhitespace b =
      .ok ((b.dropWhile isAsciiWhitespace).rdropWhile isAsciiWhitespace) := by
  obtain ⟨hle, hslice⟩ := drop_take_rdropWhile h
  have hlength := length_rdropWhile_add (p := isAsciiWhitespace) b
  simp only [trimWhitespace]
  rw [findIdx?_not_eq h, Option.getD_some, rposition_not_eq h, if_pos ⟨hle, by omega⟩, hslice]

/-- Without a byte other than whitespace the slice would be from the end to the beginning. -/
lemma trimWhitespace_of_forall {b : Bytes} (hne : b ≠ [])
    (h : ∀ c ∈ b, isAsciiWhitespace c = true) : trimWhitespace b = .panic := by
  have hstart : (b.findIdx? fun c => !isAsciiWhitespace c) = none :=
    List.findIdx?_eq_none_iff.mpr fun c hc => by rw [h c hc]; rfl
  have hstop : rposition (fun c => !isAsciiWhitespace c) b = none := by
    rw [rposition, List.findIdx?_eq_none_iff.mpr, Option.map_none]
    intro c hc
    rw [h c (List.mem_reverse.mp hc)]
    rfl
  have hpos := List.length_pos_of_ne_nil hne
  simp only [trimWhitespace]
  rw [hstart, hstop, Option.map_none, Option.getD_none, Option.getD_none, if_neg (by omega)]

/-- Any content is parsed as soon as it is trimmed, with a limit within the bounds. -/
lemma parseQueryAndLimit_of_trim (json : Json J) {b trimmed : Bytes}
    (h : trimWhitespace b = .ok trimmed) :
    ∃ query limit, parseQueryAndLimit json b = .ok (query, limit) ∧
      1 ≤ limit ∧ limit ≤ maxSearchLimit := by
  rw [parseQueryAndLimit, h, Outcome.map_ok]
  split
  · exact ⟨_, _, rfl, by decide, by decide⟩
  · split
    · exact ⟨_, _, rfl, le_max_left _ _, max_le (by decide) (min_le_right _ _)⟩
    · exact ⟨_, _, rfl, by decide, by decide⟩

/-- **Queries.**  A query is trimmed and parsed, with a limit within the bounds, if and only if it
is empty or has a byte other than whitespace. -/
theorem parsesQuery_iff (json : Json J) (b : Bytes) :
    ParsesQuery json b ↔ b = [] ∨ ∃ c ∈ b, isAsciiWhitespace c = false := by
  constructor
  · intro h
    by_contra hnot
    obtain ⟨hne, hall⟩ := not_or.mp hnot
    have htrim := h.trims
    rw [trimWhitespace_of_forall hne fun c hc => by
      by_contra hc'
      exact hall ⟨c, hc, Bool.eq_false_iff.mpr hc'⟩] at htrim
    nomatch htrim
  · rintro (rfl | h)
    · have htrim : trimWhitespace [] = .ok [] := rfl
      exact ⟨htrim, parseQueryAndLimit_of_trim json htrim⟩
    · have htrim := trimWhitespace_of_exists h
      exact ⟨htrim, parseQueryAndLimit_of_trim json htrim⟩

/-! ### Storing a query -/

/-- Whatever is written to the query of a new search is what a read of its matches takes apart. -/
lemma matchesQuery_write {fs : VectorFS V} (hnew : fs.metadata.contains ⟨ascii "/search/q"⟩ = false)
    (e : Embedding V) (faults : Faults) (data : Bytes) (now : DateTime) :
    ((fs.mkdir ⟨ascii "/search/q"⟩ now).2.write e faults ⟨ascii "/search/q/query.txt"⟩ data 0 .NONE
      now).2.matchesQuery (ascii "/search/q/matches.txt") = data := by
  have hid : queryId (PathBuf.mk (ascii "/search/q/query.txt")).toStringLossy = ascii "q" := by
    decide
  have hstored : (fs.mkdir ⟨ascii "/search/q"⟩ now).2.searchQueries.get? (ascii "q") = some [] := by
    have hsearch : searchId (PathBuf.mk (ascii "/search/q")).toStringLossy = ascii "q" := by decide
    rw [mkdir, if_neg (by decide), hnew, if_neg nofun]
    simp only [hsearch]
    rw [if_pos (by decide), AssocMap.get?_insert_self]
  rw [VectorFS.write]
  simp only
  rw [if_pos (by decide), writeQuery]
  simp only [hid]
  rw [if_neg (by decide), hstored]
  simp only [updateMetadata, matchesQuery]
  have hid' : trimEndMatches (ascii "/") (trimEndMatches (ascii "/matches.txt")
      (trimStartMatches (ascii "/search/") (ascii "/search/q/matches.txt"))) = ascii "q" := by
    decide
  rw [hid', AssocMap.get?_modify, if_pos (by rfl), hstored, Option.map_some, Option.getD_some,
    queryData, if_pos (by decide)]

lemma contains_new (now : DateTime) :
    (new 1 now : VectorFS V).metadata.contains ⟨ascii "/search/q"⟩ = false := by
  rw [AssocMap.contains_eq_false_iff]
  simp only [new]
  iterate 7 rw [AssocMap.get?_insert, if_neg (by decide)]
  exact AssocMap.get?_empty _

/-- A blank, written to the query of a new search, makes the next read of its matches panic. -/
theorem parsesQuery_blank :
    (((new 1 0 : VectorFS Bytes).mkdir ⟨ascii "/search/q"⟩ 0).2.write plainEmbedding
      (fun _ => none) ⟨ascii "/search/q/query.txt"⟩ (ascii " ") 0 .NONE 0).2.matchesQuery
        (ascii "/search/q/matches.txt") = ascii " " ∧
    trimWhitespace (ascii " ") = .panic ∧
    ∀ json : Json Unit, ¬ ParsesQuery json (ascii " ") := by
  have hblank : (ascii " ").all isAsciiWhitespace = true := by decide
  have htrim : trimWhitespace (ascii " ") = .panic :=
    trimWhitespace_of_forall (List.cons_ne_nil _ _) (List.all_eq_true.1 hblank)
  refine ⟨matchesQuery_write (contains_new 0) _ _ _ _, htrim, fun json h => ?_⟩
  have htrims := h.trims
  rw [htrim] at htrims
  nomatch htrims

end Racfs.VectorFs
