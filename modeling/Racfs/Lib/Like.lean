/-
# Patterns with an escape character

`LIKE` as PostgreSQL has it.  In a pattern, `%` stands for any text, `_` for any character, and a
backslash takes the meaning from the character behind it, which then stands for itself.  Upper and
lower case are different.  A pattern that ends with a backslash is an error.
-/
import Racfs.Lib.Sql

namespace Racfs.Like

open Utf8
open Sql (percent underscore)

/-- The backslash. -/
def escape : Bytes := [92]

/-- What a pattern consists of. -/
inductive Part
  | any
  | one
  | char (c : Bytes)
deriving DecidableEq

/-- What a character in a pattern stands for. -/
def Part.of (c : Bytes) : Part :=
  if c = percent then any else if c = underscore then one else char c

/-- The parts of a pattern. -/
def parts : List Bytes → Option (List Part)
  | [] => some []
  | [c] => if c = escape then none else some [.of c]
  | c :: d :: cs =>
    if c = escape then (parts cs).map (.char d :: ·) else (parts (d :: cs)).map (.of c :: ·)

/-- Whether a text consists of these parts. -/
def matchParts : List Part → List Bytes → Bool
  | [], text => text.isEmpty
  | .any :: ps, text => text.tails.any (matchParts ps)
  | .one :: _, [] => false
  | .one :: ps, _ :: text => matchParts ps text
  | .char _ :: _, [] => false
  | .char c :: ps, d :: text => c == d && matchParts ps text

/-- `text LIKE pattern`; none if the pattern is an error. -/
def like (text pattern : Bytes) : Option Bool :=
  (parts (chars pattern)).map fun ps => matchParts ps (chars text)

lemma parts_cons_cons {c d : Bytes} (hc : c ≠ escape) (cs : List Bytes) :
    parts (c :: d :: cs) = (parts (d :: cs)).map (.of c :: ·) := by
  rw [parts, if_neg hc]

/-- A pattern for what is below a path is not an error, even if the path ends with a backslash. -/
lemma exists_parts_below (cs : List Bytes) :
    ∃ ps, parts (cs ++ [[slash], percent]) = some (ps ++ [.char [slash], .any]) := by
  have hbelow : parts [[slash], percent] = some [.char [slash], .any] := by decide
  induction cs using parts.induct with
  | case1 => exact ⟨[], hbelow⟩
  | case2 => exact ⟨[], by decide⟩
  | case3 c hc =>
    refine ⟨[.of c], ?_⟩
    rw [List.singleton_append, parts_cons_cons hc, hbelow]
    rfl
  | case4 d cs ih =>
    obtain ⟨ps, hps⟩ := ih
    refine ⟨.char d :: ps, ?_⟩
    rw [List.cons_append, List.cons_append, parts, if_pos rfl, hps]
    rfl
  | case5 c d cs hc ih =>
    obtain ⟨ps, hps⟩ := ih
    refine ⟨.of c :: ps, ?_⟩
    rw [List.cons_append] at hps
    rw [List.cons_append, List.cons_append, parts_cons_cons hc, hps]
    rfl

/-- Without a backslash every character is a part. -/
lemma parts_of_no_escape {cs : List Bytes} (h : escape ∉ cs) : parts cs = some (cs.map .of) := by
  induction cs using parts.induct with
  | case1 => rfl
  | case2 => exact absurd List.mem_cons_self h
  | case3 c hc => rw [parts, if_neg hc]; rfl
  | case4 d cs ih => exact absurd List.mem_cons_self h
  | case5 c d cs hc ih =>
    rw [parts_cons_cons hc, ih fun hmem => h (List.mem_cons_of_mem c hmem)]
    rfl

lemma matchParts_any_cons (ps : List Part) (text : List Bytes) :
    matchParts (.any :: ps) text = text.tails.any (matchParts ps) := by
  rw [matchParts]

lemma matchParts_any (text : List Bytes) : matchParts [.any] text = true := by
  rw [matchParts_any_cons, List.any_eq_true]
  exact ⟨[], (List.mem_tails _ _).2 List.nil_suffix, rfl⟩

/-- A pattern without a backslash takes its own text, wildcards or not. -/
lemma matchParts_self_append (cs : List Bytes) {ps : List Part} {text : List Bytes}
    (h : matchParts ps text = true) : matchParts (cs.map .of ++ ps) (cs ++ text) = true := by
  induction cs with
  | nil => exact h
  | cons c cs ih =>
    rw [List.map_cons, List.cons_append, List.cons_append, Part.of]
    split_ifs
    · rw [matchParts_any_cons, List.any_eq_true]
      exact ⟨cs ++ text, (List.mem_tails _ _).2 (List.suffix_cons _ _), ih⟩
    · exact ih
    · rw [matchParts, beq_self_eq_true, Bool.true_and]
      exact ih

/-- Characters that are no wildcards stand for themselves. -/
lemma matchParts_plain_iff {cs : List Bytes} (h : ∀ c ∈ cs, c ≠ percent ∧ c ≠ underscore)
    (text : List Bytes) : matchParts (cs.map .of ++ [.any]) text = true ↔ cs <+: text := by
  induction cs generalizing text with
  | nil => exact iff_of_true (matchParts_any text) List.nil_prefix
  | cons c cs ih =>
    obtain ⟨hpercent, hunderscore⟩ := h c List.mem_cons_self
    rw [List.map_cons, List.cons_append, Part.of, if_neg hpercent, if_neg hunderscore]
    cases text with
    | nil => simp [matchParts]
    | cons d text =>
      rw [matchParts, Bool.and_eq_true, beq_iff_eq, List.cons_prefix_cons]
      exact and_congr_right fun _ => ih (fun c hc => h c (List.mem_cons_of_mem _ hc)) text

/-! ### What is below a path -/

/-- Whether a path matches the pattern for what is below another one. -/
def below (text key : Bytes) : Bool := like key (text ++ slash :: percent) == some true

lemma chars_below (text : Bytes) : chars (text ++ slash :: percent) =
    chars text ++ [[slash], percent] := chars_append text percent (by decide)

lemma parts_below {text : Bytes} (h : escape ∉ chars text) :
    parts (chars (text ++ slash :: percent)) =
      some ((chars text).map .of ++ [.char [slash], .any]) := by
  have hno : escape ∉ chars text ++ [[slash], percent] := by
    rw [List.mem_append]
    exact not_or.2 ⟨h, by decide⟩
  rw [chars_below, parts_of_no_escape hno, List.map_append]
  rfl

/-- Without a backslash in the path, the pattern takes everything that is below it in text. -/
lemma below_append {text : Bytes} (h : escape ∉ chars text) (t : Bytes) :
    below text (text ++ slash :: t) = true := by
  rw [below, like, parts_below h, chars_append text t (by decide)]
  have hrest : matchParts [.char [slash], .any] ([slash] :: chars t) = true := by
    rw [matchParts, beq_self_eq_true, Bool.true_and]
    exact matchParts_any _
  exact beq_iff_eq.2 (congrArg some (matchParts_self_append (chars text) hrest))

/-- The separators of a pattern are parts of it, whatever is in front of them. -/
lemma count_slash_parts {cs : List Bytes} {ps : List Part} (h : parts cs = some ps) :
    ps.count (.char [slash]) = cs.count [slash] := by
  have hof (c : Bytes) : [Part.of c].count (.char [slash]) = [c].count [slash] := by
    rw [Part.of]
    by_cases hpercent : c = percent
    · rw [if_pos hpercent, hpercent]
      decide
    · by_cases hunderscore : c = underscore
      · rw [if_neg hpercent, if_pos hunderscore, hunderscore]
        decide
      · rw [if_neg hpercent, if_neg hunderscore, List.count_singleton, List.count_singleton]
        exact if_congr (by simp) rfl rfl
  induction cs using parts.induct generalizing ps with
  | case1 =>
    obtain rfl := Option.some.inj h
    rfl
  | case2 => cases h
  | case3 c hc =>
    rw [parts, if_neg hc] at h
    obtain rfl := Option.some.inj h
    exact hof c
  | case4 d cs ih =>
    rw [parts, if_pos rfl] at h
    obtain ⟨qs, hqs, rfl⟩ := Option.map_eq_some_iff.1 h
    rw [List.count_cons, ih hqs, List.count_cons_of_ne (by decide), List.count_cons]
    simp
  | case5 c d cs hc ih =>
    rw [parts_cons_cons hc] at h
    obtain ⟨qs, hqs, rfl⟩ := Option.map_eq_some_iff.1 h
    change ([Part.of c] ++ qs).count (.char [slash]) = ([c] ++ d :: cs).count [slash]
    rw [List.count_append, List.count_append, hof, ih hqs]

/-- They are in the text. -/
lemma count_slash_le_of_matchParts {ps : List Part} {text : List Bytes}
    (h : matchParts ps text = true) : ps.count (.char [slash]) ≤ text.count [slash] := by
  induction ps generalizing text with
  | nil => exact Nat.zero_le _
  | cons part ps ih =>
    cases part with
    | any =>
      rw [matchParts_any_cons, List.any_eq_true] at h
      obtain ⟨rest, hrest, hmatch⟩ := h
      rw [List.count_cons_of_ne (by simp)]
      exact (ih hmatch).trans (((List.mem_tails _ _).1 hrest).sublist.count_le _)
    | one =>
      cases text with
      | nil => simp [matchParts] at h
      | cons d rest =>
        rw [matchParts] at h
        rw [List.count_cons_of_ne (by simp)]
        exact (ih h).trans ((List.sublist_cons_self d rest).count_le _)
    | char c =>
      cases text with
      | nil => simp [matchParts] at h
      | cons d rest =>
        rw [matchParts, Bool.and_eq_true, beq_iff_eq] at h
        obtain ⟨rfl, hmatch⟩ := h
        have hrest := ih hmatch
        rw [List.count_cons, List.count_cons]
        simp only [beq_iff_eq, Part.char.injEq]
        omega

/-- A path is not below itself. -/
lemma not_below_self (text : Bytes) : below text text = false := by
  rw [Bool.eq_false_iff]
  intro h
  obtain ⟨ps, hps, hmatch⟩ := Option.map_eq_some_iff.1 (beq_iff_eq.1 h)
  have hle := count_slash_le_of_matchParts hmatch
  rw [count_slash_parts hps, chars_below, List.count_append] at hle
  have hslash : List.count [slash] [[slash], percent] = 1 := by decide
  omega

/-- No wildcards and no backslash. -/
def Plain (text : Bytes) : Prop :=
  ∀ c ∈ chars text, c ≠ percent ∧ c ≠ underscore ∧ c ≠ escape

instance (text : Bytes) : Decidable (Plain text) := by
  unfold Plain
  infer_instance

/-- A plain path has below it by the pattern what is below it in text. -/
lemma below_iff_of_plain {text : Bytes} (h : Plain text) (key : Bytes) :
    below text key = true ↔ text ++ [slash] <+: key := by
  have hescape : escape ∉ chars text := fun hmem => (h _ hmem).2.2 rfl
  have hchars : chars (text ++ [slash]) = chars text ++ [[slash]] :=
    chars_append text [] (by decide)
  constructor
  · intro hbelow
    rw [below, like, parts_below hescape] at hbelow
    have hmatch := Option.some.inj (beq_iff_eq.1 hbelow)
    have hparts : (chars text).map Part.of ++ [.char [slash], .any] =
        (chars (text ++ [slash])).map Part.of ++ [.any] := by
      rw [hchars, List.map_append, List.append_assoc]
      rfl
    rw [hparts, matchParts_plain_iff] at hmatch
    · obtain ⟨rest, hrest⟩ := hmatch
      refine ⟨rest.flatten, ?_⟩
      rw [← flatten_chars key, ← hrest, List.flatten_append, flatten_chars]
    · intro c hc
      rw [hchars, List.mem_append] at hc
      rcases hc with hc | hc
      · exact ⟨(h c hc).1, (h c hc).2.1⟩
      · rw [List.mem_singleton.1 hc]
        decide
  · rintro ⟨t, rfl⟩
    rw [List.append_assoc]
    exact below_append hescape t

end Racfs.Like
