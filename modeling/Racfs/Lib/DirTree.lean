/-
# Trees of directories

What a machine keeps in files and directories: a tree in which a directory has named entries.  A
path is the list of the names on the way, and what is at a path may be missing (`at?`).  Every
access goes along a path and then does something with what is at its end (`visit`); on the way it
can come to a missing entry, or to a file (`WalkError`).

An access below a place is an access of that place (`visit_append`).  So it sees nothing else:
what it returns and what it leaves at the place depend on what was there (`fst_visit`,
`at?_visit`), and everything to the side of the place stays as it is (`at?_visit_of_beside`).
-/
import Mathlib.Data.List.Infix
import Mathlib.Tactic.Common

namespace Racfs

/-- A file, or a directory with its entries. -/
inductive DirTree (N A D : Type*)
  | file (a : A)
  | dir (d : D) (entries : List (N × DirTree N A D))

/-- What stops an access on its way. -/
inductive WalkError
  | missing
  | notADirectory

namespace DirTree

/-! ### Programs -/

section Programs

universe v

variable {N A D E F : Type*} {B C : Type v}

/-- A program on a tree that can fail. -/
def Action (N A D E B : Type*) := Option (DirTree N A D) → Except E B × Option (DirTree N A D)

instance : Monad (Action N A D E) where
  pure b t := (.ok b, t)
  bind x f t :=
    match x t with
    | (.ok a, t) => f a t
    | (.error e, t) => (.error e, t)

/-- A failure. -/
def Action.fail (e : E) : Action N A D E B := fun t => (.error e, t)

/-- Another error. -/
def Action.mapError (g : E → F) (x : Action N A D E B) : Action N A D F B := fun t =>
  ((x t).1.mapError g, (x t).2)

lemma Action.bind_of_ok {x : Action N A D E B} {g : B → Action N A D E C}
    {t t' : Option (DirTree N A D)} {b : B} (h : x t = (.ok b, t')) : (x >>= g) t = g b t' := by
  show (match x t with
    | (.ok b, t) => g b t
    | (.error e, t) => (.error e, t)) = g b t'
  rw [h]

lemma Action.bind_of_error {x : Action N A D E B} {g : B → Action N A D E C}
    {t t' : Option (DirTree N A D)} {e : E} (h : x t = (.error e, t')) :
    (x >>= g) t = (.error e, t') := by
  show (match x t with
    | (.ok b, t) => g b t
    | (.error e, t) => (.error e, t)) = (.error e, t')
  rw [h]

end Programs

variable {N A D B : Type*} [DecidableEq N]

/-! ### Entries of a directory -/

/-- The first entry of a name. -/
def entry (n : N) : List (N × DirTree N A D) → Option (DirTree N A D)
  | [] => none
  | (m, t) :: es => if m = n then some t else entry n es

/-- Take all entries of a name out. -/
def eraseEntry (n : N) (es : List (N × DirTree N A D)) : List (N × DirTree N A D) :=
  es.filter fun e => e.1 ≠ n

/-- Replace the entry of a name, or add it. -/
def putEntry (n : N) (t : DirTree N A D) : List (N × DirTree N A D) → List (N × DirTree N A D)
  | [] => [(n, t)]
  | (m, u) :: es => if m = n then (n, t) :: es else (m, u) :: putEntry n t es

/-- Make the entry of a name what is given. -/
def setEntry (n : N) (o : Option (DirTree N A D)) (es : List (N × DirTree N A D)) :
    List (N × DirTree N A D) :=
  match o with
  | some t => putEntry n t es
  | none => eraseEntry n es

lemma entry_putEntry (m n : N) (t : DirTree N A D) (es : List (N × DirTree N A D)) :
    entry m (putEntry n t es) = if n = m then some t else entry m es := by
  induction es with
  | nil => rfl
  | cons e es ih =>
    obtain ⟨k, u⟩ := e
    rw [putEntry]
    split_ifs with hk hm hm
    · rw [entry, if_pos hm]
    · rw [entry, if_neg hm, entry, if_neg fun heq => hm (hk.symm.trans heq)]
    · rw [entry, if_neg fun heq => hk (heq.trans hm.symm), ih, if_pos hm]
    · rw [entry, entry, ih, if_neg hm]

/-- An entry that is there is put there again. -/
lemma putEntry_entry {n : N} {t : DirTree N A D} {es : List (N × DirTree N A D)}
    (h : entry n es = some t) : putEntry n t es = es := by
  induction es with
  | nil => cases h
  | cons e es ih =>
    obtain ⟨k, u⟩ := e
    rw [entry] at h
    rw [putEntry]
    split_ifs at h ⊢ with hk
    · rw [← hk, ← Option.some.inj h]
    · rw [ih h]

lemma entry_eraseEntry (m n : N) (es : List (N × DirTree N A D)) :
    entry m (eraseEntry n es) = if n = m then none else entry m es := by
  induction es with
  | nil => exact (ite_self none).symm
  | cons e es ih =>
    obtain ⟨k, u⟩ := e
    rw [eraseEntry, List.filter_cons]
    split_ifs with hk hm hm
    · rw [entry, if_neg fun heq => of_decide_eq_true hk (heq.trans hm.symm), ← eraseEntry, ih,
        if_pos hm]
    · rw [entry, entry, ← eraseEntry, ih, if_neg hm]
    · rw [← eraseEntry, ih, if_pos hm]
    · have hkn : k = n := by simpa using hk
      rw [← eraseEntry, ih, if_neg hm, entry, if_neg fun heq => hm (hkn.symm.trans heq)]

@[simp] lemma entry_setEntry (n : N) (o : Option (DirTree N A D))
    (es : List (N × DirTree N A D)) : entry n (setEntry n o es) = o := by
  cases o with
  | none => exact (entry_eraseEntry n n es).trans (if_pos rfl)
  | some t => exact (entry_putEntry n n t es).trans (if_pos rfl)

lemma entry_setEntry_of_ne {m n : N} (h : m ≠ n) (o : Option (DirTree N A D))
    (es : List (N × DirTree N A D)) : entry m (setEntry n o es) = entry m es := by
  cases o with
  | none => exact (entry_eraseEntry m n es).trans (if_neg (Ne.symm h))
  | some t => exact (entry_putEntry m n t es).trans (if_neg (Ne.symm h))

/-! ### Paths -/

/-- What is at a path. -/
def at? : List N → Option (DirTree N A D) → Option (DirTree N A D)
  | [], t => t
  | n :: p, some (dir _ es) => at? p (entry n es)
  | _ :: _, _ => none

/-- Go along a path and do something with what is at its end. -/
def visit (stop : WalkError → B) :
    List N → (Option (DirTree N A D) → B × Option (DirTree N A D)) →
      Option (DirTree N A D) → B × Option (DirTree N A D)
  | [], f, t => f t
  | n :: p, f, some (dir d es) =>
    let r := visit stop p f (entry n es)
    (r.1, some (dir d (setEntry n r.2 es)))
  | _ :: _, _, some (file a) => (stop .notADirectory, some (file a))
  | _ :: _, _, none => (stop .missing, none)

/-- All on the way to a path, but for its end, are directories. -/
def Reaches : List N → Option (DirTree N A D) → Prop
  | [], _ => True
  | n :: p, some (dir _ es) => Reaches p (entry n es)
  | _ :: _, _ => False

/-- Make a directory and all that are missing on the way to it. -/
def makeDirs (stop : WalkError → B) (exists? done : B) (d : D) :
    List N → Option (DirTree N A D) → B × Option (DirTree N A D)
  | [], none => (done, some (dir d []))
  | [], some (dir d' es) => (done, some (dir d' es))
  | [], some (file a) => (exists?, some (file a))
  | n :: p, none =>
    let r := makeDirs stop exists? done d p none
    (r.1, some (dir d (setEntry n r.2 [])))
  | n :: p, some (dir d' es) =>
    let r := makeDirs stop exists? done d p (entry n es)
    (r.1, some (dir d' (setEntry n r.2 es)))
  | _ :: _, some (file a) => (stop .notADirectory, some (file a))

variable {stop : WalkError → B} {p q : List N} {t : Option (DirTree N A D)}
  {f : Option (DirTree N A D) → B × Option (DirTree N A D)}

lemma at?_append (p q : List N) (t : Option (DirTree N A D)) :
    at? (p ++ q) t = at? q (at? p t) := by
  induction p generalizing t with
  | nil => rfl
  | cons n p ih =>
    rcases t with _ | a | ⟨d, es⟩
    · cases q <;> rfl
    · cases q <;> rfl
    · exact ih _

/-- An access below a place is an access of that place. -/
theorem visit_append (p q : List N) (t : Option (DirTree N A D)) :
    visit stop (p ++ q) f t = visit stop p (visit stop q f) t := by
  induction p generalizing t with
  | nil => rfl
  | cons n p ih =>
    rcases t with _ | a | ⟨d, es⟩
    · rfl
    · rfl
    · rw [List.cons_append, visit, visit, ih]

lemma fst_visit (h : Reaches p t) : (visit stop p f t).1 = (f (at? p t)).1 := by
  induction p generalizing t with
  | nil => rfl
  | cons n p ih =>
    rcases t with _ | a | ⟨d, es⟩
    · cases h
    · cases h
    · exact ih h

lemma at?_visit (h : Reaches p t) : at? p (visit stop p f t).2 = (f (at? p t)).2 := by
  induction p generalizing t with
  | nil => rfl
  | cons n p ih =>
    rcases t with _ | a | ⟨d, es⟩
    · cases h
    · cases h
    · rw [visit, at?, entry_setEntry]
      exact ih h

lemma Reaches.visit (h : Reaches p t) : Reaches p (visit stop p f t).2 := by
  induction p generalizing t with
  | nil => trivial
  | cons n p ih =>
    rcases t with _ | a | ⟨d, es⟩
    · cases h
    · cases h
    · rw [DirTree.visit, Reaches, entry_setEntry]
      exact ih h

/-- What is to the side of the path stays as it is. -/
lemma at?_visit_of_beside (hpq : ¬ p <+: q) (hqp : ¬ q <+: p) :
    at? q (visit stop p f t).2 = at? q t := by
  induction p generalizing q t with
  | nil => exact absurd List.nil_prefix hpq
  | cons n p ih =>
    cases q with
    | nil => exact absurd List.nil_prefix hqp
    | cons m q =>
      rcases t with _ | a | ⟨d, es⟩
      · rfl
      · rfl
      · rw [DirTree.visit, at?, at?]
        by_cases hmn : m = n
        · subst hmn
          rw [entry_setEntry]
          refine ih (fun h => hpq ?_) fun h => hqp ?_
          · exact List.cons_prefix_cons.2 ⟨rfl, h⟩
          · exact List.cons_prefix_cons.2 ⟨rfl, h⟩
        · rw [entry_setEntry_of_ne hmn]

lemma makeDirs_append {exists? done : B} {d : D} (h : Reaches p t) (q : List N) :
    makeDirs stop exists? done d (p ++ q) t =
      visit stop p (makeDirs stop exists? done d q) t := by
  induction p generalizing t with
  | nil => rfl
  | cons n p ih =>
    rcases t with _ | a | ⟨d', es⟩
    · cases h
    · cases h
    · rw [List.cons_append, makeDirs, DirTree.visit, ih h]

/-- The directories on the way to a place are there already. -/
lemma makeDirs_of_above {exists? done : B} {d : D} (h : Reaches p t) (hqp : q <+: p)
    (hne : q ≠ p) : makeDirs stop exists? done d q t = (done, t) := by
  induction q generalizing p t with
  | nil =>
    cases p with
    | nil => exact absurd rfl hne
    | cons n p =>
      rcases t with _ | a | ⟨d', es⟩
      · cases h
      · cases h
      · rfl
  | cons n q ih =>
    obtain ⟨r, rfl⟩ := hqp
    rcases t with _ | a | ⟨d', es⟩
    · cases h
    · cases h
    · have hreach : Reaches (q ++ r) (entry n es) := h
      have hrest := ih hreach (List.prefix_append q r) fun heq => hne (congrArg (List.cons n) heq)
      rw [makeDirs, hrest]
      have hsome : ∃ u, entry n es = some u := by
        cases hentry : entry n es with
        | some u => exact ⟨u, rfl⟩
        | none =>
          rw [hentry] at hreach
          cases hqr : q ++ r with
          | nil => exact absurd hqr fun hnil => hne (by rw [(List.append_eq_nil_iff.1 hnil).1,
              (List.append_eq_nil_iff.1 hnil).2, List.append_nil])
          | cons m s =>
            rw [hqr] at hreach
            cases hreach
      obtain ⟨u, hu⟩ := hsome
      rw [hu, setEntry, putEntry_entry hu]

/-! ### Two trees with the same place -/

/-- Both trees have the place, and the same is there. -/
structure Agree (p : List N) (t u : Option (DirTree N A D)) : Prop where
  left : Reaches p t
  right : Reaches p u
  eq : at? p t = at? p u

/-- Nothing has changed but what is at a place and below. -/
structure Confined (p : List N) (t t' : Option (DirTree N A D)) : Prop where
  reaches : Reaches p t → Reaches p t'
  beside : ∀ q, ¬ p <+: q → ¬ q <+: p → at? q t' = at? q t

lemma Confined.refl (p : List N) (t : Option (DirTree N A D)) : Confined p t t :=
  ⟨id, fun _ _ _ => rfl⟩

lemma Confined.trans {t₁ t₂ t₃ : Option (DirTree N A D)} (h : Confined p t₁ t₂)
    (h' : Confined p t₂ t₃) : Confined p t₁ t₃ :=
  ⟨fun hr => h'.reaches (h.reaches hr), fun q hpq hqp =>
    (h'.beside q hpq hqp).trans (h.beside q hpq hqp)⟩

lemma confined_visit_self (stop : WalkError → B) (p : List N)
    (f : Option (DirTree N A D) → B × Option (DirTree N A D)) (t : Option (DirTree N A D)) :
    Confined p t (visit stop p f t).2 :=
  ⟨fun h => h.visit, fun _ hpr hrp => at?_visit_of_beside hpr hrp⟩

lemma confined_visit (stop : WalkError → B) (p q : List N)
    (f : Option (DirTree N A D) → B × Option (DirTree N A D)) (t : Option (DirTree N A D)) :
    Confined p t (visit stop (p ++ q) f t).2 := by
  rw [visit_append]
  exact confined_visit_self stop p _ t

lemma Agree.visit_self {u : Option (DirTree N A D)} (h : Agree p t u) :
    (DirTree.visit stop p f t).1 = (DirTree.visit stop p f u).1 ∧
      Agree p (DirTree.visit stop p f t).2 (DirTree.visit stop p f u).2 := by
  rw [fst_visit h.left, fst_visit h.right, h.eq]
  refine ⟨rfl, h.left.visit, h.right.visit, ?_⟩
  rw [at?_visit h.left, at?_visit h.right, h.eq]

/-- An access below the place, of both trees. -/
lemma Agree.visit {u : Option (DirTree N A D)} (h : Agree p t u) (q : List N) :
    (DirTree.visit stop (p ++ q) f t).1 = (DirTree.visit stop (p ++ q) f u).1 ∧
      Agree p (DirTree.visit stop (p ++ q) f t).2 (DirTree.visit stop (p ++ q) f u).2 := by
  rw [visit_append, visit_append]
  exact h.visit_self

/-! ### Programs that stay at a place -/

/-- What a program returns and leaves at the place depends on what is there, and nothing else is
changed. -/
structure Stays (p : List N) (c : Option (DirTree N A D) → B × Option (DirTree N A D)) : Prop where
  agree : ∀ t u, Agree p t u → (c t).1 = (c u).1 ∧ Agree p (c t).2 (c u).2
  confined : ∀ t, Reaches p t → Confined p t (c t).2

lemma Stays.const (p : List N) (b : B) :
    Stays p fun t : Option (DirTree N A D) => (b, t) :=
  ⟨fun _ _ h => ⟨rfl, h⟩, fun t _ => .refl p t⟩

/-- Everything is below the top. -/
lemma Stays.nil (c : Option (DirTree N A D) → B × Option (DirTree N A D)) : Stays [] c := by
  constructor
  · intro t u h
    obtain rfl : t = u := h.eq
    exact ⟨rfl, trivial, trivial, rfl⟩
  · exact fun t _ => ⟨fun _ => trivial, fun q hq _ => absurd List.nil_prefix hq⟩

lemma Stays.visit (p q : List N) : Stays p (DirTree.visit stop (p ++ q) f) :=
  ⟨fun _ _ h => h.visit q, fun t _ => confined_visit stop p q f t⟩

/-- Making directories, up to a place or from there on. -/
lemma Stays.makeDirs {exists? done : B} {d : D} (hq : p <+: q ∨ q <+: p) :
    Stays p (makeDirs (N := N) (A := A) stop exists? done d q) := by
  rcases hq with ⟨r, rfl⟩ | hqp
  · constructor
    · intro t u h
      rw [makeDirs_append h.left, makeDirs_append h.right]
      exact h.visit_self
    · intro t h
      rw [makeDirs_append h]
      exact confined_visit_self stop p _ t
  · rcases eq_or_ne q p with rfl | hne
    · constructor
      · intro t u h
        rw [← List.append_nil q, makeDirs_append h.left, makeDirs_append h.right, List.append_nil]
        exact h.visit_self
      · intro t h
        rw [← List.append_nil q, makeDirs_append h, List.append_nil]
        exact confined_visit_self stop q _ t
    · constructor
      · intro t u h
        rw [makeDirs_of_above h.left hqp hne, makeDirs_of_above h.right hqp hne]
        exact ⟨rfl, h⟩
      · intro t h
        rw [makeDirs_of_above h hqp hne]
        exact .refl p t

section Action

universe v

variable {E F : Type*} {B C : Type v}

lemma Stays.pure (p : List N) (b : B) : Stays p (Pure.pure b : Action N A D E B) := .const p _

lemma Stays.fail (p : List N) (e : E) : Stays p (Action.fail e : Action N A D E B) := .const p _

lemma Stays.mapError {x : Action N A D E B} (h : Stays p x) (g : E → F) :
    Stays p (x.mapError g) :=
  ⟨fun t u htu => ⟨congrArg (Except.mapError g) (h.agree t u htu).1, (h.agree t u htu).2⟩,
    h.confined⟩

lemma Stays.bind {x : Action N A D E B} {g : B → Action N A D E C} (hx : Stays p x)
    (hg : ∀ b, Stays p (g b)) : Stays p (x >>= g) := by
  constructor
  · intro t u h
    obtain ⟨heq, hagree⟩ := hx.agree t u h
    rcases hxt : x t with ⟨e | b, t'⟩
    all_goals
      rcases hxu : x u with ⟨s, u'⟩
      rw [hxt, hxu] at heq hagree
      subst heq
    · rw [Action.bind_of_error hxt, Action.bind_of_error hxu]
      exact ⟨rfl, hagree⟩
    · rw [Action.bind_of_ok hxt, Action.bind_of_ok hxu]
      exact (hg b).agree t' u' hagree
  · intro t h
    have hconfined := hx.confined t h
    rcases hxt : x t with ⟨e | b, t'⟩
    all_goals rw [hxt] at hconfined
    · rw [Action.bind_of_error hxt]
      exact hconfined
    · rw [Action.bind_of_ok hxt]
      exact hconfined.trans ((hg b).confined t' (hconfined.reaches h))

end Action

end DirTree

end Racfs
