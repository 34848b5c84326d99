import FactScore.Proofs.Expr.Comparison

/-!
# Conjunctions

`Expr.all` leaves out the structure of a conjunction that changes nothing.  What it comes to is
what its clauses come to when they are looked at one after another, up to the first that fails or
is not truthy (`Expr.truth_all`), apart from which value stands for the truth.  Nested conjunctions
and conjunctions built from parts make no difference to that (`Expr.conjoined_map_all`).
-/

namespace FactScore

/-- Whether an outcome is truthy, or its error. -/
def Outcome.truth (outcome : Outcome) : Except EvalError Bool :=
  outcome.map Value.isTruthy

theorem Outcome.truth_eq_ok_iff {outcome : Outcome} {open? : Bool} :
    Outcome.truth outcome = .ok open? ↔
      ∃ value, outcome = .ok value ∧ value.isTruthy = open? := by
  cases outcome <;> simp [truth, Except.map]

theorem Outcome.truth_eq_error_iff {outcome : Outcome} {error : EvalError} :
    Outcome.truth outcome = .error error ↔ outcome = .error error := by
  cases outcome <;> simp [truth, Except.map]

namespace Expr

/-- Whether all of some clauses are truthy, or the error of one that fails.  Nothing after the
    first clause that fails or is not truthy counts. -/
def conjoined (context : Context) (clauses : List Expr) : Except EvalError Bool :=
  Outcome.truth (Outcome.allTruthy (evalAll context clauses))

section

variable {context : Context} {clause : Expr} {clauses rest : List Expr}

@[simp] theorem conjoined_nil : conjoined context [] = .ok true := rfl

theorem conjoined_cons : conjoined context (clause :: rest) =
    (Outcome.truth (clause.eval context)).bind fun open? =>
      if open? then conjoined context rest else .ok false := by
  unfold conjoined
  rw [evalAll, Outcome.allTruthy]
  cases clause.eval context with
  | error error => rfl
  | ok value =>
    simp only [Outcome.truth, Except.map, Except.bind, bind, pure, Except.pure]
    cases value.isTruthy <;> rfl

/-- The clauses of a second list count when those of the first are truthy. -/
theorem conjoined_append : conjoined context (clauses ++ rest) =
    (conjoined context clauses).bind fun open? =>
      if open? then conjoined context rest else .ok false := by
  induction clauses with
  | nil => rfl
  | cons clause clauses ih =>
    rw [List.cons_append, conjoined_cons, conjoined_cons, ih]
    rcases Outcome.truth (clause.eval context) with error | open?
    · rfl
    · cases open? <;> rfl

theorem conjoined_singleton :
    conjoined context [clause] = Outcome.truth (clause.eval context) := by
  rw [conjoined_cons]
  rcases Outcome.truth (clause.eval context) with error | open?
  · rfl
  · cases open? <;> rfl

/-- The arguments of a conjunction come to what the conjunction comes to. -/
theorem conjoined_conjuncts (clause : Expr) :
    conjoined context clause.conjuncts = Outcome.truth (clause.eval context) := by
  unfold conjuncts
  split
  next args => rfl
  next => exact conjoined_singleton

theorem conjoined_flatMap_conjuncts :
    conjoined context (clauses.flatMap conjuncts) = conjoined context clauses := by
  induction clauses with
  | nil => rfl
  | cons clause clauses ih =>
    rw [List.flatMap_cons, conjoined_append, conjoined_conjuncts, ih, conjoined_cons]

/-- A conjunction comes to what its clauses come to one after another. -/
theorem truth_all (context : Context) (clauses : List Expr) :
    Outcome.truth ((all clauses).eval context) = conjoined context clauses := by
  rw [← conjoined_flatMap_conjuncts]
  unfold all
  split
  next hflat => rw [hflat]; rfl
  next clause hflat => rw [hflat, conjoined_singleton]
  next flat _ _ => rfl

/-- It makes no difference which clauses are conjoined first. -/
theorem conjoined_map_all (groups : List (List Expr)) :
    conjoined context (groups.map all) = conjoined context groups.flatten := by
  induction groups with
  | nil => rfl
  | cons group groups ih =>
    rw [List.map_cons, List.flatten_cons, conjoined_cons, conjoined_append, truth_all, ih]

end

/-- Leaving out structure keeps what a conjunction comes to: it fails with the same error as the
    conjunction that has all of its structure, and otherwise it is truthy just when that one is.
    So it may also be built from parts. -/
theorem truth_all_eq_truth_and (context : Context) (clauses rest : List Expr) :
    Outcome.truth ((all clauses).eval context) =
        Outcome.truth ((apply .and clauses).eval context) ∧
      Outcome.truth ((all (clauses ++ rest)).eval context) =
        Outcome.truth ((all [all clauses, all rest]).eval context) := by
  constructor
  · calc Outcome.truth ((all clauses).eval context)
      _ = conjoined context clauses := truth_all context clauses
      _ = Outcome.truth ((apply .and clauses).eval context) := rfl
  · have hparts : [clauses, rest].flatten = clauses ++ rest := by simp
    calc Outcome.truth ((all (clauses ++ rest)).eval context)
      _ = conjoined context [clauses, rest].flatten := by rw [truth_all, hparts]
      _ = conjoined context [all clauses, all rest] := (conjoined_map_all [clauses, rest]).symm
      _ = Outcome.truth ((all [all clauses, all rest]).eval context) := (truth_all context _).symm

/-- Some clauses have values, and all of these are truthy just when something holds. -/
def AllTell (context : Context) (clauses : List Expr) (holds : Prop) : Prop :=
  ∃ open?, conjoined context clauses = .ok open? ∧ (open? = true ↔ holds)

namespace AllTell

variable {context : Context} {clauses rest : List Expr} {p q : Prop}

theorem nil : AllTell context [] True :=
  ⟨true, rfl, by simp⟩

theorem singleton {clause : Expr} (h : clause.Tells context p) : AllTell context [clause] p := by
  obtain ⟨value, heval, htruthy⟩ := h
  refine ⟨value.isTruthy, ?_, htruthy⟩
  rw [conjoined_singleton, heval]
  rfl

theorem append (h : AllTell context clauses p) (hrest : AllTell context rest q) :
    AllTell context (clauses ++ rest) (p ∧ q) := by
  obtain ⟨first, hfirst, hp⟩ := h
  obtain ⟨second, hsecond, hq⟩ := hrest
  refine ⟨first && second, ?_, by rw [Bool.and_eq_true, hp, hq]⟩
  rw [conjoined_append, hfirst, hsecond]
  cases first <;> rfl

theorem congr (h : AllTell context clauses p) (hpq : p ↔ q) : AllTell context clauses q := by
  obtain ⟨open?, hconjoined, hopen⟩ := h
  exact ⟨open?, hconjoined, hopen.trans hpq⟩

end AllTell

end Expr

end FactScore
