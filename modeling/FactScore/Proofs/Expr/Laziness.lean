import FactScore.Proofs.Expr.Comparison

/-!
# The algebra of the lazy operators

Conjunction, disjunction and membership look at their arguments one after another and stop early.
They stop at the same places: the negation of a conjunction is the disjunction of the negations and
the other way round (`Outcome.negated_allTruthy`, `Outcome.negated_anyTruthy`), and membership is
the disjunction of comparisons with the needle (`Outcome.anyEqual_eq_anyTruthy`).  So these
equations hold of what fails as well, and of failures that are never reached.
-/

namespace FactScore

namespace Outcome

/-- The negation of an outcome. -/
def negated (outcome : Outcome) : Outcome := do
  return .bool !(← outcome).isTruthy

/-- Whether an outcome is a value equal to the given one. -/
def equals (needle : Value) (outcome : Outcome) : Outcome := do
  return .bool (needle == (← outcome))

section

variable {outcome : Outcome} {outcomes rest : List Outcome} {value needle : Value}
  {error : EvalError}

theorem negated_ok : negated (.ok value) = .ok (.bool !value.isTruthy) := rfl

theorem equals_ok : equals needle (.ok value) = .ok (.bool (needle == value)) := rfl

theorem negated_eq_error_iff : negated outcome = .error error ↔ outcome = .error error := by
  cases outcome <;> simp [negated, bind, Except.bind, pure, Except.pure]

theorem equals_eq_error_iff : equals needle outcome = .error error ↔ outcome = .error error := by
  cases outcome <;> simp [equals, bind, Except.bind, pure, Except.pure]

theorem allTruthy_ok_cons : allTruthy (.ok value :: rest) =
    if value.isTruthy then allTruthy rest else .ok (.bool false) := rfl

theorem anyTruthy_ok_cons : anyTruthy (.ok value :: rest) =
    if value.isTruthy then .ok (.bool true) else anyTruthy rest := rfl

theorem anyEqual_ok_cons : anyEqual needle (.ok value :: rest) =
    if value == needle then .ok (.bool true) else anyEqual needle rest := rfl

/-- A conjunction stops where the disjunction of the negations does, with the opposite. -/
theorem negated_allTruthy (outcomes : List Outcome) :
    negated (allTruthy outcomes) = anyTruthy (outcomes.map negated) := by
  induction outcomes with
  | nil => rfl
  | cons outcome rest ih =>
    cases outcome with
    | error error => rfl
    | ok value =>
      rw [List.map_cons, negated_ok, allTruthy_ok_cons, anyTruthy_ok_cons, ← ih, Value.isTruthy]
      cases value.isTruthy <;> rfl

/-- A disjunction stops where the conjunction of the negations does, with the opposite. -/
theorem negated_anyTruthy (outcomes : List Outcome) :
    negated (anyTruthy outcomes) = allTruthy (outcomes.map negated) := by
  induction outcomes with
  | nil => rfl
  | cons outcome rest ih =>
    cases outcome with
    | error error => rfl
    | ok value =>
      rw [List.map_cons, negated_ok, allTruthy_ok_cons, anyTruthy_ok_cons, ← ih, Value.isTruthy]
      cases value.isTruthy <;> rfl

/-- A search for a value stops at the first candidate that the value equals. -/
theorem anyEqual_eq_anyTruthy (needle : Value) (outcomes : List Outcome) :
    anyEqual needle outcomes = anyTruthy (outcomes.map (equals needle)) := by
  induction outcomes with
  | nil => rfl
  | cons outcome rest ih =>
    cases outcome with
    | error error => rfl
    | ok value =>
      rw [List.map_cons, equals_ok, anyEqual_ok_cons, anyTruthy_ok_cons, ih,
        Value.beq_comm value needle, Value.isTruthy]

end

/-- A value that is not missing is among candidates as it would be if each was compared with it,
    unless a single candidate is a list. -/
theorem member_eq_anyTruthy {needle : Value} {candidates : List Outcome}
    (hneedle : needle ≠ .missing) (hlist : ∀ items, candidates ≠ [.ok (.list items)]) :
    member needle candidates = anyTruthy (candidates.map (equals needle)) := by
  have hmissing : ¬ needle.isMissing = true := by
    cases needle <;> simp [Value.isMissing] at hneedle ⊢
  unfold member
  rw [← anyEqual_eq_anyTruthy, if_neg hmissing]
  split
  next items => exact absurd rfl (hlist items)
  next => rfl

end Outcome

namespace Expr

/-- The negation of an expression. -/
def negation (e : Expr) : Expr :=
  .apply .not [e]

section

variable {context : Context}

theorem eval_negation (e : Expr) :
    (negation e).eval context = Outcome.negated (e.eval context) := rfl

theorem map_eval_negation (args : List Expr) :
    (args.map negation).map (eval context) = (args.map (eval context)).map Outcome.negated := by
  rw [List.map_map, List.map_map]
  rfl

theorem map_eval_eq_lit (value : Value) (candidates : List Expr) :
    (candidates.map (eq (.lit value))).map (eval context) =
      (candidates.map (eval context)).map (Outcome.equals value) := by
  rw [List.map_map, List.map_map]
  rfl

theorem eval_isIn {needle : Expr} {value : Value} (hneedle : needle.eval context = .ok value)
    (candidates : List Expr) : (isIn needle candidates).eval context =
      Outcome.member value (candidates.map (eval context)) := by
  rw [isIn, eval_apply, List.map_cons, hneedle]
  rfl

end

/-- The lazy operators satisfy De Morgan's laws, and membership is a disjunction of comparisons,
    with the same outcome also where arguments fail.  A missing needle is nowhere. -/
theorem lazy_operators_agree (context : Context) :
    (∀ args, (negation (.apply .and args)).eval context =
      (apply .or (args.map negation)).eval context) ∧
    (∀ args, (negation (.apply .or args)).eval context =
      (apply .and (args.map negation)).eval context) ∧
    (∀ needle value candidates, needle.eval context = .ok value → value ≠ .missing →
      (∀ candidate items, candidates = [candidate] → candidate.eval context ≠ .ok (.list items)) →
      (isIn needle candidates).eval context =
        (apply .or (candidates.map (eq (.lit value)))).eval context) ∧
    ∀ needle candidates, needle.eval context = .ok .missing →
      (isIn needle candidates).eval context = .ok (.bool false) := by
  refine ⟨?_, ?_, ?_, ?_⟩
  · intro args
    rw [eval_negation, eval_apply, eval_apply, map_eval_negation]
    exact Outcome.negated_allTruthy _
  · intro args
    rw [eval_negation, eval_apply, eval_apply, map_eval_negation]
    exact Outcome.negated_anyTruthy _
  · intro needle value candidates hneedle hvalue hlist
    rw [eval_isIn hneedle, eval_apply, map_eval_eq_lit]
    apply Outcome.member_eq_anyTruthy hvalue
    intro items hitems
    obtain ⟨candidate, rfl, hcandidate⟩ := List.map_eq_singleton_iff.mp hitems
    exact hlist candidate items rfl hcandidate
  · intro needle candidates hneedle
    rw [eval_isIn hneedle]
    rfl

/-- A text is found among candidates of which one is missing and a later one would fail, and a
    missing needle is not found where every candidate fails.  The negation of a conjunction fails
    where the conjunction gets to what fails. -/
theorem lazy_operators_agree_failing :
    (isIn (text "a") [fact "nowhere", text "a", .apply .not []]).eval .empty =
        (apply .or [eq (.lit (.text "a")) (fact "nowhere"), eq (.lit (.text "a")) (text "a"),
          eq (.lit (.text "a")) (.apply .not [])]).eval .empty ∧
      (isIn (text "a") [fact "nowhere", text "a", .apply .not []]).eval .empty =
        .ok (.bool true) ∧
      (isIn (fact "nowhere") [.apply .not []]).eval .empty = .ok (.bool false) ∧
      (negation (.apply .and [text "a", .apply .not []])).eval .empty = .error (.arity .not 0) := by
  obtain ⟨hand, -, hin, hnowhere⟩ := lazy_operators_agree .empty
  have hfound := hin (text "a") (.text "a") [fact "nowhere", text "a", .apply .not []] rfl nofun
    nofun
  exact ⟨hfound, hfound.trans rfl, hnowhere _ _ rfl, (hand _).trans rfl⟩

end Expr

end FactScore
