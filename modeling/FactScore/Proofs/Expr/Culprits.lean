import FactScore.Proofs.Expr.Arithmetic
import FactScore.Proofs.Expr.Laziness
import Mathlib.Data.List.Basic

/-!
# What errors are put down to

An operator fails for one of three reasons: it has a wrong number of arguments, it is arithmetic and
refuses the type of an operand, or an argument that it looks at fails (`Op.fails_of_applyTo`).  An
error followed down an expression in this way leads to a part of it that is to blame
(`Expr.blames_of_eval_eq_error`), and so an expression without such a part never fails.
-/

namespace FactScore

variable {op : Op} {outcomes : List Outcome} {error : EvalError}

theorem bind_eq_error_iff {ε α β : Type} {first : Except ε α} {next : α → Except ε β} {error : ε} :
    (first >>= next) = .error error ↔
      first = .error error ∨ ∃ value, first = .ok value ∧ next value = .error error := by
  cases first <;> simp [bind, Except.bind]

namespace Outcome

theorem mem_of_anyTruthy_eq_error (h : anyTruthy outcomes = .error error) :
    .error error ∈ outcomes := by
  induction outcomes with
  | nil => cases h
  | cons outcome rest ih =>
    rcases bind_eq_error_iff.mp h with rfl | ⟨value, -, hrest⟩
    · exact List.mem_cons_self
    · by_cases htruthy : value.isTruthy = true
      · rw [if_pos htruthy] at hrest
        cases hrest
      · rw [if_neg htruthy] at hrest
        exact List.mem_cons_of_mem _ (ih hrest)

theorem mem_of_allTruthy_eq_error (h : allTruthy outcomes = .error error) :
    .error error ∈ outcomes := by
  have hnegated : anyTruthy (outcomes.map negated) = .error error := by
    rw [← negated_allTruthy, negated_eq_error_iff, h]
  obtain ⟨outcome, hmem, houtcome⟩ := List.mem_map.mp (mem_of_anyTruthy_eq_error hnegated)
  exact negated_eq_error_iff.mp houtcome ▸ hmem

theorem mem_of_member_eq_error {needle : Value} (h : member needle outcomes = .error error) :
    .error error ∈ outcomes := by
  have hequal : anyEqual needle outcomes = .error error := by
    unfold member at h
    split at h
    next => cases h
    next =>
      split at h
      next => cases h
      next => exact h
  rw [anyEqual_eq_anyTruthy] at hequal
  obtain ⟨outcome, hmem, houtcome⟩ := List.mem_map.mp (mem_of_anyTruthy_eq_error hequal)
  exact equals_eq_error_iff.mp houtcome ▸ hmem

end Outcome

namespace Op

/-- Why an operator fails with an error on the outcomes of its arguments. -/
inductive Fails (op : Op) (outcomes : List Outcome) : EvalError → Prop
  /-- The number of arguments is wrong. -/
  | count (hcount : op.arity.admits outcomes.length = false) :
      Fails op outcomes (.arity op outcomes.length)
  /-- Arithmetic has an operand that is neither a number nor missing. -/
  | operand {value : Value} (harithmetic : op.isArithmetic = true) (hvalue : .ok value ∈ outcomes)
      (hnumber : ∀ x, value ≠ .number x) (hmissing : value ≠ .missing) :
      Fails op outcomes (.typeMismatch op value.kindName)
  /-- An argument fails with that error. -/
  | argument {error : EvalError} (herror : .error error ∈ outcomes) : Fails op outcomes error

/-- A wrong number of arguments makes an operator fail before anything else does. -/
theorem applyTo_of_not_admits (h : op.arity.admits outcomes.length = false) :
    op.applyTo outcomes = .error (.arity op outcomes.length) := by
  cases op with
  | and | or => cases h
  | not =>
    match outcomes with
    | [] | _ :: _ :: _ => rfl
    | [_] => cases h
  | eq | ne | gt | gte | lt | lte | sub | div =>
    match outcomes with
    | [] | [_] | _ :: _ :: _ :: _ => rfl
    | [_, _] => cases h
  | ifElse =>
    match outcomes with
    | [] | [_] | [_, _] | _ :: _ :: _ :: _ :: _ => rfl
    | [_, _, _] => cases h
  | isIn | add | mul | min | max =>
    match outcomes with
    | [] => rfl
    | _ :: _ => cases h

/-- An operator that is not arithmetic passes on errors and has none of its own. -/
theorem mem_of_applyTo_eq_error (harithmetic : op.isArithmetic = false)
    (hcount : op.arity.admits outcomes.length = true) (h : op.applyTo outcomes = .error error) :
    .error error ∈ outcomes := by
  cases op with
  | and => exact Outcome.mem_of_allTruthy_eq_error h
  | or => exact Outcome.mem_of_anyTruthy_eq_error h
  | not =>
    obtain ⟨outcome, rfl⟩ := List.length_eq_one_iff.mp (beq_iff_eq.mp hcount)
    exact List.mem_singleton.mpr (Outcome.negated_eq_error_iff.mp h).symm
  | eq | ne | gt | gte | lt | lte =>
    obtain ⟨left, right, rfl⟩ := List.length_eq_two.mp (beq_iff_eq.mp hcount)
    rcases bind_eq_error_iff.mp h with rfl | ⟨a, -, hright⟩
    · exact List.mem_cons_self
    · rcases bind_eq_error_iff.mp hright with rfl | ⟨b, -, hvalue⟩
      · exact List.mem_cons_of_mem _ List.mem_cons_self
      · cases hvalue
  | isIn =>
    cases outcomes with
    | nil => cases hcount
    | cons needle candidates =>
      rcases bind_eq_error_iff.mp h with rfl | ⟨value, -, hmember⟩
      · exact List.mem_cons_self
      · exact List.mem_cons_of_mem _ (Outcome.mem_of_member_eq_error hmember)
  | ifElse =>
    obtain ⟨condition, thenOutcome, elseOutcome, rfl⟩ :=
      List.length_eq_three.mp (beq_iff_eq.mp hcount)
    rcases bind_eq_error_iff.mp h with rfl | ⟨value, -, hbranch⟩
    · exact List.mem_cons_self
    · split at hbranch
      next => simp [hbranch]
      next => simp [hbranch]
  | _ => cases harithmetic

/-- An operator fails for a reason. -/
theorem fails_of_applyTo (h : op.applyTo outcomes = .error error) : op.Fails outcomes error := by
  by_cases hcount : op.arity.admits outcomes.length = true
  · by_cases harithmetic : op.isArithmetic = true
    · rw [applyTo_eq_error_iff harithmetic hcount] at h
      obtain ⟨outcome, hmem, hrefusal⟩ := List.exists_of_findSome?_eq_some h
      rcases refusal_eq_some_iff.mp hrefusal with rfl | ⟨value, rfl, hnumber, hmissing, rfl⟩
      · exact .argument hmem
      · exact .operand harithmetic hmem hnumber hmissing
    · exact .argument (mem_of_applyTo_eq_error (Bool.eq_false_of_not_eq_true harithmetic) hcount h)
  · rw [Bool.not_eq_true] at hcount
    rw [applyTo_of_not_admits hcount] at h
    cases h
    exact .count hcount

end Op

namespace Expr

/-- One expression is part of another: it is the whole or part of an argument. -/
inductive PartOf (part : Expr) : Expr → Prop
  | whole : PartOf part part
  | within {op : Op} {args : List Expr} {arg : Expr} (harg : arg ∈ args) (hpart : PartOf part arg) :
      PartOf part (.apply op args)

/-- A part of an expression is to blame for an error. -/
inductive Blames (context : Context) (e : Expr) : EvalError → Prop
  /-- An operator has a wrong number of arguments. -/
  | count {op : Op} {args : List Expr} (hpart : (apply op args).PartOf e)
      (hcount : op.arity.admits args.length = false) : Blames context e (.arity op args.length)
  /-- Arithmetic has an argument with a value that is neither a number nor missing. -/
  | operand {op : Op} {args : List Expr} {arg : Expr} {value : Value}
      (hpart : (apply op args).PartOf e) (harithmetic : op.isArithmetic = true) (harg : arg ∈ args)
      (heval : arg.eval context = .ok value) (hnumber : ∀ x, value ≠ .number x)
      (hmissing : value ≠ .missing) : Blames context e (.typeMismatch op value.kindName)

variable {context : Context} {e arg : Expr} {args : List Expr}

theorem Blames.of_arg (h : Blames context arg error) (harg : arg ∈ args) :
    Blames context (.apply op args) error := by
  cases h with
  | count hpart hcount => exact .count (.within harg hpart) hcount
  | operand hpart harithmetic hoperand heval hnumber hmissing =>
    exact .operand (.within harg hpart) harithmetic hoperand heval hnumber hmissing

/-- Induction over an expression, with what is shown of all arguments of an operator at hand. -/
theorem inductionOnArgs {motive : Expr → Prop} (lit : ∀ value, motive (.lit value))
    (var : ∀ path, motive (.var path))
    (apply : ∀ op args, (∀ arg ∈ args, motive arg) → motive (.apply op args)) (e : Expr) :
    motive e :=
  @Expr.rec motive (fun args => ∀ arg ∈ args, motive arg) lit var apply (List.forall_mem_nil _)
    (fun _ _ hfirst hrest => List.forall_mem_cons.mpr ⟨hfirst, hrest⟩) e

/-- Every error is the fault of a part of the expression. -/
theorem blames_of_eval_eq_error (h : e.eval context = .error error) : Blames context e error := by
  induction e using inductionOnArgs generalizing error with
  | lit value => cases h
  | var path => cases h
  | apply op args ih =>
    rw [eval_apply] at h
    cases Op.fails_of_applyTo h with
    | count hcount =>
      rw [List.length_map] at hcount ⊢
      exact .count .whole hcount
    | operand harithmetic hvalue hnumber hmissing =>
      obtain ⟨arg, harg, heval⟩ := List.mem_map.mp hvalue
      exact .operand .whole harithmetic harg heval hnumber hmissing
    | argument herror =>
      obtain ⟨arg, harg, heval⟩ := List.mem_map.mp herror
      exact (ih arg harg heval).of_arg harg

/-- An error about a number of arguments names a part of the expression that has that number of
    arguments, and an error about a type names one with an argument that has a value of that type.
    Where all numbers of arguments are right and nothing is arithmetic there is no error, whatever
    the facts are. -/
theorem errors_have_culprits (e : Expr) :
    (∀ context op found, e.eval context = .error (.arity op found) →
      ∃ args, (apply op args).PartOf e ∧ found = args.length ∧
        op.arity.admits args.length = false) ∧
    (∀ context op found, e.eval context = .error (.typeMismatch op found) →
      ∃ args, (apply op args).PartOf e ∧ op.isArithmetic = true ∧ ∃ arg ∈ args, ∃ value,
        arg.eval context = .ok value ∧ found = value.kindName ∧ (∀ x, value ≠ .number x) ∧
          value ≠ .missing) ∧
    ((∀ op args, (apply op args).PartOf e →
        op.arity.admits args.length = true ∧ op.isArithmetic = false) →
      ∀ context, ∃ value, e.eval context = .ok value) := by
  refine ⟨?_, ?_, ?_⟩
  · intro context op found h
    cases blames_of_eval_eq_error h with
    | @count _ args hpart hcount => exact ⟨args, hpart, rfl, hcount⟩
  · intro context op found h
    cases blames_of_eval_eq_error h with
    | @operand _ args arg value hpart harithmetic harg heval hnumber hmissing =>
      exact ⟨args, hpart, harithmetic, arg, harg, value, heval, rfl, hnumber, hmissing⟩
  · intro hplain context
    cases heval : e.eval context with
    | ok value => exact ⟨value, rfl⟩
    | error error =>
      cases blames_of_eval_eq_error heval with
      | count hpart hcount => simp [(hplain _ _ hpart).1] at hcount
      | operand hpart harithmetic => simp [(hplain _ _ hpart).2] at harithmetic

/-- A negation without an argument is to blame behind a missing fact, and a sum of a text inside a
    conjunction; a comparison with a missing fact has nothing to blame. -/
theorem errors_have_culprits_nested :
    (∃ args, (apply .not args).PartOf (apply .or [fact "nowhere", .apply .not []]) ∧
      0 = args.length ∧ (Op.arity .not).admits args.length = false) ∧
    (∃ args, (apply .add args).PartOf (apply .and [bool true, .apply .add [text "x"]]) ∧
      Op.isArithmetic .add = true ∧ ∃ arg ∈ args, ∃ value, arg.eval .empty = .ok value ∧
        "text" = value.kindName ∧ (∀ x, value ≠ .number x) ∧ value ≠ .missing) ∧
    ∀ context, ∃ value, (eq (fact "nowhere") (number 1)).eval context = .ok value := by
  refine ⟨(errors_have_culprits _).1 .empty .not 0 rfl,
    (errors_have_culprits _).2.1 .empty .add "text" rfl, (errors_have_culprits _).2.2 ?_⟩
  intro op args hpart
  cases hpart with
  | whole => exact ⟨rfl, rfl⟩
  | within harg hpart =>
    -- neither argument is an operator
    rcases List.mem_pair.mp harg with rfl | rfl <;> cases hpart

end Expr

end FactScore
