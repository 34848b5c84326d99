import FactScore.Context
import FactScore.Proofs.Format.Expressions

/-!
# The data form of facts

Values, contexts and expressions come back from their data forms with nothing changed but the
numbers that are not finite, which are missing then (`facts_read_back`).
-/

namespace FactScore

namespace Context

/-- Whether all numbers in a context are finite. -/
def isFinite (context : Context) : Bool :=
  Value.isFiniteEntries context.root

/-- The context with the missing value in place of every number that is not finite. -/
def finite (context : Context) : Context :=
  ⟨Value.finiteEntries context.root⟩

variable {context : Context}

theorem finite_eq_self_iff : context.finite = context ↔ context.isFinite := by
  cases context with
  | mk root =>
    rw [finite, Context.mk.injEq]
    exact Value.finiteEntries_eq_self_iff

theorem decode_toData_eq_finite : decode context.toData = .ok context.finite := by
  rw [toData, decode, Value.ofDataEntries_toDataEntries_eq_finiteEntries, finite]

theorem ofData_toData_eq_finite : ofData context.toData = context.finite := by
  rw [toData, ofData, Value.ofData, Value.ofDataEntries_toDataEntries_eq_finiteEntries, finite]

end Context

/-- Reading what was written gives the same value, context or expression, with the missing value
    in place of each number that is not finite, and so gives back exactly what has no such number.
    A context is read alike where it has to be a map and where anything is allowed.  A literal is
    always written under its key, also when it is missing, and so are the arguments of an
    operator, also when there are none. -/
theorem facts_read_back :
    (∀ value : Value, Value.ofData value.toData = value.finite ∧
      (Value.ofData value.toData = value ↔ value.isFinite)) ∧
    (∀ context : Context, Context.decode context.toData = .ok context.finite ∧
      Context.ofData context.toData = context.finite ∧
      (Context.decode context.toData = .ok context ↔ context.isFinite) ∧
      (Context.ofData context.toData = context ↔ context.isFinite)) ∧
    (∀ (payload : Data.Payload) (e : Expr), Expr.ofData payload e.toData = .ok e.finite ∧
      (Expr.ofData payload e.toData = .ok e ↔ e.isFinite)) ∧
    (∀ value : Value, (Expr.lit value).toData.field? "lit" = some value.toData) ∧
    ∀ (op : Op) (args : List Expr),
      (Expr.apply op args).toData.field? "args" = some (.list (Expr.toDataAll args)) := by
  refine ⟨fun value => ?_, fun context => ?_, fun payload e => ?_, fun value => rfl,
    fun op args => ?_⟩
  · have hread := value.ofData_toData_eq_finite
    exact ⟨hread, hread ▸ Value.finite_eq_self_iff⟩
  · have hdecode := context.decode_toData_eq_finite
    have hread := context.ofData_toData_eq_finite
    refine ⟨hdecode, hread, ?_, hread ▸ Context.finite_eq_self_iff⟩
    rw [hdecode, Except.ok.injEq]
    exact Context.finite_eq_self_iff
  · have hread : Expr.ofData payload e.toData = .ok e.finite := e.ofData_toData_eq_finite
    refine ⟨hread, ?_⟩
    rw [hread, Except.ok.injEq]
    exact Expr.finite_eq_self_iff
  · rw [Expr.toData_apply]
    rfl

end FactScore
