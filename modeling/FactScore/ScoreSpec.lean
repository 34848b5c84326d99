import FactScore.Data.Record
import FactScore.Expr
import FactScore.Template

/-!
# Score specifications

How much a generated rule scores: a fixed amount, or an amount multiplied by a fact so that
partial matches score in proportion.
-/

namespace FactScore

/-- How much a generated rule scores. -/
inductive ScoreSpec where
  /-- A fixed amount. -/
  | constant (amount : Float)
  /-- An amount multiplied by the fact at a path, which is a template. -/
  | scaled (base : Float) (scaleBy : String)
  deriving Inhabited

namespace ScoreSpec

/-- The score expression, with the path filled from the bindings. -/
def toExpr (spec : ScoreSpec) (bindings : Bindings) : Expr :=
  match spec with
  | .constant amount => .number amount
  | .scaled base scaleBy => .mul [.number base, .fact (bindings.fill scaleBy)]

/-- The same specification as a penalty: the sign of its amount is negative. -/
def penalty : ScoreSpec → ScoreSpec
  | .constant amount => .constant (-amount.abs)
  | .scaled base scaleBy => .scaled (-base.abs) scaleBy

/-- The data form: a number, or a map with the amount and the path. -/
def toData : ScoreSpec → Data
  | .constant amount => Value.numberData amount
  | .scaled base scaleBy =>
    .ofFields [("base", Value.numberData base), ("scale_by", .text scaleBy)]

/-- The specification that some data is the form of. -/
def ofData : Data → Except Fault ScoreSpec
  | .map entries => do
    match entries.find? "base", entries.find? "scale_by" with
    | some base, some scaleBy => return .scaled (← base.asNumber) (← scaleBy.asText)
    | _, _ => .error .malformed
  | data => do return .constant (← data.asNumber)

end ScoreSpec

end FactScore
