import FactScore.Chart
import FactScore.Data.Record
import FactScore.Expr
import FactScore.Template

/-!
# Quality gates

Conditions on the quality facts of a pattern.  Each condition that is given adds one clause to the
gate of a rule, and one that is not given adds nothing.
-/

namespace FactScore

/-- Conditions on quality facts. -/
structure QualityGate where
  /-- The path that the quality facts are under, as a template. -/
  path : Option String := none
  minConfidence : Option Float := none
  minClarity : Option Float := none
  minIntegrity : Option Float := none
  /-- The fact `broken` has to be there and false. -/
  forbidBroken : Bool := false
  /-- The fact `mixed` has to be there and false. -/
  forbidMixed : Bool := false
  requiredGrade : Option Grade := none
  deriving Inhabited

namespace QualityGate

/-- Where the quality facts are unless a gate says otherwise. -/
def defaultPath : String := "month.gyeok.quality"

/-- The path that the quality facts are under. -/
def base (gate : QualityGate) (bindings : Bindings) : FactPath :=
  match gate.path with
  | some path => ⟨bindings.fill path⟩
  | none => ⟨defaultPath⟩

/-- The clause that a fact is at least as great as a minimum. -/
def minimumClause (base : FactPath) (name : String) (minimum : Option Float) : List Expr :=
  (minimum.map fun x => Expr.gte (.var (base.join name)) (.number x)).toList

/-- The clause that a fact is there and false. -/
def forbidClause (base : FactPath) (name : String) (forbidden : Bool) : List Expr :=
  if forbidden then [.eq (.var (base.join name)) (.bool false)] else []

/-- The clause that the grade is the one asked for. -/
def gradeClause (base : FactPath) (grade : Option Grade) : List Expr :=
  (grade.map fun g => Expr.eq (.var (base.join "grade")) (.text (Taxonomy.name g))).toList

/-- The clauses of a gate, in a fixed order. -/
def clauses (gate : QualityGate) (bindings : Bindings) : List Expr :=
  let base := gate.base bindings
  minimumClause base "confidence" gate.minConfidence ++
  minimumClause base "clarity" gate.minClarity ++
  minimumClause base "integrity" gate.minIntegrity ++
  forbidClause base "broken" gate.forbidBroken ++
  forbidClause base "mixed" gate.forbidMixed ++
  gradeClause base gate.requiredGrade

/-- Whether a gate has no condition. -/
def isEmpty (gate : QualityGate) : Bool :=
  (gate.clauses .empty).isEmpty

/-- The data form of a gate. -/
def toData (gate : QualityGate) : Data :=
  .ofFields
    (Data.member "path" (gate.path.map .text) ++
      Data.member "min_confidence" (gate.minConfidence.map Value.numberData) ++
      Data.member "min_clarity" (gate.minClarity.map Value.numberData) ++
      Data.member "min_integrity" (gate.minIntegrity.map Value.numberData) ++
      [("forbid_broken", .bool gate.forbidBroken), ("forbid_mixed", .bool gate.forbidMixed)] ++
      Data.member "required_grade" (gate.requiredGrade.map fun g => .text (Taxonomy.name g)))

open Data in
/-- The gate that some data is the form of. -/
def ofData (payload : Payload) (data : Data) : Except Fault QualityGate := do
  let path : RecordField (Option String) := ⟨"path", orNull asText⟩
  let confidence : RecordField (Option Float) := ⟨"min_confidence", orNull asNumber⟩
  let clarity : RecordField (Option Float) := ⟨"min_clarity", orNull asNumber⟩
  let integrity : RecordField (Option Float) := ⟨"min_integrity", orNull asNumber⟩
  let broken : RecordField Bool := ⟨"forbid_broken", asBool⟩
  let mixed : RecordField Bool := ⟨"forbid_mixed", asBool⟩
  let grade : RecordField (Option Grade) := ⟨"required_grade", orNull (Taxonomy.ofData payload)⟩
  let fields ← data.record [path.check, confidence.check, clarity.check, integrity.check,
    broken.check, mixed.check, grade.check]
  return {
    path := ← fields.withDefault path none
    minConfidence := ← fields.withDefault confidence none
    minClarity := ← fields.withDefault clarity none
    minIntegrity := ← fields.withDefault integrity none
    forbidBroken := ← fields.withDefault broken false
    forbidMixed := ← fields.withDefault mixed false
    requiredGrade := ← fields.withDefault grade none }

end QualityGate

end FactScore
