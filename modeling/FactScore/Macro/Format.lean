import FactScore.Macro.Record

/-!
# The written form of macro records

As data, a record is a map with its kind under `kind` beside its fields.  The kind is looked at
first, so that an unknown kind is reported as such.
-/

namespace FactScore

open Data

/-- Why some data is no macro record. -/
inductive MacroFault where
  /-- There is no kind. -/
  | kindMissing
  /-- The kind is not a text; its compact JSON text is given. -/
  | kindNotText (kind : String)
  /-- No kind has this name. -/
  | unknownKind (kind : String)
  /-- The fields do not fit the kind. -/
  | fields (kind : String) (fault : Fault)
  deriving DecidableEq, Repr

/-- The wording of a fault, for the faults that have one. -/
def MacroFault.message : MacroFault → Option String
  | .kindMissing => some "missing 'kind'"
  | .kindNotText _ => some "'kind' must be a string"
  | .unknownKind kind => some ("unknown macro kind '" ++ kind ++ "'")
  | .fields _ fault => fault.message

/-- The fields that families of rules share. -/
structure FamilyFields where
  idStem : RecordField String := ⟨"id_prefix", asText⟩
  category : RecordField String := ⟨"category", asText⟩
  score : RecordField ScoreSpec := ⟨"score", ScoreSpec.ofData⟩
  quality : RecordField QualityGate := ⟨"quality", QualityGate.ofData .nullOrEmpty⟩
  when : RecordField (Option Expr) := ⟨"when", orNull (Expr.ofData .nullOrEmpty)⟩
  explain : RecordField String := ⟨"explain", asText⟩
  tags : RecordField (List String) := ⟨"tags", asList asText⟩

namespace ScoredFamily

/-- The members of the data form of a family. -/
def members (family : ScoredFamily) : List (String × Data) :=
  [("id_prefix", .text family.idStem), ("category", .text family.category),
    ("score", family.score.toData), ("quality", family.quality.toData)] ++
  member "when" (family.when.map Expr.toData) ++
  [("explain", .text family.explain)] ++
  member "tags" (nonempty (family.tags.map .text))

/-- The fields of a family as questions. -/
def checks : List Check :=
  let names : FamilyFields := {}
  [names.idStem.check, names.category.check, names.score.check, names.quality.check,
    names.when.check, names.explain.check, names.tags.check]

/-- The family that some fields make up. -/
def ofFields (fields : Fields) (category : String) : Except Fault ScoredFamily := do
  let names : FamilyFields := {}
  return {
    idStem := ← fields.required names.idStem
    category := ← fields.withDefault names.category category
    score := ← fields.required names.score
    quality := ← fields.withDefault names.quality {}
    when := ← fields.withDefault names.when none
    explain := ← fields.withDefault names.explain ""
    tags := ← fields.withDefault names.tags [] }

end ScoredFamily

/-- The data form of a list of members of a taxonomy, unless it is empty. -/
def membersData {α : Type} [Taxonomy α] (members : List α) : Option Data :=
  nonempty (members.map fun member => .text (Taxonomy.name member))

/-- A list of members of a taxonomy. -/
def asMembers {α : Type} [Taxonomy α] : Data → Except Fault (List α) :=
  asList (Taxonomy.ofData .nullOrEmpty)

namespace PatternScore

def members (record : PatternScore) : List (String × Data) :=
  record.toScoredFamily.members ++ [("pattern_path", .text record.patternPath)] ++
    member "patterns" (membersData record.patterns)

def ofData (data : Data) : Except Fault PatternScore := do
  let path : RecordField String := ⟨"pattern_path", asText⟩
  let patterns : RecordField (List Pattern) := ⟨"patterns", asMembers⟩
  let fields ← data.record (ScoredFamily.checks ++ [path.check, patterns.check])
  let family ← ScoredFamily.ofFields fields "{pattern}"
  return {
    toScoredFamily := family
    patternPath := ← fields.withDefault path "month.gyeok.pattern"
    patterns := ← fields.withDefault patterns [] }

end PatternScore

namespace ElementMatch

def members (record : ElementMatch) : List (String × Data) :=
  record.toScoredFamily.members ++ [("element_path", .text record.elementPath)] ++
    member "elements" (membersData record.elements)

def ofData (data : Data) : Except Fault ElementMatch := do
  let path : RecordField String := ⟨"element_path", asText⟩
  let elements : RecordField (List Element) := ⟨"elements", asMembers⟩
  let fields ← data.record (ScoredFamily.checks ++ [path.check, elements.check])
  let family ← ScoredFamily.ofFields fields "element.{element}"
  return {
    toScoredFamily := family
    elementPath := ← fields.withDefault path "month.gyeok.element"
    elements := ← fields.withDefault elements [] }

end ElementMatch

namespace RoleElement

def members (record : RoleElement) : List (String × Data) :=
  record.toScoredFamily.members ++ [("role_path", .text record.rolePath)] ++
    member "roles" (membersData record.roles) ++ member "elements" (membersData record.elements)

def ofData (data : Data) : Except Fault RoleElement := do
  let path : RecordField String := ⟨"role_path", asText⟩
  let roles : RecordField (List Role) := ⟨"roles", asMembers⟩
  let elements : RecordField (List Element) := ⟨"elements", asMembers⟩
  let fields ← data.record (ScoredFamily.checks ++ [path.check, roles.check, elements.check])
  let family ← ScoredFamily.ofFields fields "{role}.{element}"
  return {
    toScoredFamily := family
    rolePath := ← fields.withDefault path "roles.{role}"
    roles := ← fields.withDefault roles []
    elements := ← fields.withDefault elements [] }

end RoleElement

namespace TenGodPresence

def members (record : TenGodPresence) : List (String × Data) :=
  record.toScoredFamily.members ++
    [("path", .text record.path), ("min", Value.numberData record.min)] ++
    member "ten_gods" (membersData record.tenGods)

def ofData (data : Data) : Except Fault TenGodPresence := do
  let path : RecordField String := ⟨"path", asText⟩
  let min : RecordField Float := ⟨"min", asNumber⟩
  let tenGods : RecordField (List TenGod) := ⟨"ten_gods", asMembers⟩
  let fields ← data.record (ScoredFamily.checks ++ [path.check, min.check, tenGods.check])
  let family ← ScoredFamily.ofFields fields "{ten_god}"
  return {
    toScoredFamily := family
    path := ← fields.withDefault path "ten_gods.{ten_god}.count"
    min := ← fields.withDefault min 0
    tenGods := ← fields.withDefault tenGods [] }

end TenGodPresence

namespace GradeTable

/-- The data form of the amounts, with a key for every grade that has one. -/
def amountsData (amounts : Grade → Option Float) : Data :=
  .ofFields ((Taxonomy.members : List Grade).filterMap fun grade =>
    (amounts grade).map fun amount => (Taxonomy.name grade, Value.numberData amount))

/-- The amounts by grade.  Every key has to be the name of a grade. -/
def asAmounts (data : Data) : Except Fault (Grade → Option Float) := do
  let entries ← asDict asNumber data
  if entries.keys.all fun key => (Taxonomy.names Grade).contains key then
    return fun grade => entries.find? (Taxonomy.name grade)
  else .error .malformed

def members (record : GradeTable) : List (String × Data) :=
  [("id_prefix", .text record.idStem), ("grade_path", .text record.gradePath),
    ("category", .text record.category), ("amounts", amountsData record.amounts)] ++
  member "when" (record.when.map Expr.toData) ++
  [("explain", .text record.explain)] ++
  member "tags" (nonempty (record.tags.map .text))

def ofData (data : Data) : Except Fault GradeTable := do
  let names : FamilyFields := {}
  let path : RecordField String := ⟨"grade_path", asText⟩
  let amounts : RecordField (Grade → Option Float) := ⟨"amounts", asAmounts⟩
  let fields ← data.record [names.idStem.check, path.check, names.category.check, amounts.check,
    names.when.check, names.explain.check, names.tags.check]
  return {
    idStem := ← fields.required names.idStem
    gradePath := ← fields.withDefault path "month.gyeok.quality.grade"
    category := ← fields.required names.category
    amounts := ← fields.required amounts
    when := ← fields.withDefault names.when none
    explain := ← fields.withDefault names.explain ""
    tags := ← fields.withDefault names.tags [] }

end GradeTable

namespace Suppression

def members (record : Suppression) : List (String × Data) :=
  [("id_prefix", .text record.idStem), ("winner", .text record.winner),
    ("strength_path", .text record.strengthPath),
    ("threshold", Value.numberData record.threshold),
    ("targets", .list (record.targets.map .text)), ("weight", Value.numberData record.weight),
    ("quality", record.quality.toData), ("explain", .text record.explain)] ++
  member "tags" (nonempty (record.tags.map .text))

def ofData (data : Data) : Except Fault Suppression := do
  let names : FamilyFields := {}
  let winner : RecordField String := ⟨"winner", asText⟩
  let path : RecordField String := ⟨"strength_path", asText⟩
  let threshold : RecordField Float := ⟨"threshold", asNumber⟩
  let targets : RecordField (List String) := ⟨"targets", asList asText⟩
  let weight : RecordField Float := ⟨"weight", asNumber⟩
  let fields ← data.record [names.idStem.check, winner.check, path.check, threshold.check,
    targets.check, weight.check, names.quality.check, names.explain.check, names.tags.check]
  return {
    idStem := ← fields.required names.idStem
    winner := ← fields.required winner
    strengthPath := ← fields.withDefault path "patterns.{winner}.strength"
    threshold := ← fields.required threshold
    targets := ← fields.required targets
    weight := ← fields.withDefault weight 1
    quality := ← fields.withDefault names.quality {}
    explain := ← fields.withDefault names.explain ""
    tags := ← fields.withDefault names.tags [] }

end Suppression

namespace PenalizeWhen

def members (record : PenalizeWhen) : List (String × Data) :=
  [("id", .text record.id), ("when", record.when.toData),
    ("categories", .list (record.categories.map .text)),
    ("amount", Value.numberData record.amount)] ++
  member "scale_by" (record.scaleBy.map .text) ++
  [("explain", .text record.explain)] ++
  member "tags" (nonempty (record.tags.map .text))

def ofData (data : Data) : Except Fault PenalizeWhen := do
  let names : FamilyFields := {}
  let id : RecordField String := ⟨"id", asText⟩
  let gate : RecordField Expr := ⟨"when", Expr.ofData .nullOrEmpty⟩
  let categories : RecordField (List String) := ⟨"categories", asList asText⟩
  let amount : RecordField Float := ⟨"amount", asNumber⟩
  let scaleBy : RecordField (Option String) := ⟨"scale_by", orNull asText⟩
  let fields ← data.record [id.check, gate.check, categories.check, amount.check, scaleBy.check,
    names.explain.check, names.tags.check]
  return {
    id := ← fields.required id
    when := ← fields.required gate
    categories := ← fields.required categories
    amount := ← fields.required amount
    scaleBy := ← fields.withDefault scaleBy none
    explain := ← fields.withDefault names.explain ""
    tags := ← fields.withDefault names.tags [] }

end PenalizeWhen

namespace MacroRecord

/-- The members of the data form of a record, without its kind. -/
def members : MacroRecord → List (String × Data)
  | patternScore record => record.members
  | elementMatch record => record.members
  | roleElement record => record.members
  | tenGodPresence record => record.members
  | gradeTable record => record.members
  | suppression record => record.members
  | penalizeWhen record => record.members
  | rule record => record.members

/-- The data form of a record. -/
def toData (record : MacroRecord) : Data :=
  .ofFields (("kind", .text (Taxonomy.name record.kind)) :: record.members)

/-- The record of a kind that some data is the form of. -/
def ofKind (data : Data) : MacroKind → Except Fault MacroRecord
  | .patternScore => do return .patternScore (← PatternScore.ofData data)
  | .elementMatch => do return .elementMatch (← ElementMatch.ofData data)
  | .roleElement => do return .roleElement (← RoleElement.ofData data)
  | .tenGodPresence => do return .tenGodPresence (← TenGodPresence.ofData data)
  | .gradeTable => do return .gradeTable (← GradeTable.ofData data)
  | .suppression => do return .suppression (← Suppression.ofData data)
  | .penalizeWhen => do return .penalizeWhen (← PenalizeWhen.ofData data)
  | .rule => do return .rule (← Rule.ofData .nullOrEmpty data)

/-- The record that some data is the form of. -/
def ofData (data : Data) : Except MacroFault MacroRecord :=
  match data.field? "kind" with
  | none => .error .kindMissing
  | some (.text name) =>
    match Taxonomy.ofName? name with
    | none => .error (.unknownKind name)
    | some kind => (ofKind data kind).mapError (.fields name)
  | some other => .error (.kindNotText other.compact)

end MacroRecord

end FactScore
