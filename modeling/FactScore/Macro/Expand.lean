import FactScore.Macro.Record

/-!
# Expansion of macro records

Every record expands to a list of rules in a fixed order.  The gate of a generated rule is the
conjunction of the record's precondition, the clauses of its quality gate, and the condition that
tells the member of the taxonomy, with absent parts left out.
-/

namespace FactScore

/-- The listed members of a taxonomy, or all of them when none is listed. -/
def selectedOrAll {α : Type} [Taxonomy α] (listed : List α) : List α :=
  match listed with
  | [] => Taxonomy.members
  | _ => listed

/-- A generated rule without its score. -/
def Rule.generate (id : String) (precondition : Option Expr) (quality : QualityGate)
    (discriminator : Expr) (bindings : Bindings) (explain : String) (tags : List String) :
    Rule where
  id := id
  when := .all (precondition.toList ++ quality.clauses bindings ++ [discriminator])
  explain := bindings.fill explain
  tags := tags

/-- The rule of a family for the member that the bindings tell. -/
def ScoredFamily.rule (family : ScoredFamily) (bindings : Bindings) (discriminator : Expr) :
    Rule :=
  (Rule.generate (bindings.ruleId family.idStem) family.when family.quality discriminator bindings
    family.explain family.tags).addScore (bindings.fill family.category)
      (family.score.toExpr bindings)

def PatternScore.expand (record : PatternScore) : List Rule :=
  (selectedOrAll record.patterns).map fun pattern =>
    let key := Taxonomy.name pattern
    record.rule (Bindings.empty.bind "pattern" key) (.eq (.fact record.patternPath) (.text key))

def ElementMatch.expand (record : ElementMatch) : List Rule :=
  (selectedOrAll record.elements).map fun element =>
    let key := Taxonomy.name element
    record.rule (Bindings.empty.bind "element" key) (.eq (.fact record.elementPath) (.text key))

def RoleElement.expand (record : RoleElement) : List Rule :=
  (selectedOrAll record.roles).flatMap fun role =>
    (selectedOrAll record.elements).map fun element =>
      let key := Taxonomy.name element
      let bindings := (Bindings.empty.bind "role" (Taxonomy.name role)).bind "element" key
      record.rule bindings (.eq (.fact (bindings.fill record.rolePath)) (.text key))

def TenGodPresence.expand (record : TenGodPresence) : List Rule :=
  (selectedOrAll record.tenGods).map fun tenGod =>
    let bindings := Bindings.empty.bind "ten_god" (Taxonomy.name tenGod)
    record.rule bindings (.gt (.fact (bindings.fill record.path)) (.number record.min))

/-- The grades of a table with their amounts, the best grade first. -/
def GradeTable.rows (record : GradeTable) : List (Grade × Float) :=
  (Taxonomy.members : List Grade).filterMap fun grade =>
    (record.amounts grade).map fun amount => (grade, amount)

def GradeTable.expand (record : GradeTable) : List Rule :=
  record.rows.map fun (grade, amount) =>
    let key := Taxonomy.name grade
    let bindings := Bindings.empty.bind "grade" key
    (Rule.generate (bindings.ruleId record.idStem) record.when {}
      (.eq (.fact record.gradePath) (.text key)) bindings record.explain record.tags).addScore
        (bindings.fill record.category) (.number amount)

/-- The targets that lose: all but the winner. -/
def Suppression.losers (record : Suppression) : List String :=
  record.targets.filter fun target => target != record.winner

/-- The winner's strength. -/
def Suppression.strength (record : Suppression) : Expr :=
  .fact ((Bindings.empty.bind "winner" record.winner).fill record.strengthPath)

def Suppression.expand (record : Suppression) : List Rule :=
  record.losers.map fun target =>
    let bindings := (Bindings.empty.bind "winner" record.winner).bind "target" target
    (Rule.generate ((Bindings.empty.bind "target" target).ruleId record.idStem) none
      record.quality (.gt record.strength (.number record.threshold)) bindings record.explain
      record.tags).addScore target (.mul [.number (-record.weight.abs), record.strength])

/-- The penalty as a score specification. -/
def PenalizeWhen.spec (record : PenalizeWhen) : ScoreSpec :=
  match record.scaleBy with
  | some path => .penalty (.scaled record.amount path)
  | none => .penalty (.constant record.amount)

def PenalizeWhen.expand (record : PenalizeWhen) : List Rule :=
  let rule : Rule :=
    { id := record.id, when := record.when, explain := record.explain, tags := record.tags }
  [record.categories.foldl
    (fun rule category => rule.addScore category (record.spec.toExpr .empty)) rule]

theorem Rule.foldl_addScore (categories : List String) (rule : Rule) (expr : Expr) :
    categories.foldl (fun rule category => rule.addScore category expr) rule =
      { rule with score := rule.score.insertKeys categories expr } := by
  induction categories generalizing rule with
  | nil => rfl
  | cons category categories ih => exact ih (rule.addScore category expr)

/-- A penalty is one rule, which takes the same amount from each of its categories. -/
theorem PenalizeWhen.expand_eq (record : PenalizeWhen) :
    record.expand = [{
      id := record.id
      when := record.when
      score := Dict.insertKeys .nil record.categories (record.spec.toExpr .empty)
      explain := record.explain
      tags := record.tags }] := by
  rw [expand, Rule.foldl_addScore]

/-- The explanation of generated rules whose record gives none. -/
def MacroKind.defaultExplanation : MacroKind → String
  | .patternScore => "{category}: gyeok pattern matched ({amount})"
  | .elementMatch => "{category}: element matched ({amount})"
  | .roleElement => "{category}: role carried by element ({amount})"
  | .tenGodPresence => "{category}: ten god present ({amount})"
  | .gradeTable => "{category}: quality grade ({amount})"
  | .suppression => "{category}: suppressed by a dominant pattern ({amount})"
  | .penalizeWhen => "{category}: penalty ({amount})"
  | .rule => "{rule_id} ({amount})"

namespace MacroRecord

/-- The rules of a record before empty explanations are replaced. -/
def bareRules : MacroRecord → List Rule
  | patternScore record => record.expand
  | elementMatch record => record.expand
  | roleElement record => record.expand
  | tenGodPresence record => record.expand
  | gradeTable record => record.expand
  | suppression record => record.expand
  | penalizeWhen record => record.expand
  | rule record => [record]

/-- The rules of a record, in a fixed order, each with an explanation. -/
def expand (record : MacroRecord) : List Rule :=
  record.bareRules.map fun rule =>
    if rule.explain = "" then { rule with explain := record.kind.defaultExplanation } else rule

end MacroRecord

end FactScore
