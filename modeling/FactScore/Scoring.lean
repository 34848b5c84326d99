import FactScore.Expr.Eval
import FactScore.Rule
import FactScore.Score
import FactScore.Template

/-!
# Scoring

Rules are scored in order against a context.  Every rule is all or nothing: its gate and all of
its score expressions are evaluated before anything is added.  A rule that fails is skipped and
noted, or ends the scoring, as the configuration says.
-/

namespace FactScore

/-- Why a rule could not be scored. -/
inductive ScoreError where
  /-- The gate or a score expression has no value. -/
  | eval (ruleId : String) (source : EvalError)
  /-- The value of a score expression is not a number. -/
  | nonNumeric (ruleId category found : String)
  deriving DecidableEq, Repr

namespace ScoreError

/-- The rule that failed. -/
def ruleId : ScoreError → String
  | eval ruleId _ => ruleId
  | nonNumeric ruleId _ _ => ruleId

def message : ScoreError → String
  | eval ruleId source => "rule '" ++ ruleId ++ "' failed to evaluate: " ++ source.message
  | nonNumeric ruleId category found =>
    "rule '" ++ ruleId ++ "' scored " ++ found ++ " for '" ++ category ++ "', expected a number"

end ScoreError

/-- What to do about a rule that fails. -/
inductive ErrorPolicy where
  /-- Leave the rule out and note it. -/
  | skip
  /-- Stop with the error. -/
  | abort
  deriving DecidableEq, Repr, Inhabited

instance : Taxonomy ErrorPolicy where
  members := [.skip, .abort]
  name
    | .skip => "skip"
    | .abort => "abort"

/-- The configuration of the scoring. -/
structure ScoringConfig where
  errorPolicy : ErrorPolicy := .skip
  deriving DecidableEq, Repr, Inhabited

open Data in
/-- The configuration that some data is the form of. -/
def ScoringConfig.ofData (data : Data) : Except Fault ScoringConfig := do
  let policy : RecordField ErrorPolicy := ⟨"error_policy", Taxonomy.ofData .null⟩
  let fields ← data.record [policy.check]
  return { errorPolicy := ← fields.withDefault policy .skip }

namespace Rule

/-- The amounts of some score expressions, in order; the first failure counts. -/
def amounts (ruleId : String) (context : Context) :
    List (String × Expr) → Except ScoreError (List (String × Float))
  | [] => .ok []
  | (category, expr) :: rest => do
    match ← (expr.eval context).mapError (.eval ruleId) with
    | .number amount =>
      let others ← amounts ruleId context rest
      return (category, amount) :: others
    | value => .error (.nonNumeric ruleId category value.kindName)

/-- What a rule comes to: nothing when its gate is closed, and otherwise an amount for each of
    its categories in key order. -/
def outcome (rule : Rule) (context : Context) :
    Except ScoreError (Option (List (String × Float))) := do
  let gate ← (rule.when.eval context).mapError (.eval rule.id)
  if gate.isTruthy then return some (← amounts rule.id context rule.score.toList)
  else return none

/-- The texts that the placeholders of an explanation stand for: the amount, the category, the
    id of the rule, and with `=` in front the value of a fact that is not missing. -/
def explanationText (rule : Rule) (category : String) (amount : Float) (context : Context)
    (name : String) : Option String :=
  if name = "amount" then some (NumberNotation.plain.render amount)
  else if name = "category" then some category
  else if name = "rule_id" then some rule.id
  else
    match name.toList with
    | '=' :: path =>
      match context.lookup ⟨String.ofList path⟩ with
      | none => none
      | some value => if value.isMissing then none else some value.display
    | _ => none

/-- The contribution of a rule to a category. -/
def contribution (rule : Rule) (category : String) (amount : Float) (context : Context) :
    Contribution where
  ruleId := rule.id
  amount := amount
  explain := Template.fill (rule.explanationText category amount context) rule.explain

end Rule

namespace Scoreboard

/-- Add what a rule contributes. -/
def addAll (scores : Scoreboard) (rule : Rule) (context : Context)
    (amounts : List (String × Float)) : Scoreboard :=
  amounts.foldl
    (fun scores amount => scores.add amount.1 (rule.contribution amount.1 amount.2 context)) scores

end Scoreboard

/-- Score rules one after another, leaving what to do about a failure to the caller. -/
def scoreRules {ε : Type} (context : Context)
    (onFailure : Rule → ScoreError → Scoreboard → Except ε Scoreboard)
    (scores : Scoreboard) : List Rule → Except ε Scoreboard
  | [] => .ok scores
  | rule :: rest => do
    let scores ←
      match rule.outcome context with
      | .ok none => .ok scores
      | .ok (some amounts) => .ok (scores.addAll rule context amounts)
      | .error error => onFailure rule error scores
    scoreRules context onFailure scores rest

/-- Leave out a rule that fails, and note it. -/
def noteSkipped (rule : Rule) (error : ScoreError) (scores : Scoreboard) : Scoreboard :=
  scores.skip { ruleId := rule.id, message := error.message }

namespace RuleSet

/-- The scores of a rule set; rules that fail are left out and noted. -/
def evaluate (ruleSet : RuleSet) (context : Context) : Scoreboard :=
  let skip (rule : Rule) (error : ScoreError) (scores : Scoreboard) :
      Except Empty Scoreboard := .ok (noteSkipped rule error scores)
  match scoreRules context skip {} ruleSet.rules with
  | .ok scores => scores

/-- With failures left out, scoring comes to scores. -/
theorem scoreRules_eq_evaluate (ruleSet : RuleSet) (context : Context) :
    scoreRules context
        (fun rule error scores => (.ok (noteSkipped rule error scores) : Except Empty Scoreboard))
        {} ruleSet.rules = .ok (ruleSet.evaluate context) := by
  unfold evaluate
  simp only
  split
  next hscores => exact hscores

/-- The scores of a rule set under a configuration. -/
def evaluateWith (config : ScoringConfig) (ruleSet : RuleSet) (context : Context) :
    Except ScoreError Scoreboard :=
  let onFailure (rule : Rule) (error : ScoreError) (scores : Scoreboard) :
      Except ScoreError Scoreboard :=
    match config.errorPolicy with
    | .abort => .error error
    | .skip => .ok (noteSkipped rule error scores)
  scoreRules context onFailure {} ruleSet.rules

end RuleSet

end FactScore
