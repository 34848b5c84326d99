import FactScore.Data.Record
import FactScore.Expr.Format

/-!
# Rules and rule sets

A rule has a gate and a score expression for each category it contributes to.  A rule set is an
ordered, versioned collection of rules.
-/

namespace FactScore

/-- A scoring rule. -/
structure Rule where
  id : String
  /-- The gate: the rule contributes only when it is truthy. -/
  when : Expr
  /-- The score expressions by category. -/
  score : Dict Expr := .nil
  /-- The template of the explanation that goes with every contribution. -/
  explain : String := ""
  tags : List String := []
  deriving Inhabited

namespace Rule

/-- Add a score expression for a category. -/
def addScore (rule : Rule) (category : String) (expr : Expr) : Rule :=
  { rule with score := rule.score.insert category expr }

/-- Add a tag at the end. -/
def addTag (rule : Rule) (tag : String) : Rule :=
  { rule with tags := rule.tags ++ [tag] }

def hasTag (rule : Rule) (tag : String) : Bool :=
  rule.tags.contains tag

/-- The paths that the gate and the score expressions refer to. -/
def references (rule : Rule) : List FactPath :=
  rule.when.references ++ rule.score.values.flatMap Expr.references

/-- The members of the data form of a rule. -/
def members (rule : Rule) : List (String × Data) :=
  [("id", .text rule.id), ("when", rule.when.toData), ("score", .map (rule.score.map Expr.toData)),
    ("explain", .text rule.explain)] ++
  Data.member "tags" (Data.nonempty (rule.tags.map .text))

/-- The data form of a rule. -/
def toData (rule : Rule) : Data :=
  .ofFields rule.members

open Data in
/-- The rule that some data is the form of. -/
def ofData (payload : Payload) (data : Data) : Except Fault Rule := do
  let id : RecordField String := ⟨"id", asText⟩
  let gate : RecordField Expr := ⟨"when", Expr.ofData payload⟩
  let score : RecordField (Dict Expr) := ⟨"score", asDict (Expr.ofData payload)⟩
  let explain : RecordField String := ⟨"explain", asText⟩
  let tags : RecordField (List String) := ⟨"tags", asList asText⟩
  let fields ← data.record [id.check, gate.check, score.check, explain.check, tags.check]
  return {
    id := ← fields.required id
    when := ← fields.required gate
    score := ← fields.withDefault score .nil
    explain := ← fields.withDefault explain ""
    tags := ← fields.withDefault tags [] }

end Rule

/-- The text whose second occurrence comes first, given the texts that were seen before. -/
def firstRepeatAfter (seen : List String) : List String → Option String
  | [] => none
  | text :: rest => if text ∈ seen then some text else firstRepeatAfter (text :: seen) rest

/-- The text whose second occurrence comes first. -/
def firstRepeat? (texts : List String) : Option String :=
  firstRepeatAfter [] texts

/-- An ordered, versioned collection of rules. -/
structure RuleSet where
  id : String
  version : String
  description : Option String := none
  rules : List Rule
  deriving Inhabited

namespace RuleSet

/-- The rule set without rules. -/
def empty : RuleSet where
  id := "empty"
  version := "0"
  rules := []

/-- Add a rule at the end. -/
def push (ruleSet : RuleSet) (rule : Rule) : RuleSet :=
  { ruleSet with rules := ruleSet.rules ++ [rule] }

/-- The first rule with an id. -/
def get? (ruleSet : RuleSet) (id : String) : Option Rule :=
  ruleSet.rules.find? fun rule => rule.id == id

/-- The ids of the rules, in order. -/
def ids (ruleSet : RuleSet) : List String :=
  ruleSet.rules.map Rule.id

def size (ruleSet : RuleSet) : Nat :=
  ruleSet.rules.length

def isEmpty (ruleSet : RuleSet) : Bool :=
  ruleSet.rules.isEmpty

/-- Every category that some rule can contribute to. -/
def categories (ruleSet : RuleSet) : List String :=
  sortDistinct (ruleSet.rules.flatMap fun rule => rule.score.keys)

/-- Every path that some gate or score expression refers to. -/
def paths (ruleSet : RuleSet) : List String :=
  sortDistinct ((ruleSet.rules.flatMap Rule.references).map FactPath.text)

/-- The rules that carry a tag. -/
def tagged (ruleSet : RuleSet) (tag : String) : List Rule :=
  ruleSet.rules.filter fun rule => rule.hasTag tag

/-- The rule id that is the first to be there twice. -/
def repeatedId? (ruleSet : RuleSet) : Option String :=
  firstRepeat? ruleSet.ids

/-- The data form of a rule set. -/
def toData (ruleSet : RuleSet) : Data :=
  .ofFields
    ([("id", .text ruleSet.id), ("version", .text ruleSet.version)] ++
      Data.member "description" (ruleSet.description.map .text) ++
      [("rules", .list (ruleSet.rules.map Rule.toData))])

open Data in
/-- The rule set that some data is the form of. -/
def ofData (data : Data) : Except Fault RuleSet := do
  let id : RecordField String := ⟨"id", asText⟩
  let version : RecordField String := ⟨"version", asText⟩
  let description : RecordField (Option String) := ⟨"description", orNull asText⟩
  let rules : RecordField (List Rule) := ⟨"rules", asList (Rule.ofData .null)⟩
  let fields ← data.record [id.check, version.check, description.check, rules.check]
  return {
    id := ← fields.required id
    version := ← fields.required version
    description := ← fields.withDefault description none
    rules := ← fields.required rules }

end RuleSet

end FactScore
