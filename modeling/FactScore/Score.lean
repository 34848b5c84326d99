import FactScore.Dict
import FactScore.Data
import FactScore.Value

/-!
# Aggregated scores

The running total of every category together with the contributions that make it up, in the order
in which they were added, and the rules that were skipped.
-/

namespace FactScore

/-- What one rule contributes to one category. -/
structure Contribution where
  ruleId : String
  amount : Float
  /-- The explanation, with its placeholders filled. -/
  explain : String
  deriving Inhabited

/-- The total of a category and its contributions. -/
structure Tally where
  total : Float := 0
  contributions : List Contribution := []
  deriving Inhabited

/-- A rule that was skipped, and why. -/
structure Diagnostic where
  ruleId : String
  message : String
  deriving DecidableEq, Repr, Inhabited

/-- The scores of all categories that some rule contributed to. -/
structure Scoreboard where
  categories : Dict Tally := .nil
  diagnostics : List Diagnostic := []
  deriving Inhabited

/-- The score of a category with one more contribution. -/
def Tally.add (score : Tally) (contribution : Contribution) : Tally where
  total := score.total + contribution.amount
  contributions := score.contributions ++ [contribution]

/-- Whether one category comes before another in a ranking: by the greater total, and by the key
    when neither total is greater. -/
def ranksBefore (left right : String × Float) : Bool :=
  if right.2 < left.2 then true
  else if left.2 < right.2 then false
  else decide (left.1 ≤ right.1)

namespace Scoreboard

/-- Add a contribution to a category. -/
def add (scores : Scoreboard) (category : String) (contribution : Contribution) :
    Scoreboard :=
  let score := (scores.categories.find? category).getD {}
  { scores with categories := scores.categories.insert category (score.add contribution) }

/-- Note that a rule was skipped. -/
def skip (scores : Scoreboard) (diagnostic : Diagnostic) : Scoreboard :=
  { scores with diagnostics := scores.diagnostics ++ [diagnostic] }

def get? (scores : Scoreboard) (category : String) : Option Tally :=
  scores.categories.find? category

/-- The total of a category, zero when nothing contributed to it. -/
def total (scores : Scoreboard) (category : String) : Float :=
  ((scores.get? category).map Tally.total).getD 0

/-- The totals of all categories, in key order. -/
def totals (scores : Scoreboard) : List (String × Float) :=
  scores.categories.toList.map fun entry => (entry.1, entry.2.total)

/-- The categories with their totals, the greatest total first and equal totals in key order. -/
def ranked (scores : Scoreboard) : List (String × Float) :=
  scores.totals.mergeSort ranksBefore

/-- The category with the greatest total. -/
def leader (scores : Scoreboard) : Option (String × Float) :=
  scores.ranked.head?

def size (scores : Scoreboard) : Nat :=
  scores.categories.size

def isEmpty (scores : Scoreboard) : Bool :=
  scores.categories.isEmpty

/-- The contributions of a rule, in key order of their categories. -/
def contributionsOf (scores : Scoreboard) (ruleId : String) : List (String × Contribution) :=
  scores.categories.toList.flatMap fun entry =>
    (entry.2.contributions.filter fun contribution => contribution.ruleId == ruleId).map
      fun contribution => (entry.1, contribution)

/-- The data form of a contribution. -/
def contributionData (contribution : Contribution) : Data :=
  .ofFields
    [("rule_id", .text contribution.ruleId), ("amount", Value.numberData contribution.amount),
      ("explain", .text contribution.explain)]

/-- The data form of the score of a category. -/
def tallyData (score : Tally) : Data :=
  .ofFields
    [("total", Value.numberData score.total),
      ("contributions", .list (score.contributions.map contributionData))]

/-- The data form of a diagnostic. -/
def diagnosticData (diagnostic : Diagnostic) : Data :=
  .ofFields [("rule_id", .text diagnostic.ruleId), ("message", .text diagnostic.message)]

/-- The data form of the scores.  Diagnostics are only written when there are any. -/
def toData (scores : Scoreboard) : Data :=
  .ofFields
    (("categories", .map (scores.categories.map tallyData)) ::
      match scores.diagnostics with
      | [] => []
      | diagnostics => [("diagnostics", .list (diagnostics.map diagnosticData))])

end Scoreboard

end FactScore
