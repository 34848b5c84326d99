import FactScore.Graph.Evaluation
import FactScore.Scoring

/-!
# Analyses

An analysis derives facts with a graph and then scores a rule set: the wanted nodes are evaluated
against the seed, every computed value is published in the context, and the rules are scored
against the outcome.
-/

namespace FactScore

/-- Why an analysis has no report. -/
inductive AnalysisError where
  | graph (error : GraphError)
  | score (error : ScoreError)
  deriving DecidableEq, Repr

def AnalysisError.message : AnalysisError → String
  | graph error => "Graph error: " ++ error.message
  | score error => "Score error: " ++ error.message

/-- Everything that an analysis found. -/
structure Report where
  /-- The seed with all derived facts. -/
  context : Context
  trace : Trace
  scores : Scoreboard

/-- A graph and a rule set, to be used on any number of seeds. -/
structure Analysis where
  graph : Graph
  ruleSet : RuleSet
  config : ScoringConfig := {}

/-- Analyse a seed. -/
def Analysis.run (analysis : Analysis) (seed : Context) (wanted : List NodeId) :
    Except AnalysisError Report := do
  let evaluation ← (analysis.graph.evaluate seed wanted).mapError .graph
  let context := evaluation.publishIn seed
  let scores ← (analysis.ruleSet.evaluateWith analysis.config context).mapError .score
  return { context, trace := evaluation.trace, scores }

end FactScore
