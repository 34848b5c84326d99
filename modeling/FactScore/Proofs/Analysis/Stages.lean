import FactScore.Analysis
import FactScore.Proofs.Graph.Publication

/-!
# Stages of an analysis

An analysis evaluates its graph against the seed, publishes the results, and scores the outcome.
The graph never sees a published result, the scoring sees all of them, and each stage has errors of
its own (`Analysis.run_eq`).  Where no computed id overlaps a path, the report has there what the
seed has (`Analysis.run_stages`).
-/

namespace FactScore

namespace Analysis

variable (analysis : Analysis) (seed : Context) (wanted : List NodeId)

/-- What becomes of an evaluation: its results are published in the seed and then scored. -/
def conclude (evaluation : Evaluation) : Except AnalysisError Report :=
  match analysis.ruleSet.evaluateWith analysis.config (evaluation.publishIn seed) with
  | .ok scores => .ok { context := evaluation.publishIn seed, trace := evaluation.trace, scores }
  | .error error => .error (.score error)

theorem run_eq :
    analysis.run seed wanted =
      match analysis.graph.evaluate seed wanted with
      | .ok evaluation => analysis.conclude seed evaluation
      | .error error => .error (.graph error) := by
  unfold run
  cases analysis.graph.evaluate seed wanted with
  | error error => rfl
  | ok evaluation =>
    change Except.bind (Except.mapError AnalysisError.score
      (analysis.ruleSet.evaluateWith analysis.config (evaluation.publishIn seed))) _ =
        analysis.conclude seed evaluation
    unfold conclude
    cases analysis.ruleSet.evaluateWith analysis.config (evaluation.publishIn seed) <;> rfl

variable {analysis seed}

theorem conclude_eq_ok_iff {evaluation : Evaluation} {report : Report} :
    analysis.conclude seed evaluation = .ok report ↔
      report.context = evaluation.publishIn seed ∧ report.trace = evaluation.trace ∧
      analysis.ruleSet.evaluateWith analysis.config report.context = .ok report.scores := by
  unfold conclude
  constructor
  · intro h
    split at h
    next scores hscores =>
      cases h
      exact ⟨rfl, rfl, hscores⟩
    next => cases h
  · obtain ⟨context, trace, scores⟩ := report
    rintro ⟨rfl, rfl, hscores⟩
    simp only [hscores]

theorem conclude_eq_error_iff {evaluation : Evaluation} {error : AnalysisError} :
    analysis.conclude seed evaluation = .error error ↔
      ∃ cause, error = .score cause ∧
        analysis.ruleSet.evaluateWith analysis.config (evaluation.publishIn seed) =
          .error cause := by
  unfold conclude
  cases analysis.ruleSet.evaluateWith analysis.config (evaluation.publishIn seed) with
  | ok scores => simp
  | error cause => simp [eq_comm]

variable (analysis seed)

/-- An error of the graph ends an analysis whatever its rules are.  Otherwise the analysis goes
    through just when the scoring does, and the report has the trace that the graph leaves on the
    seed, the scores of the context that it has, and wherever no computed id overlaps a path the
    fact of the seed. -/
theorem run_stages :
    (∀ error, analysis.graph.evaluate seed wanted = .error error →
      ∀ ruleSet config,
        { analysis with ruleSet, config }.run seed wanted = .error (.graph error)) ∧
    ∀ evaluation, analysis.graph.evaluate seed wanted = .ok evaluation →
      (∀ error, analysis.run seed wanted = .error error ↔
        ∃ cause, error = .score cause ∧
          analysis.ruleSet.evaluateWith analysis.config (evaluation.publishIn seed) =
            .error cause) ∧
      (∀ scores, analysis.ruleSet.evaluateWith analysis.config (evaluation.publishIn seed) =
          .ok scores →
        ∃ report, analysis.run seed wanted = .ok report) ∧
      ∀ report, analysis.run seed wanted = .ok report →
        report.context = evaluation.publishIn seed ∧
        report.trace = evaluation.trace ∧
        analysis.ruleSet.evaluateWith analysis.config report.context = .ok report.scores ∧
        ∀ path, (∀ id ∈ evaluation.results.keys, ¬ (FactPath.mk id).Overlaps path) →
          report.context.lookup path = seed.lookup path := by
  refine ⟨fun error herror ruleSet config => ?_, fun evaluation hok => ?_⟩
  · simp only [run_eq, herror]
  · simp only [run_eq, hok]
    refine ⟨fun error => conclude_eq_error_iff, fun scores hscores => ?_, fun report hreport => ?_⟩
    · exact ⟨⟨_, _, scores⟩, conclude_eq_ok_iff.mpr ⟨rfl, rfl, hscores⟩⟩
    · obtain ⟨hcontext, htrace, hscores⟩ := conclude_eq_ok_iff.mp hreport
      refine ⟨hcontext, htrace, hscores, fun path hapart => ?_⟩
      rw [hcontext]
      exact Evaluation.lookup_publishIn_of_apart hapart seed

end Analysis

/-- A seed with one fact, which has nothing to do with the day. -/
def monthSeed : Context :=
  Context.empty.set ⟨"month"⟩ (.text "siksin")

/-- An analysis of the day that scores nothing. -/
def dayAnalysis : Analysis where
  graph := shadowedGraph
  ruleSet := .empty

theorem evaluate_dayAnalysis :
    ∃ evaluation, dayAnalysis.graph.evaluate monthSeed ["day", "day.stem"] = .ok evaluation ∧
      evaluation.results.keys = ["day", "day.stem"] := by
  refine Graph.exists_evaluation ?_
  cbv

theorem run_dayAnalysis :
    ∃ report, dayAnalysis.run monthSeed ["day", "day.stem"] = .ok report ∧
      report.context.lookup ⟨"month"⟩ = some (.text "siksin") := by
  obtain ⟨evaluation, hok, hkeys⟩ := evaluate_dayAnalysis
  obtain ⟨_, hstages⟩ := dayAnalysis.run_stages monthSeed ["day", "day.stem"]
  obtain ⟨_, hscored, hreports⟩ := hstages evaluation hok
  obtain ⟨report, hrun⟩ := hscored {} rfl
  obtain ⟨_, _, _, hapart⟩ := hreports report hrun
  have hmonth : (FactPath.mk "month").segments = ["month"] := by cbv
  obtain ⟨hday, hstem⟩ := segments_shadowedGraph
  have hseed : monthSeed.lookup ⟨"month"⟩ = some (.text "siksin") := by cbv
  refine ⟨report, hrun, ?_⟩
  rw [← hseed]
  refine hapart ⟨"month"⟩ ?_
  rw [hkeys]
  simp [FactPath.Overlaps, hmonth, hday, hstem]

end FactScore
