import FactScore.Graph.Progress

/-!
# Evaluation of graphs

`Graph.evaluate` resolves the wanted nodes one after another in one run and hands out what the run
found: the value of every node that was computed and the audit trace.
-/

namespace FactScore

namespace Run

/-- Take steps from a stack in order until it is empty or an error comes through. -/
def runStack (graph : Graph) (context : Context) (run : Run) (stack : List Frame)
    (hsound : Sound graph run stack) : Except GraphError Unit × Run :=
  match h : step graph (fun frame => frame.node.compute context) run stack with
  | .finished run => (.ok (), run)
  | .stopped error run => (.error error, run)
  | .next run' stack' => runStack graph context run' stack' (hsound.step h)
termination_by measure graph run stack
decreasing_by exact measure_step_lt hsound h

/-- Resolve a node, which leaves its value in the run. -/
def settle (graph : Graph) (context : Context) (run : Run) (id : NodeId) :
    Except GraphError Value × Run :=
  match hstanding : run.standing graph id with
  | .computed value => (.ok value, run)
  | .refused error => (.error error, run)
  | .unresolved node =>
    let frame : Frame := { id, node, pending := node.deps }
    match runStack graph context { run with active := run.active.insert id () } [frame]
        (Sound.nil.push hstanding) with
    | (.error error, run) => (.error error, run)
    | (.ok (), run) =>
      match run.results.find? id with
      | some value => (.ok value, run)
      | none => (.error (.compute id "node produced no result"), run)

/-- Resolve nodes one after another.  The first error ends it. -/
def settleAll (graph : Graph) (context : Context) (run : Run) :
    List NodeId → Except GraphError Run
  | [] => .ok run
  | id :: rest =>
    match run.settle graph context id with
    | (.ok _, run) => settleAll graph context run rest
    | (.error error, _) => .error error

end Run

/-- What an evaluation found. -/
structure Evaluation where
  /-- The value of every node that was computed, wanted or not. -/
  results : Dict Value
  trace : Trace

namespace Evaluation

/-- The value of a node, missing if it was not computed. -/
def get (evaluation : Evaluation) (id : NodeId) : Value :=
  (evaluation.results.find? id).getD .missing

/-- Publish some results, in the order of their ids, each at the path that its id is. -/
def publish (context : Context) (results : List (NodeId × Value)) : Context :=
  results.foldl (fun context result => context.set ⟨result.1⟩ result.2) context

/-- The context with every result published. -/
def publishIn (evaluation : Evaluation) (context : Context) : Context :=
  publish context evaluation.results.toList

end Evaluation

/-- Evaluate the wanted nodes of a graph over a context. -/
def Graph.evaluate (graph : Graph) (context : Context) (wanted : List NodeId) :
    Except GraphError Evaluation := do
  let run ← Run.settleAll graph context {} wanted
  return { results := run.results, trace := run.trace }

/-- If something comes of an evaluation, the evaluation has succeeded. -/
theorem Graph.exists_evaluation {graph : Graph} {context : Context} {wanted : List NodeId}
    {α : Type} {observe : Evaluation → α} {observed : α}
    (h : (graph.evaluate context wanted).map observe = .ok observed) :
    ∃ evaluation, graph.evaluate context wanted = .ok evaluation ∧
      observe evaluation = observed := by
  cases hrun : graph.evaluate context wanted with
  | error error =>
    rw [hrun] at h
    cases h
  | ok evaluation =>
    rw [hrun] at h
    exact ⟨evaluation, rfl, Except.ok.inj h⟩

end FactScore
