import FactScore.Proofs.Graph.Suspension

/-!
# Histories of runs

A `Run.History` is how a run comes to a state: nodes are asked for one after another, and for each
of them the stack machine takes steps until its stack is empty.  What the computations do is left
open: a `Behaviour` says what the computation of a frame may be at an attempt, and it may be
another one each time.  The evaluations of a graph over a context are histories in which the
computation of a frame is always that of its node (`Run.History.of_settleAll`).
-/

namespace FactScore

/-- What the computation of a frame may be when it is attempted. -/
abbrev Behaviour :=
  Frame → Computation Value → Prop

namespace Behaviour

/-- A computation may do anything, and something else at each attempt. -/
def any : Behaviour :=
  fun _ _ => True

/-- Each attempt follows the computation of the node over a context. -/
def ofContext (context : Context) : Behaviour :=
  fun frame computation => computation = frame.node.compute context

end Behaviour

namespace Run

/-- How a run comes to a state in which a step is taken: the nodes that were asked for so far, the
    run and its stack.  The next node is only asked for when the stack is empty. -/
inductive History (graph : Graph) (may : Behaviour) :
    List NodeId → Run → List Frame → Prop where
  | start : History graph may [] {} []
  /-- A node is asked for that has a value. -/
  | known {asked : List NodeId} {run : Run} {id : NodeId} {value : Value}
      (before : History graph may asked run [])
      (standing : run.standing graph id = .computed value) :
      History graph may (asked ++ [id]) run []
  /-- A node is asked for that was not worked on. -/
  | enter {asked : List NodeId} {run : Run} {id : NodeId} {node : Node}
      (before : History graph may asked run [])
      (standing : run.standing graph id = .unresolved node) :
      History graph may (asked ++ [id]) { run with active := run.active.insert id () }
        [{ id, node, pending := node.deps }]
  | step {asked : List NodeId} {run run' : Run} {stack stack' : List Frame}
      (compute : Frame → Computation Value) (before : History graph may asked run stack)
      (allowed : ∀ frame ∈ stack, may frame (compute frame))
      (next : Run.step graph compute run stack = .next run' stack') :
      History graph may asked run' stack'

/-- Some iterations of the loop, each with the computations as they are then. -/
def drive (graph : Graph) : Nat → (Nat → Frame → Computation Value) → Step → Step
  | 0, _, current => current
  | n + 1, computes, .next run stack =>
    drive graph n (fun i => computes (i + 1)) (step graph (computes 0) run stack)
  | _ + 1, _, ended => ended

namespace History

variable {graph : Graph} {context : Context} {may : Behaviour} {asked : List NodeId}
variable {run run' : Run} {stack stack' : List Frame}

/-- What the loop comes to from a state of a history belongs to that history. -/
theorem drive {computes : Nat → Frame → Computation Value}
    (h : History graph may asked run stack) (hmay : ∀ i frame, may frame (computes i frame))
    (n : Nat) (hdrive : Run.drive graph n computes (.next run stack) = .next run' stack') :
    History graph may asked run' stack' := by
  induction n generalizing computes run stack with
  | zero =>
    cases hdrive
    exact h
  | succ n ih =>
    simp only [Run.drive] at hdrive
    cases hstep : Run.step graph (computes 0) run stack with
    | next run₁ stack₁ =>
      rw [hstep] at hdrive
      exact ih (h.step _ (fun frame _ => hmay 0 frame) hstep) (fun i => hmay (i + 1)) hdrive
    | finished run₁ =>
      rw [hstep] at hdrive
      cases n <;> cases hdrive
    | stopped error run₁ =>
      rw [hstep] at hdrive
      cases n <;> cases hdrive

/-- What a run of the machine comes to is the end of a history. -/
theorem of_runStack {hsound : Sound graph run stack} {ending : Except GraphError Unit × Run}
    (h : History graph may asked run stack)
    (hmay : ∀ frame, may frame (frame.node.compute context))
    (hrun : runStack graph context run stack hsound = ending) :
    ∃ run₁ stack₁, History graph may asked run₁ stack₁ ∧
      (Run.step graph (fun frame => frame.node.compute context) run₁ stack₁).ending =
        some ending := by
  induction run, stack, hsound using runStack.induct graph context with
  | case1 run stack hsound run₁ hstep =>
    rw [runStack_of_finished hsound hstep] at hrun
    exact ⟨run, stack, h, by rw [hstep, ← hrun]; rfl⟩
  | case2 run stack hsound error run₁ hstep =>
    rw [runStack_of_stopped hsound hstep] at hrun
    exact ⟨run, stack, h, by rw [hstep, ← hrun]; rfl⟩
  | case3 run stack hsound run₁ stack₁ hstep ih =>
    rw [runStack_of_next hsound hstep] at hrun
    exact ih (h.step _ (fun frame _ => hmay frame) hstep) hrun

/-- A run of the machine that goes well ends a history with an empty stack. -/
theorem of_runStack_ok {hsound : Sound graph run stack} (h : History graph may asked run stack)
    (hmay : ∀ frame, may frame (frame.node.compute context))
    (hrun : runStack graph context run stack hsound = (.ok (), run')) :
    History graph may asked run' [] := by
  obtain ⟨run₁, stack₁, hhistory, hending⟩ := h.of_runStack hmay hrun
  cases hstep : Run.step graph (fun frame => frame.node.compute context) run₁ stack₁ with
  | next run₂ stack₂ => simp [hstep, Step.ending] at hending
  | finished run₂ =>
    obtain ⟨rfl, rfl⟩ := step_eq_finished hstep
    rw [hstep] at hending
    cases hending
    exact hhistory
  | stopped error run₂ => simp [hstep, Step.ending] at hending

/-- A node that is resolved goes on the history of what was asked for. -/
theorem of_settle_ok {id : NodeId} {value : Value} (h : History graph may asked run [])
    (hmay : ∀ frame, may frame (frame.node.compute context))
    (hsettle : run.settle graph context id = (.ok value, run')) :
    History graph may (asked ++ [id]) run' [] := by
  have hsettles := settles_settle graph context run id
  rw [hsettle] at hsettles
  cases hsettles with
  | known standing => exact h.known standing
  | found standing ran _ => exact (h.enter standing).of_runStack_ok hmay ran

/-- Evaluations are histories. -/
theorem of_settleAll {wanted : List NodeId} (h : History graph may asked run [])
    (hmay : ∀ frame, may frame (frame.node.compute context))
    (hsettle : settleAll graph context run wanted = .ok run') :
    History graph may (asked ++ wanted) run' [] := by
  induction wanted generalizing asked run with
  | nil =>
    cases hsettle
    rw [List.append_nil]
    exact h
  | cons id rest ih =>
    unfold settleAll at hsettle
    split at hsettle
    next value run₁ hid =>
      have hrest := ih (h.of_settle_ok hmay hid) hsettle
      rwa [List.append_assoc] at hrest
    next => cases hsettle

end History

end Run

end FactScore
