import FactScore.Proofs.Graph.Refinement

/-!
# Moves of the stack machine

What one step of the machine can do, said once: `Run.Moves` has a case for each way in which an
iteration can go, and `Run.Unwinds` one for each thing that can happen to a frame that is given up.
What a step keeps is proved by cases on these.  Within an attempt, what a look-up does is
`Run.lookUp`.
-/

namespace FactScore

namespace Run

/-- The answer to a look-up, and what the attempt has read then. -/
def lookUp (graph : Graph) (run : Run) (inputs : Inputs) (id : NodeId) :
    Except GraphError Value × Inputs :=
  match inputs.values.find? id with
  | some value => (.ok value, inputs)
  | none =>
    match run.standing graph id with
    | .computed value =>
      (.ok value,
        { inputs with values := inputs.values.insert id value, adHoc := inputs.adHoc ++ [id] })
    | .refused error => (.error error, inputs)
    | .unresolved _ =>
      (.error (.deferred id), { inputs with deferred := inputs.deferred.or (some id) })

theorem attempt_lookup (graph : Graph) (run : Run) (inputs : Inputs) (id : NodeId)
    (resume : Except GraphError Value → Computation Value) :
    run.attempt graph inputs (.lookup id resume) =
      run.attempt graph (run.lookUp graph inputs id).2
        (resume (run.lookUp graph inputs id).1) := by
  rw [attempt, lookUp]
  cases inputs.values.find? id with
  | some value => rfl
  | none => cases run.standing graph id <;> rfl

/-- What giving up the frames of a stack with an error can come to. -/
inductive Unwinds (error : GraphError) : Run → List Frame → Step → Prop where
  /-- No frame is left. -/
  | stop {run : Run} : Unwinds error run [] (.stopped error run)
  /-- The frame below waits for the node of the frame that is taken off, and gets the error. -/
  | caught {run : Run} {frame waiter : Frame} {rest : List Frame}
      (waiting : waiter.waitingFor = some frame.id) :
      Unwinds error run (frame :: waiter :: rest)
        (.next { run with
          failures := run.failures.insert frame.id error
          active := run.active.erase frame.id } (waiter :: rest))
  /-- No frame below waits for the node of the frame that is taken off. -/
  | through {run : Run} {frame : Frame} {rest : List Frame} {last : Step}
      (waiting : ∀ waiter ∈ rest.head?, waiter.waitingFor ≠ some frame.id)
      (below : Unwinds error { run with active := run.active.erase frame.id } rest last) :
      Unwinds error run (frame :: rest) last

/-- What a step can come to. -/
inductive Moves (graph : Graph) (compute : Frame → Computation Value) (run : Run) :
    List Frame → Step → Prop where
  | finish : Moves graph compute run [] (.finished run)
  /-- The next declared dependency has a value. -/
  | skip {frame : Frame} {rest : List Frame} {dep : NodeId} {deps : List NodeId} {value : Value}
      (pending : frame.pending = dep :: deps)
      (standing : run.standing graph dep = .computed value) :
      Moves graph compute run (frame :: rest) (.next run ({ frame with pending := deps } :: rest))
  /-- The next declared dependency was not worked on. -/
  | demand {frame : Frame} {rest : List Frame} {dep : NodeId} {deps : List NodeId} {node : Node}
      (pending : frame.pending = dep :: deps)
      (standing : run.standing graph dep = .unresolved node) :
      Moves graph compute run (frame :: rest)
        (push run ({ frame with pending := deps } :: rest) dep node)
  /-- The next declared dependency cannot be had. -/
  | refuse {frame : Frame} {rest : List Frame} {dep : NodeId} {deps : List NodeId}
      {error : GraphError} {last : Step} (pending : frame.pending = dep :: deps)
      (standing : run.standing graph dep = .refused error)
      (unwinds : Unwinds error run (frame :: rest) last) :
      Moves graph compute run (frame :: rest) last
  /-- The computation comes to a value. -/
  | complete {frame : Frame} {rest : List Frame} {value : Value} {inputs : Inputs}
      (pending : frame.pending = [])
      (attempt : run.attempt graph (run.declared frame.node) (compute frame) =
        .done value inputs) :
      Moves graph compute run (frame :: rest) (.next (run.complete frame value inputs) rest)
  /-- The computation looks up a node that was not worked on. -/
  | suspend {frame : Frame} {rest : List Frame} {target : NodeId} {node : Node}
      (pending : frame.pending = [])
      (attempt : run.attempt graph (run.declared frame.node) (compute frame) = .waiting target)
      (standing : run.standing graph target = .unresolved node) :
      Moves graph compute run (frame :: rest)
        (push run ({ frame with waitingFor := some target } :: rest) target node)
  /-- The computation fails. -/
  | fail {frame : Frame} {rest : List Frame} {error : GraphError} {last : Step}
      (pending : frame.pending = [])
      (attempt : run.attempt graph (run.declared frame.node) (compute frame) = .failed error)
      (unwinds : Unwinds error run (frame :: rest) last) :
      Moves graph compute run (frame :: rest) last

variable {graph : Graph} {compute : Frame → Computation Value} {run run' : Run}

theorem unwinds_abandon (run : Run) (error : GraphError) (stack : List Frame) :
    Unwinds error run stack (abandon run error stack) := by
  induction stack generalizing run with
  | nil => exact .stop
  | cons frame rest ih =>
    cases rest with
    | nil => exact .through (by simp) .stop
    | cons waiter below =>
      by_cases hwaiting : waiter.waitingFor = some frame.id
      · rw [abandon_waiting hwaiting]
        exact .caught hwaiting
      · rw [abandon_not_waiting hwaiting]
        exact .through (by simpa using hwaiting) (ih _)

/-- An attempt that waits does so for a node that was not worked on, and that is put on the stack
    when it is demanded. -/
theorem demand_of_waiting {node : Node} {computation : Computation Value} {target : NodeId}
    (h : run.attempt graph (run.declared node) computation = .waiting target)
    (stack : List Frame) :
    ∃ node, run.standing graph target = .unresolved node ∧
      demand graph run stack target = push run stack target node := by
  obtain ⟨node, hstanding⟩ := attempt_waiting (by simp [declared]) h
  refine ⟨node, hstanding, ?_⟩
  rw [demand, hstanding]

theorem moves_step (graph : Graph) (compute : Frame → Computation Value) (run : Run)
    (stack : List Frame) : Moves graph compute run stack (step graph compute run stack) := by
  unfold step
  split
  · exact .finish
  next frame rest =>
    split
    next dep deps hpending =>
      unfold demand
      split
      next value hstanding => exact .skip hpending hstanding
      next error hstanding =>
        rw [abandon_congr frame { frame with pending := deps } rfl]
        exact .refuse hpending hstanding (unwinds_abandon ..)
      next node hstanding => exact .demand hpending hstanding
    next hpending =>
      split
      next value inputs hattempt => exact .complete hpending hattempt
      next target hattempt =>
        obtain ⟨node, hstanding, hdemand⟩ := demand_of_waiting hattempt
          ({ frame with waitingFor := some target } :: rest)
        rw [hdemand]
        exact .suspend hpending hattempt hstanding
      next error hattempt =>
        rw [abandon_congr frame { frame with waitingFor := none } rfl]
        exact .fail hpending hattempt (unwinds_abandon ..)

/-- What is given up is not finished. -/
theorem Unwinds.ne_finished {error : GraphError} {stack : List Frame} {last : Step}
    (h : Unwinds error run stack last) : last ≠ .finished run' := by
  induction h with
  | stop => exact nofun
  | caught => exact nofun
  | through _ _ ih => exact ih

/-- The machine only finishes with an empty stack. -/
theorem step_eq_finished {stack : List Frame} (h : step graph compute run stack = .finished run') :
    stack = [] ∧ run' = run := by
  have hmoves := moves_step graph compute run stack
  rw [h] at hmoves
  cases hmoves with
  | finish => exact ⟨rfl, rfl⟩
  | refuse _ _ unwinds => exact absurd rfl unwinds.ne_finished
  | fail _ _ unwinds => exact absurd rfl unwinds.ne_finished

section

variable {graph : Graph} {context : Context} {run run₁ : Run} {stack stack₁ : List Frame}

theorem runStack_of_finished (hsound : Sound graph run stack)
    (h : Run.step graph (fun frame => frame.node.compute context) run stack = .finished run₁) :
    runStack graph context run stack hsound = (.ok (), run₁) :=
  runStack_eq_of_leads hsound (leads_of_step .refl) (h ▸ rfl)

theorem runStack_of_stopped (hsound : Sound graph run stack) {error : GraphError}
    (h : Run.step graph (fun frame => frame.node.compute context) run stack =
      .stopped error run₁) :
    runStack graph context run stack hsound = (.error error, run₁) :=
  runStack_eq_of_leads hsound (leads_of_step .refl) (h ▸ rfl)

theorem runStack_of_next (hsound : Sound graph run stack)
    (h : Run.step graph (fun frame => frame.node.compute context) run stack =
      .next run₁ stack₁) :
    runStack graph context run stack hsound =
      runStack graph context run₁ stack₁ (hsound.step h) := by
  rw [runStack]
  split
  next hstep => cases h.symm.trans hstep
  next hstep => cases h.symm.trans hstep
  next hstep =>
    cases h.symm.trans hstep
    rfl

end

end Run

end FactScore
