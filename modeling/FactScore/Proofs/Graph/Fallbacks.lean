import FactScore.Proofs.Graph.Consistency

/-!
# Fallbacks that are never needed

A computation relays errors if it only fails with errors that its look-ups were answered with, or
by saying that a node failed to compute (`Computation.Relays`).  In a graph of such computations
no deferred answer gets out of the machine: an attempt that was given one is dropped, so that it
is neither remembered nor returned.  Nor does the machine come to any of the places where it would
have to make up for a value that is not there (`Graph.fallbacks_unreachable`).
-/

namespace FactScore

namespace Computation

variable {α : Type}

/-- On every path, an error that a computation fails with was told of before, was the answer to a
    look-up, or says that a node failed to compute. -/
inductive Relays : (GraphError → Prop) → Computation α → Prop where
  | done {told : GraphError → Prop} (value : α) : Relays told (.done value)
  | told {told : GraphError → Prop} {error : GraphError} (h : told error) :
      Relays told (.fail error)
  | own {told : GraphError → Prop} (node : NodeId) (message : String) :
      Relays told (.fail (.compute node message))
  | lookup {told : GraphError → Prop} {id : NodeId}
      {resume : Except GraphError Value → Computation α}
      (each : ∀ answer, Relays (fun error => told error ∨ answer = .error error) (resume answer)) :
      Relays told (.lookup id resume)

/-- Where a computation is once its first look-ups were answered. -/
def after : Computation α → List (Except GraphError Value) → Computation α
  | .lookup _ resume, answer :: answers => (resume answer).after answers
  | computation, _ => computation

theorem relays_ofExcept {told : GraphError → Prop} {answer : Except GraphError α}
    (h : ∀ error, answer = .error error → told error) : (ofExcept answer).Relays told := by
  cases answer with
  | ok value => exact .done value
  | error error => exact .told (h error rfl)

theorem Relays.of_after {told : GraphError → Prop} {computation : Computation α}
    {answers : List (Except GraphError Value)} {error : GraphError}
    (h : computation.Relays told) (hfail : computation.after answers = .fail error) :
    told error ∨ (∃ node message, error = .compute node message) ∨ .error error ∈ answers := by
  induction h generalizing answers with
  | done value =>
    cases answers <;> cases hfail
  | told h =>
    cases answers <;> cases hfail <;> exact .inl h
  | own node message =>
    cases answers <;> cases hfail <;> exact .inr (.inl ⟨node, message, rfl⟩)
  | lookup each ih =>
    cases answers with
    | nil => cases hfail
    | cons answer answers =>
      rcases ih answer hfail with (htold | rfl) | hown | hmem
      · exact .inl htold
      · exact .inr (.inr List.mem_cons_self)
      · exact .inr (.inl hown)
      · exact .inr (.inr (List.mem_cons_of_mem _ hmem))

end Computation

namespace Run

/-- What the look-ups of an attempt are answered with, in order. -/
def answers (graph : Graph) (run : Run) (inputs : Inputs) :
    Computation Value → List (Except GraphError Value)
  | .done _ => []
  | .fail _ => []
  | .lookup id resume =>
    let answer := (run.lookUp graph inputs id).1
    answer :: answers graph run (run.lookUp graph inputs id).2 (resume answer)

/-- No remembered error is a deferred answer. -/
def Undeferred (run : Run) : Prop :=
  ∀ id target, run.failures.find? id ≠ some (.deferred target)

/-- No error that a step comes to is a deferred answer. -/
def Step.Undeferred : Step → Prop
  | .next run _ => run.Undeferred
  | .finished _ => True
  | .stopped error _ => ∀ target, error ≠ .deferred target

section

variable {graph : Graph} {run run' : Run} {inputs : Inputs} {computation : Computation Value}
variable {error : GraphError} {stack : List Frame} {last : Step} {id : NodeId}

/-- An attempt that fails does so where its answers lead. -/
theorem after_answers (h : run.attempt graph inputs computation = .failed error) :
    computation.after (answers graph run inputs computation) = .fail error := by
  induction computation generalizing inputs with
  | done value =>
    unfold attempt Inputs.conclude at h
    split at h <;> cases h
  | fail error' =>
    unfold attempt Inputs.conclude at h
    split at h
    next => cases h
    next =>
      cases h
      rfl
  | lookup id resume ih =>
    rw [attempt_lookup] at h
    exact ih _ h

theorem Undeferred.ne_refused (h : run.Undeferred) (target : NodeId) :
    run.standing graph id ≠ .refused (.deferred target) := by
  intro hstanding
  rcases standing_refused hstanding with hfailure | ⟨_, hcycle⟩ | ⟨_, hunknown⟩
  · exact h id target hfailure
  · cases hcycle
  · cases hunknown

/-- A deferred answer is only given when the attempt is given up with it. -/
theorem Undeferred.lookUp_deferred (h : run.Undeferred) {target : NodeId}
    (hanswer : (run.lookUp graph inputs id).1 = .error (.deferred target)) :
    ∃ first, (run.lookUp graph inputs id).2.deferred = some first := by
  unfold lookUp at hanswer ⊢
  split at hanswer
  next => cases hanswer
  next =>
    split at hanswer
    next => cases hanswer
    next error hstanding =>
      cases hanswer
      exact absurd hstanding (h.ne_refused target)
    next =>
      cases inputs.deferred with
      | none => exact ⟨id, rfl⟩
      | some first => exact ⟨first, rfl⟩

/-- An attempt that is not given up was not given a deferred answer. -/
theorem Undeferred.not_answered (h : run.Undeferred)
    (hwaiting : ∀ target, run.attempt graph inputs computation ≠ .waiting target)
    (target : NodeId) : .error (.deferred target) ∉ answers graph run inputs computation := by
  induction computation generalizing inputs with
  | done value => exact List.not_mem_nil
  | fail error => exact List.not_mem_nil
  | lookup id resume ih =>
    rw [attempt_lookup] at hwaiting
    intro hmem
    rcases List.mem_cons.mp hmem with hanswer | hmem
    · obtain ⟨first, hfirst⟩ := h.lookUp_deferred hanswer.symm
      exact hwaiting first (attempt_eq_waiting hfirst _)
    · exact ih _ hwaiting hmem

/-- An attempt at a computation that relays errors does not fail with a deferred answer. -/
theorem Undeferred.ne_failed (h : run.Undeferred)
    (hrelays : computation.Relays fun _ => False) (target : NodeId) :
    run.attempt graph inputs computation ≠ .failed (.deferred target) := by
  intro hfailed
  rcases hrelays.of_after (after_answers hfailed) with hfalse | ⟨_, _, hown⟩ | hanswer
  · exact hfalse
  · cases hown
  · exact h.not_answered (by simp [hfailed]) target hanswer

theorem Undeferred.unwinds (h : run.Undeferred) (herror : ∀ target, error ≠ .deferred target)
    (hunwinds : Unwinds error run stack last) : last.Undeferred := by
  induction hunwinds with
  | stop => exact herror
  | @caught run frame waiter rest waiting =>
    intro id target
    rw [Dict.find?_insert]
    split
    · simpa using herror target
    · exact h id target
  | through _ _ ih => exact ih h

/-- A step remembers no deferred answer, nor does it stop with one. -/
theorem Undeferred.step {compute : Frame → Computation Value} (h : run.Undeferred)
    (hrelays : ∀ frame ∈ stack, (compute frame).Relays fun _ => False) :
    (step graph compute run stack).Undeferred := by
  have hmoves := moves_step graph compute run stack
  generalize Run.step graph compute run stack = last at hmoves
  cases hmoves with
  | finish => trivial
  | skip => exact h
  | demand => exact h
  | refuse _ standing unwinds =>
    exact h.unwinds (fun target heq => h.ne_refused target (heq ▸ standing)) unwinds
  | complete => exact h
  | suspend => exact h
  | fail _ attempt unwinds =>
    have hcompute := hrelays _ List.mem_cons_self
    exact h.unwinds (fun target heq => h.ne_failed hcompute target (heq ▸ attempt)) unwinds

end

section

variable {graph : Graph} {context : Context} {asked : List NodeId} {run run' : Run}
variable {stack : List Frame} {id : NodeId}

/-- The computations of the nodes of a graph relay errors. -/
def RelaysAll (graph : Graph) (context : Context) : Prop :=
  ∀ id node, graph.find? id = some node → (node.compute context).Relays fun _ => False

/-- In a history over a context, a step comes to no deferred answer. -/
theorem History.undeferred_step (h : History graph (.ofContext context) asked run stack)
    (hundeferred : run.Undeferred) (hrelays : RelaysAll graph context)
    {compute : Frame → Computation Value}
    (hcompute : ∀ frame ∈ stack, Behaviour.ofContext context frame (compute frame)) :
    (Run.step graph compute run stack).Undeferred := by
  refine hundeferred.step fun frame hframe => ?_
  rw [hcompute frame hframe]
  exact hrelays frame.id frame.node (h.consistent.node_eq frame hframe)

theorem History.undeferred (h : History graph (.ofContext context) asked run stack)
    (hrelays : RelaysAll graph context) : run.Undeferred := by
  induction h with
  | start => simp [Undeferred]
  | known _ _ ih => exact ih
  | enter _ _ ih => exact ih
  | step compute before allowed next ih =>
    have hstep := before.undeferred_step ih hrelays allowed
    rw [next] at hstep
    exact hstep

/-- The machine does not stop with a deferred answer. -/
theorem History.runStack_undeferred {hsound : Sound graph run stack} {error : GraphError}
    {target : NodeId} (h : History graph (.ofContext context) asked run stack)
    (hrelays : RelaysAll graph context)
    (hrun : runStack graph context run stack hsound = (.error error, run')) :
    error ≠ .deferred target := by
  obtain ⟨run₁, stack₁, hhistory, hending⟩ := h.of_runStack (fun _ => rfl) hrun
  have hstep : (Run.step graph (fun frame => frame.node.compute context) run₁ stack₁).Undeferred :=
    hhistory.undeferred_step (hhistory.undeferred hrelays) hrelays fun _ _ => rfl
  generalize Run.step graph (fun frame => frame.node.compute context) run₁ stack₁ = last
    at hstep hending
  cases last with
  | next => cases hending
  | finished => cases hending
  | stopped error' run₂ =>
    cases hending
    exact hstep target

/-- Resolving a node does not fail with a deferred answer. -/
theorem History.settle_undeferred (h : History graph (.ofContext context) asked run [])
    (hrelays : RelaysAll graph context) (id target : NodeId) :
    (run.settle graph context id).1 ≠ .error (.deferred target) := by
  have hsettles := settles_settle graph context run id
  generalize run.settle graph context id = outcome at hsettles
  cases hsettles with
  | known => exact nofun
  | refused standing =>
    rintro ⟨⟩
    exact (h.undeferred hrelays).ne_refused target standing
  | stopped standing ran =>
    rintro ⟨⟩
    exact (h.enter standing).runStack_undeferred hrelays ran rfl
  | found => exact nofun

/-- An evaluation does not fail with a deferred answer. -/
theorem History.settleAll_undeferred (h : History graph (.ofContext context) asked run [])
    (hrelays : RelaysAll graph context) (wanted : List NodeId) (target : NodeId) :
    settleAll graph context run wanted ≠ .error (.deferred target) := by
  induction wanted generalizing asked run with
  | nil => exact nofun
  | cons id rest ih =>
    unfold settleAll
    split
    next value run₁ hsettle => exact ih (h.of_settle_ok (fun _ => rfl) hsettle)
    next error run₁ hsettle =>
      rintro ⟨⟩
      exact h.settle_undeferred hrelays id target (by rw [hsettle])

/-- The attempt at a frame that has nothing more to ask for is given the values of all that its
    node declares. -/
theorem Consistent.exists_declared {frame : Frame} {rest : List Frame}
    (h : Consistent graph none run (frame :: rest)) (hpending : frame.pending = []) {dep : NodeId}
    (hdep : dep ∈ frame.node.deps) :
    ∃ value, run.results.find? dep = some value ∧
      (run.declared frame.node).values.find? dep = some value := by
  obtain ⟨value, hvalue⟩ :=
    Option.isSome_iff_exists.mp (h.linked.1.contains_dep hpending hdep)
  refine ⟨value, hvalue, ?_⟩
  rw [declared, Dict.find?_ofList_map, if_pos hdep, hvalue]
  rfl

end

end Run

/-- In a graph whose computations relay errors, no evaluation fails with a deferred answer, and
    from every state that it can come to: when the machine is through with a node, that has a
    value; an attempt is given the values of all declared dependencies; it is given no deferred
    answer unless it is given up; and then the node that it waits for can be put on the stack. -/
theorem Graph.fallbacks_unreachable {graph : Graph} {context : Context}
    (hrelays : Run.RelaysAll graph context) :
    (∀ wanted target, graph.evaluate context wanted ≠ .error (.deferred target)) ∧
    ∀ asked run stack, Run.History graph (.ofContext context) asked run stack →
      (stack = [] → ∀ id node (hstanding : run.standing graph id = .unresolved node) run',
        Run.runStack graph context { run with active := run.active.insert id () }
            [{ id, node, pending := node.deps }] (Run.Sound.nil.push hstanding) = (.ok (), run') →
          ∃ value, run'.results.find? id = some value) ∧
      ∀ frame rest, stack = frame :: rest → frame.pending = [] →
        (∀ dep ∈ frame.node.deps, ∃ value, run.results.find? dep = some value ∧
          (run.declared frame.node).values.find? dep = some value) ∧
        ((∀ target, run.attempt graph (run.declared frame.node) (frame.node.compute context) ≠
            .waiting target) →
          ∀ target, .error (.deferred target) ∉ run.answers graph (run.declared frame.node)
            (frame.node.compute context)) ∧
        ∀ target, run.attempt graph (run.declared frame.node) (frame.node.compute context) =
            .waiting target →
          ∃ node, Run.demand graph run ({ frame with waitingFor := some target } :: rest) target =
            Run.push run ({ frame with waitingFor := some target } :: rest) target node := by
  refine ⟨fun wanted target => ?_, fun asked run stack h => ⟨?_, ?_⟩⟩
  · intro hevaluate
    unfold Graph.evaluate at hevaluate
    cases hsettle : Run.settleAll graph context {} wanted with
    | ok run =>
      rw [hsettle] at hevaluate
      cases hevaluate
    | error error =>
      rw [hsettle] at hevaluate
      cases hevaluate
      exact Run.History.start.settleAll_undeferred hrelays wanted target hsettle
  · rintro rfl id node hstanding run' hrun
    exact Run.exists_result_of_runStack (.inl (.of_top _)) hrun
  · rintro frame rest rfl hpending
    refine ⟨fun dep hdep => h.consistent.exists_declared hpending hdep,
      (h.undeferred hrelays).not_answered, fun target hattempt => ?_⟩
    obtain ⟨node, _, hdemand⟩ := Run.demand_of_waiting hattempt _
    exact ⟨node, hdemand⟩

/-- A node that keeps the answer to its first look-up, and hands it out after another one. -/
def stashingNode : Node where
  deps := ["base"]
  compute := fun _ => .lookup "raw" fun answer => .lookup "side" fun _ => .ofExcept answer

def stashingGraph : Graph where
  nodes := .ofList
    [("base", { compute := fun _ => .done (.text "b") }),
      ("raw", { compute := fun _ => .fail (.compute "raw" "no data") }),
      ("side", { compute := fun _ => .done .missing }),
      ("top", stashingNode)]

theorem fallbacks_unreachable_stashingGraph :
    (∀ wanted target, stashingGraph.evaluate .empty wanted ≠ .error (.deferred target)) ∧
    ∃ run node, Run.History stashingGraph (.ofContext .empty) ["top"] run
        [{ id := "top", node := stashingNode, pending := [] }] ∧
      run.attempt stashingGraph (run.declared stashingNode) (stashingNode.compute .empty) =
        .waiting "raw" ∧
      Run.demand stashingGraph run
          [{ id := "top", node := stashingNode, pending := [], waitingFor := some "raw" }] "raw" =
        Run.push run
          [{ id := "top", node := stashingNode, pending := [], waitingFor := some "raw" }] "raw"
          node := by
  have hrelays : Run.RelaysAll stashingGraph .empty := by
    intro id node hfind
    have hmem := Dict.mem_of_find?_ofList hfind
    simp only [List.mem_cons, List.not_mem_nil, or_false, Prod.mk.injEq] at hmem
    rcases hmem with ⟨-, rfl⟩ | ⟨-, rfl⟩ | ⟨-, rfl⟩ | ⟨-, rfl⟩
    · exact .done _
    · exact .own "raw" "no data"
    · exact .done _
    · refine .lookup fun answer => .lookup fun _ => Computation.relays_ofExcept fun error heq => ?_
      exact .inl (.inr heq)
  have hentered : Run.History stashingGraph (.ofContext .empty) ["top"] _ _ :=
    Run.History.start.enter
      (show Run.standing stashingGraph {} "top" = .unresolved stashingNode from rfl)
  have hdrive : ∃ run, Run.drive stashingGraph 2 (fun _ frame => frame.node.compute .empty)
        (Run.push {} [] "top" stashingNode) =
          .next run [{ id := "top", node := stashingNode, pending := [] }] ∧
      run.attempt stashingGraph (run.declared stashingNode) (stashingNode.compute .empty) =
        .waiting "raw" := ⟨_, rfl, rfl⟩
  obtain ⟨run, hdrive, hattempt⟩ := hdrive
  have hhistory := hentered.drive (fun _ _ => rfl) 2 hdrive
  obtain ⟨hevaluate, hstates⟩ := Graph.fallbacks_unreachable hrelays
  obtain ⟨node, hdemand⟩ := ((hstates _ _ _ hhistory).2 _ _ rfl rfl).2.2 "raw" hattempt
  exact ⟨hevaluate, run, node, hhistory, hattempt, hdemand⟩

end FactScore
