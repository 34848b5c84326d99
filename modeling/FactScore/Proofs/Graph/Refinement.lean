import FactScore.Proofs.Graph.Growth

/-!
# The stack machine refines recursion

The stack machine suspends a computation at a look-up it cannot answer, drops what it has read,
and attempts it again from the start later.  Recursive evaluation follows each computation once.
Both come to the same evaluation (`Graph.evaluate_eq_evaluateRecursively`): between two attempts
the memory only grows, so the second attempt is answered as the first one was up to the look-up
where that was given up.
-/

namespace FactScore

namespace Run

/-- What a run that has come to an end comes to. -/
def Step.ending : Step → Option (Except GraphError Unit × Run)
  | .next _ _ => none
  | .finished run => some (.ok (), run)
  | .stopped error run => some (.error error, run)

/-- One step of the machine. -/
inductive Goes (graph : Graph) (context : Context) : Step → Step → Prop where
  | next (run : Run) (stack : List Frame) :
      Goes graph context (.next run stack)
        (step graph (fun frame => frame.node.compute context) run stack)

/-- Any number of steps of the machine. -/
abbrev Leads (graph : Graph) (context : Context) : Step → Step → Prop :=
  Relation.ReflTransGen (Goes graph context)

section

variable {graph : Graph} {context : Context} {run : Run} {stack rest : List Frame}

theorem leads_of_step {last : Step}
    (h : Leads graph context (step graph (fun frame => frame.node.compute context) run stack)
      last) : Leads graph context (.next run stack) last :=
  .head (.next run stack) h

/-- Where the steps end is what the run comes to. -/
theorem runStack_eq_of_leads {last : Step} {ending : Except GraphError Unit × Run}
    (hsound : Sound graph run stack) (h : Leads graph context (.next run stack) last)
    (hlast : last.ending = some ending) : runStack graph context run stack hsound = ending := by
  generalize hfirst : Step.next run stack = first at h
  induction h using Relation.ReflTransGen.head_induction_on generalizing run stack with
  | refl =>
    subst hfirst
    cases hlast
  | head hgoes hleads ih =>
    cases hgoes with
    | next run' stack' =>
      cases hfirst
      rw [runStack]
      split
      next run₁ hstep =>
        rw [hstep] at hleads
        rcases hleads.cases_head with rfl | ⟨_, hgoes, _⟩
        · exact Option.some.inj hlast
        · cases hgoes
      next error run₁ hstep =>
        rw [hstep] at hleads
        rcases hleads.cases_head with rfl | ⟨_, hgoes, _⟩
        · exact Option.some.inj hlast
        · cases hgoes
      next run₁ stack₁ hstep => exact ih (hsound.step hstep) hstep.symm

/-- Only the id of the top frame counts when it is given up. -/
theorem abandon_congr (frame frame' : Frame) (hid : frame'.id = frame.id) (error : GraphError) :
    abandon run error (frame' :: rest) = abandon run error (frame :: rest) := by
  simp only [abandon, hid]

theorem abandon_waiting {frame waiter : Frame} (h : waiter.waitingFor = some frame.id)
    (error : GraphError) :
    abandon run error (frame :: waiter :: rest) =
      .next { run with
        failures := run.failures.insert frame.id error
        active := run.active.erase frame.id } (waiter :: rest) := by
  conv => lhs; unfold abandon
  simp only [if_pos h]

theorem abandon_not_waiting {frame waiter : Frame} (h : waiter.waitingFor ≠ some frame.id)
    (error : GraphError) :
    abandon run error (frame :: waiter :: rest) =
      abandon { run with active := run.active.erase frame.id } error (waiter :: rest) := by
  conv => lhs; unfold abandon
  simp only [if_neg h]

/-- An attempt that was given a deferred answer waits for the first node that it was given one
    for, whatever the computation makes of the answers. -/
theorem attempt_eq_waiting {inputs : Inputs} {target : NodeId}
    (h : inputs.deferred = some target) (computation : Computation Value) :
    run.attempt graph inputs computation = .waiting target := by
  induction computation generalizing inputs with
  | done value => simp [attempt, Inputs.conclude, h]
  | fail error => simp [attempt, Inputs.conclude, h]
  | lookup id resume ih =>
    unfold attempt
    split
    next => exact ih _ h
    next =>
      split
      next => exact ih _ h
      next => exact ih _ h
      next =>
        refine ih _ ?_
        simp [h]

end

end Run

/-- What was read, as the inputs of an attempt that was given no deferred answer. -/
def Reading.inputs (reading : Reading) : Inputs where
  values := reading.values
  adHoc := reading.adHoc

namespace Memory

section

variable {graph : Graph} {callers : List NodeId} {memory memory' : Memory} {id : NodeId}
variable {node : Node} {reading : Reading}

/-- While the memory grows, a node that could be answered for is answered for alike. -/
theorem Grows.standing_eq (h : Grows graph callers memory memory')
    (hresolved : ∀ node, (memory.run callers).standing graph id ≠ .unresolved node) :
    (memory'.run callers).standing graph id = (memory.run callers).standing graph id := by
  obtain ⟨hresult, hfailure⟩ := h.known fun node pending =>
    hresolved node (standing_eq_unresolved_iff.mpr pending)
  have hresult : (memory'.run callers).results.find? id = (memory.run callers).results.find? id :=
    hresult
  have hfailure : (memory'.run callers).failures.find? id =
      (memory.run callers).failures.find? id := hfailure
  simp only [Run.standing, hresult, hfailure, contains_active]

theorem active_erase (hid : id ∉ callers) :
    (memory.run (id :: callers)).active.erase id = (memory.run callers).active := by
  refine Dict.ext fun other => ?_
  simp only [run, Entries.find?_erase, Dict.find?_insertKeys, Entries.find?_nil, List.mem_cons]
  by_cases hother : other = id
  · subst hother
    simp [hid]
  · simp [hother]

theorem active_insert :
    (memory.run callers).active.insert id () = (memory.run (id :: callers)).active := by
  refine Dict.ext fun other => ?_
  simp only [run, Dict.find?_insert, Dict.find?_insertKeys, Entries.find?_nil, List.mem_cons]
  by_cases hother : other = id
  · simp [hother]
  · simp [hother]

/-- Taking a node off the stack takes it off the call stack. -/
theorem run_erase (hid : id ∉ callers) :
    { memory.run (id :: callers) with active := (memory.run (id :: callers)).active.erase id } =
      memory.run callers := by
  rw [active_erase hid]
  rfl

/-- Putting a node on the stack puts it on the call stack. -/
theorem push_run (stack : List Frame) :
    Run.push (memory.run callers) stack id node =
      .next (memory.run (id :: callers)) ({ id, node, pending := node.deps } :: stack) := by
  unfold Run.push
  rw [active_insert]
  rfl

/-- Completing the top of the stack completes its node. -/
theorem complete_run (hid : id ∉ callers) (value : Value) (reading : Reading) :
    (memory.run (id :: callers)).complete { id, node, pending := [] } value reading.inputs =
      (memory.complete id node value reading).run callers := by
  unfold Run.complete
  rw [active_erase hid]
  rfl

/-- The declared dependencies have the same values later, once they have any. -/
theorem Grows.declared_eq (h : Grows graph callers memory memory')
    (hdeps : ∀ dep ∈ node.deps, ∃ value, memory.results.find? dep = some value) :
    (memory'.run callers).declared node = (memory.declared node).inputs := by
  have hvalues : node.deps.map (fun dep => (dep, (memory'.results.find? dep).getD .missing)) =
      node.deps.map fun dep => (dep, (memory.results.find? dep).getD .missing) := by
    refine List.map_congr_left fun dep hdep => ?_
    obtain ⟨value, hvalue⟩ := hdeps dep hdep
    rw [hvalue, h.find?_results hvalue]
  change ({ values := .ofList _ } : Inputs) = { values := .ofList _ }
  exact congrArg (fun pairs => ({ values := .ofList pairs } : Inputs)) hvalues

/-- A look-up of a node that was read goes on with what was read. -/
theorem attempt_read {run : Run} {value : Value} (hvalue : reading.values.find? id = some value)
    (resume : Except GraphError Value → Computation Value) :
    run.attempt graph reading.inputs (.lookup id resume) =
      run.attempt graph reading.inputs (resume (.ok value)) := by
  have hinputs : reading.inputs.values.find? id = some value := hvalue
  rw [Run.attempt, hinputs]

/-- A look-up of a node that was not read goes on, or is given up, as the node stands. -/
theorem attempt_not_read {run : Run} (hvalue : reading.values.find? id = none)
    (resume : Except GraphError Value → Computation Value) :
    run.attempt graph reading.inputs (.lookup id resume) =
      match run.standing graph id with
      | .computed value => run.attempt graph (reading.add id value).inputs (resume (.ok value))
      | .refused error => run.attempt graph reading.inputs (resume (.error error))
      | .unresolved _ => .waiting id := by
  have hinputs : reading.inputs.values.find? id = none := hvalue
  rw [Run.attempt, hinputs]
  cases run.standing graph id with
  | computed value => rfl
  | refused error => rfl
  | unresolved node => exact Run.attempt_eq_waiting rfl _

end

/-- Where the machine goes once the node on top of its stack has come to an outcome. -/
def outcomeStep (callers : List NodeId) (frame : Frame) (rest : List Frame) :
    Except GraphError Value × Memory → Run.Step
  | (.ok _, memory) => .next (memory.run callers) rest
  | (.error error, memory) => Run.abandon (memory.run (frame.id :: callers)) error (frame :: rest)

/-- From a pending node that was put on the stack, the machine comes to the outcome that the
    recursive evaluation of the node has. -/
def Simulated (graph : Graph) (context : Context) (callers : List NodeId) : Prop :=
  ∀ memory id node rest, Pending graph callers memory id node →
    Run.Leads graph context
      (.next (memory.run (id :: callers)) ({ id, node, pending := node.deps } :: rest))
      (outcomeStep callers { id, node, pending := node.deps } rest
        (computeNode (resolve graph context (id :: callers)) context memory id node))

section

variable {graph : Graph} {context : Context} {callers : List NodeId} {memory : Memory}
variable {frame waiter : Frame} {rest : List Frame} {id : NodeId} {error : GraphError}

/-- An error goes through a frame that does not wait for the failed node. -/
theorem outcomeStep_error (hid : frame.id ∉ callers) (hwaiting : waiter.waitingFor = none) :
    outcomeStep callers frame (waiter :: rest) (.error error, memory) =
      Run.abandon (memory.run callers) error (waiter :: rest) := by
  have hne : waiter.waitingFor ≠ some frame.id := by simp [hwaiting]
  change Run.abandon (memory.run (frame.id :: callers)) error (frame :: waiter :: rest) = _
  rw [Run.abandon_not_waiting hne, run_erase hid]

/-- An error ends at a frame that waits for the failed node, and is remembered. -/
theorem outcomeStep_error_waiting (hid : frame.id ∉ callers)
    (hwaiting : waiter.waitingFor = some frame.id) :
    outcomeStep callers frame (waiter :: rest) (.error error, memory) =
      .next ((memory.remember frame.id error).run callers) (waiter :: rest) := by
  change Run.abandon (memory.run (frame.id :: callers)) error (frame :: waiter :: rest) = _
  rw [Run.abandon_waiting hwaiting, active_erase hid]
  rfl

/-- The machine demands a node for a frame that does not wait for it: an error of the node is one
    of the frame. -/
theorem leads_demand (hsimulated : Simulated graph context callers)
    (hwaiting : frame.waitingFor = none) :
    Run.Leads graph context (Run.demand graph (memory.run callers) (frame :: rest) id)
      (match resolve graph context callers .demand memory id with
      | (.ok _, memory') => .next (memory'.run callers) (frame :: rest)
      | (.error error, memory') => Run.abandon (memory'.run callers) error (frame :: rest)) := by
  rw [resolve_eq]
  unfold Run.demand
  cases hstanding : (memory.run callers).standing graph id with
  | computed value => exact .refl
  | refused error => exact .refl
  | unresolved node =>
    have pending := standing_eq_unresolved_iff.mp hstanding
    have hleads := hsimulated memory id node (frame :: rest) pending
    simp only [push_run]
    generalize computeNode (resolve graph context (id :: callers)) context memory id node =
      outcome at hleads ⊢
    obtain ⟨error | value, memory'⟩ := outcome
    · rw [outcomeStep_error pending.not_caller hwaiting] at hleads
      exact hleads
    · exact hleads

/-- The machine demands a node for a frame that waits for it: an error of the node is remembered,
    and the frame goes on. -/
theorem leads_demand_waiting (hsimulated : Simulated graph context callers)
    (hwaiting : frame.waitingFor = some id) {node : Node}
    (hstanding : (memory.run callers).standing graph id = .unresolved node) :
    Run.Leads graph context (Run.demand graph (memory.run callers) (frame :: rest) id)
      (.next ((resolve graph context callers .lookup memory id).2.run callers)
        (frame :: rest)) := by
  have pending := standing_eq_unresolved_iff.mp hstanding
  have hleads := hsimulated memory id node (frame :: rest) pending
  rw [resolve_eq]
  unfold Run.demand
  simp only [hstanding, push_run]
  generalize computeNode (resolve graph context (id :: callers)) context memory id node =
    outcome at hleads ⊢
  obtain ⟨error | value, memory'⟩ := outcome
  · rw [outcomeStep_error_waiting pending.not_caller hwaiting] at hleads
    exact hleads
  · exact hleads

/-- The machine resolves the dependencies of the top frame. -/
theorem leads_deps (hsimulated : Simulated graph context callers) (frame : Frame)
    (rest : List Frame) (hwaiting : frame.waitingFor = none) (deps : List NodeId) :
    Run.Leads graph context (.next (memory.run callers) ({ frame with pending := deps } :: rest))
      (match resolveDeps (resolve graph context callers .demand) memory deps with
      | (.ok (), memory') => .next (memory'.run callers) ({ frame with pending := [] } :: rest)
      | (.error error, memory') => Run.abandon (memory'.run callers) error (frame :: rest)) := by
  induction deps generalizing memory with
  | nil => exact .refl
  | cons dep deps ih =>
    refine Run.leads_of_step ?_
    have hdemand : Run.Leads graph context
        (Run.demand graph (memory.run callers) ({ frame with pending := deps } :: rest) dep) _ :=
      leads_demand hsimulated hwaiting
    unfold resolveDeps
    change Run.Leads graph context
      (Run.demand graph (memory.run callers) ({ frame with pending := deps } :: rest) dep) _
    generalize resolve graph context callers .demand memory dep = outcome at hdemand ⊢
    obtain ⟨error | value, memory'⟩ := outcome
    · simp only at hdemand ⊢
      rw [Run.abandon_congr frame { frame with pending := deps } rfl] at hdemand
      exact hdemand
    · exact hdemand.trans ih

/-- After a look-up, a node stands as the look-up was answered. -/
theorem standing_of_lookup {memory' : Memory} {outcome : Except GraphError Value}
    (h : resolve graph context callers .lookup memory id = (outcome, memory')) :
    (memory'.run callers).standing graph id =
      match outcome with
      | .ok value => .computed value
      | .error error => .refused error := by
  have hresolves := resolve_grows graph context callers .lookup
  obtain error | value := outcome
  · rw [resolve_eq] at h
    cases hstanding : (memory.run callers).standing graph id with
    | computed value => simp [hstanding] at h
    | refused error' =>
      simp only [hstanding, Prod.mk.injEq, Except.error.injEq] at h
      obtain ⟨rfl, rfl⟩ := h
      exact hstanding
    | unresolved node =>
      have pending := standing_eq_unresolved_iff.mp hstanding
      simp only [hstanding] at h
      split at h
      next => cases h
      next error' memory₁ hnode =>
        cases h
        have hgrows := computeNode_error_grows (resolve_grows graph context (id :: callers)) hnode
        have hresult := (pending.grow hgrows).no_result
        simp [Run.standing, run, noteFailure, remember, hresult]
  · have hvalue : (memory'.run callers).results.find? id = some value := hresolves.settles h
    simp only [Run.standing, hvalue]

/-- At a look-up, either the attempt in hand is answered, or it is given up for one that is. -/
theorem leads_lookup (hsimulated : Simulated graph context callers) (id : NodeId)
    (rest : List Frame) (waiting : Option NodeId) {memory' : Memory} {node : Node}
    {reading : Reading} {source : NodeId}
    {resume : Except GraphError Value → Computation Value} {outcome : Except GraphError Value}
    (hattempt : (memory.run callers).attempt graph ((memory.run callers).declared node)
        (node.compute context) =
      (memory.run callers).attempt graph reading.inputs (.lookup source resume))
    (hvalue : reading.values.find? source = none)
    (hresolve : resolve graph context callers .lookup memory source = (outcome, memory')) :
    ∃ waiting', Run.Leads graph context
      (.next (memory.run callers) ({ id, node, pending := [], waitingFor := waiting } :: rest))
      (.next (memory'.run callers)
        ({ id, node, pending := [], waitingFor := waiting' } :: rest)) := by
  cases hstanding : (memory.run callers).standing graph source with
  | computed value =>
    rw [resolve_eq, hstanding] at hresolve
    cases hresolve
    exact ⟨waiting, .refl⟩
  | refused error =>
    rw [resolve_eq, hstanding] at hresolve
    cases hresolve
    exact ⟨waiting, .refl⟩
  | unresolved node' =>
    have hdemand : Run.Leads graph context
        (Run.demand graph (memory.run callers)
          ({ id, node, pending := [], waitingFor := some source } :: rest) source) _ :=
      leads_demand_waiting hsimulated rfl hstanding
    rw [hresolve] at hdemand
    refine ⟨some source, Run.leads_of_step ?_⟩
    simp only [Run.step, hattempt, attempt_not_read hvalue, hstanding]
    exact hdemand

/-- The machine attempts the computation of the top frame until an attempt comes to an end.  Each
    attempt starts anew; `hreplay` says that, however much is known by then, it gets to where the
    recursive evaluation is. -/
theorem leads_follow (hsimulated : Simulated graph context callers) (id : NodeId)
    (rest : List Frame) {node : Node} (computation : Computation Value) (reading : Reading)
    (waiting : Option NodeId)
    (hreplay : ∀ memory', Grows graph callers memory memory' →
      (memory'.run callers).attempt graph ((memory'.run callers).declared node)
          (node.compute context) =
        (memory'.run callers).attempt graph reading.inputs computation) :
    Run.Leads graph context
      (.next (memory.run callers) ({ id, node, pending := [], waitingFor := waiting } :: rest))
      (match follow (resolve graph context callers .lookup) memory reading computation with
      | (.ok (value, reading'), memory') =>
        .next ((memory'.run callers).complete { id, node, pending := [] } value reading'.inputs)
          rest
      | (.error error, memory') =>
        Run.abandon (memory'.run callers) error ({ id, node, pending := [] } :: rest)) := by
  induction computation generalizing memory reading waiting with
  | done value =>
    refine Run.leads_of_step ?_
    simp only [Run.step, hreplay memory .refl]
    exact .refl
  | fail error =>
    refine Run.leads_of_step ?_
    simp only [Run.step, hreplay memory .refl]
    exact .refl
  | lookup source resume ih =>
    unfold follow
    cases hvalue : reading.values.find? source with
    | some value =>
      refine ih _ reading waiting fun memory' hgrows => ?_
      rw [hreplay memory' hgrows, attempt_read hvalue]
    | none =>
      simp only
      generalize hresolve : resolve graph context callers .lookup memory source = outcome
      obtain ⟨outcome, memory₁⟩ := outcome
      obtain ⟨waiting', hleads⟩ := leads_lookup hsimulated id rest waiting (hreplay memory .refl)
        hvalue hresolve
      refine hleads.trans ?_
      have hgrows₁ := (resolve_grows graph context callers .lookup).grows hresolve
      have hstanding := standing_of_lookup hresolve
      have hreplay₁ : ∀ memory', Grows graph callers memory₁ memory' →
          (memory'.run callers).standing graph source =
            (memory₁.run callers).standing graph source :=
        fun memory' hgrows => hgrows.standing_eq fun node hunresolved => by
          rw [hstanding] at hunresolved
          cases outcome <;> cases hunresolved
      obtain error | value := outcome
      · refine ih _ reading waiting' fun memory' hgrows => ?_
        rw [hreplay memory' (hgrows₁.trans hgrows), attempt_not_read hvalue,
          hreplay₁ memory' hgrows, hstanding]
      · refine ih _ (reading.add source value) waiting' fun memory' hgrows => ?_
        rw [hreplay memory' (hgrows₁.trans hgrows), attempt_not_read hvalue,
          hreplay₁ memory' hgrows, hstanding]

/-- The machine computes pending nodes as the recursive evaluation does. -/
theorem simulated (graph : Graph) (context : Context) (callers : List NodeId) :
    Simulated graph context callers := by
  induction callers using callers_induction graph with
  | step callers ih =>
    intro memory id node rest pending
    have hbelow := ih id node pending.not_caller pending.find?_eq
    have hdeps : Run.Leads graph context
        (.next (memory.run (id :: callers)) ({ id, node, pending := node.deps } :: rest)) _ :=
      leads_deps hbelow { id, node, pending := node.deps } rest rfl node.deps
    unfold computeNode
    generalize hresolved : resolveDeps (resolve graph context (id :: callers) .demand) memory
      node.deps = outcome at hdeps ⊢
    obtain ⟨error | ⟨⟩, memory₁⟩ := outcome
    · exact hdeps
    · refine hdeps.trans ?_
      have hvalues := (resolveDeps_grows (resolve_grows graph context (id :: callers) .demand)
        hresolved).2 rfl
      have hfollow := leads_follow hbelow id rest (node.compute context) (memory₁.declared node)
        none fun memory' hgrows => by rw [hgrows.declared_eq hvalues]
      simp only
      generalize follow (resolve graph context (id :: callers) .lookup) memory₁
        (memory₁.declared node) (node.compute context) = outcome at hfollow ⊢
      obtain ⟨error | ⟨value, reading⟩, memory₂⟩ := outcome
      · exact hfollow
      · simp only at hfollow
        rw [complete_run pending.not_caller] at hfollow
        exact hfollow

/-- With nothing else on the stack, the machine comes to the end of a run with the outcome of the
    recursive evaluation. -/
theorem runStack_run {node : Node} (pending : Pending graph [] memory id node)
    (hsound : Run.Sound graph (memory.run [id]) [{ id, node, pending := node.deps }]) :
    Run.runStack graph context (memory.run [id]) [{ id, node, pending := node.deps }] hsound =
      ((resolve graph context [] .demand memory id).1.map fun _ => (),
        (resolve graph context [] .demand memory id).2.run []) := by
  have hleads := simulated graph context [] memory id node [] pending
  rw [resolve_eq, standing_eq_unresolved_iff.mpr pending]
  simp only
  generalize computeNode (resolve graph context [id]) context memory id node = outcome at hleads ⊢
  obtain ⟨error | value, memory'⟩ := outcome
  · refine Run.runStack_eq_of_leads hsound hleads ?_
    change some (Except.error error, _) = _
    rw [run_erase pending.not_caller]
    rfl
  · exact Run.runStack_eq_of_leads hsound (hleads.trans (Run.leads_of_step .refl)) rfl

/-- The machine settles a wanted node as the recursive evaluation resolves it. -/
theorem settle_run (graph : Graph) (context : Context) (memory : Memory) (id : NodeId) :
    (memory.run []).settle graph context id =
      ((resolve graph context [] .demand memory id).1,
        (resolve graph context [] .demand memory id).2.run []) := by
  unfold Run.settle
  split
  next value hstanding => rw [resolve_eq, hstanding]
  next error hstanding => rw [resolve_eq, hstanding]
  next node hstanding =>
    have pending := standing_eq_unresolved_iff.mp hstanding
    have hrun : { memory.run [] with active := (memory.run []).active.insert id () } =
        memory.run [id] := by
      rw [active_insert]
      rfl
    simp only [hrun, runStack_run pending]
    generalize hresolve : resolve graph context [] .demand memory id = outcome
    obtain ⟨error | value, memory'⟩ := outcome
    · rfl
    · have hvalue : (memory'.run []).results.find? id = some value :=
        (resolve_grows graph context [] .demand).settles hresolve
      simp only [Except.map, hvalue]

end

/-- The machine settles wanted nodes as the recursive evaluation resolves them. -/
theorem settleAll_run (graph : Graph) (context : Context) (memory : Memory)
    (wanted : List NodeId) :
    (memory.run []).settleAll graph context wanted =
      (resolveAll graph context memory wanted).map fun memory => memory.run [] := by
  induction wanted generalizing memory with
  | nil => rfl
  | cons id rest ih =>
    unfold Run.settleAll resolveAll
    rw [settle_run]
    generalize resolve graph context [] .demand memory id = outcome
    obtain ⟨error | value, memory'⟩ := outcome
    · rfl
    · exact ih memory'

theorem settleAll_empty (graph : Graph) (context : Context) (wanted : List NodeId) :
    Run.settleAll graph context {} wanted =
      (resolveAll graph context {} wanted).map fun memory => memory.run [] :=
  settleAll_run graph context {} wanted

end Memory

namespace Graph

variable {graph : Graph} {context : Context} {wanted : List NodeId}

theorem evaluate_eq_ok_iff {evaluation : Evaluation} :
    graph.evaluate context wanted = .ok evaluation ↔
      ∃ memory, Memory.resolveAll graph context {} wanted = .ok memory ∧
        memory.evaluation = evaluation := by
  unfold evaluate
  rw [Memory.settleAll_empty]
  cases Memory.resolveAll graph context {} wanted with
  | error error => simp [Except.map, bind, Except.bind]
  | ok memory => simp [Except.map, bind, Except.bind, pure, Except.pure, Memory.evaluation,
      Memory.run]

theorem evaluate_eq_error_iff {error : GraphError} :
    graph.evaluate context wanted = .error error ↔
      Memory.resolveAll graph context {} wanted = .error error := by
  unfold evaluate
  rw [Memory.settleAll_empty]
  cases Memory.resolveAll graph context {} wanted with
  | error error => simp [Except.map, bind, Except.bind]
  | ok memory => simp [Except.map, bind, Except.bind, pure, Except.pure]

/-- The stack machine and the recursive evaluator come to the same: the same error, or the same
    results and the same trace with its records and its edges in the same order. -/
theorem evaluate_eq_evaluateRecursively (graph : Graph) (context : Context)
    (wanted : List NodeId) :
    graph.evaluate context wanted = graph.evaluateRecursively context wanted := by
  unfold evaluateRecursively
  cases hresolve : Memory.resolveAll graph context {} wanted with
  | error error => exact evaluate_eq_error_iff.mpr hresolve
  | ok memory => exact evaluate_eq_ok_iff.mpr ⟨memory, hresolve, rfl⟩

end Graph

end FactScore
