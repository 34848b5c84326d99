import FactScore.Proofs.Graph.Denotation
import FactScore.Proofs.Graph.Extension
import Mathlib.Data.Set.Insert

/-!
# Evaluation stays within what is needed

A set of ids encloses what a graph does over a context if it has the declared dependencies of its
nodes and everything that their computations can look up (`Graph.Encloses`).  A stack whose frames
are in such a set only leads to such stacks (`Run.within_step`), and only the nodes of the set
decide what a step does (`Run.step_congr`), also in an attempt that goes on after a deferred
answer.  So graphs that agree on the set go through the same states and come to the same
evaluations, whatever else is in them (`Graph.evaluate_eq_of_agree_on_closed`).
-/

namespace FactScore

/-- A set of ids has the declared dependencies of its nodes, and everything that their computations
    can look up over a context. -/
structure Graph.Encloses (graph : Graph) (context : Context) (ids : Set NodeId) : Prop where
  dep_mem : ∀ {id node dep}, id ∈ ids → graph.find? id = some node → dep ∈ node.deps → dep ∈ ids
  read_mem : ∀ {id node source}, id ∈ ids → graph.find? id = some node →
    (node.compute context).Reads source → source ∈ ids

/-- Nothing in an evaluation is about nodes outside a set. -/
structure Evaluation.Within (ids : Set NodeId) (evaluation : Evaluation) : Prop where
  results : ∀ id ∈ evaluation.results.keys, id ∈ ids
  records : ∀ record ∈ evaluation.trace.records,
    record.id ∈ ids ∧ ∀ source ∈ record.input.keys, source ∈ ids
  edges : ∀ edge ∈ evaluation.trace.edges, edge.source ∈ ids ∧ edge.target ∈ ids

/-- A frame works on the node that a graph has for an id of a set, and has only such ids left to
    ask for. -/
structure Frame.Within (graph : Graph) (ids : Set NodeId) (frame : Frame) : Prop where
  id_mem : frame.id ∈ ids
  find?_eq : graph.find? frame.id = some frame.node
  pending_mem : ∀ dep ∈ frame.pending, dep ∈ ids

namespace Run

/-- A run has settled, and its stack works on, only nodes of a set. -/
structure Within (graph : Graph) (ids : Set NodeId) (run : Run) (stack : List Frame) : Prop where
  settled_mem : ∀ id, run.settled id = true → id ∈ ids
  frames : ∀ frame ∈ stack, frame.Within graph ids

/-- A step has left the nodes outside a set alone. -/
def Step.Within (graph : Graph) (ids : Set NodeId) : Step → Prop
  | .next run stack => run.Within graph ids stack
  | .finished run => run.Within graph ids []
  | .stopped _ run => run.Within graph ids []

section

variable {graph graph' : Graph} {context : Context} {ids : Set NodeId} {run run' : Run}
variable {stack rest : List Frame} {frame : Frame} {id : NodeId} {node : Node}
variable {compute : Frame → Computation Value}

namespace Within

theorem tail (h : run.Within graph ids (frame :: rest)) : run.Within graph ids rest where
  settled_mem := h.settled_mem
  frames := (List.forall_mem_cons.mp h.frames).2

theorem head (h : run.Within graph ids (frame :: rest)) : frame.Within graph ids :=
  (List.forall_mem_cons.mp h.frames).1

/-- The top frame may ask for less than before. -/
theorem replaceHead {frame' : Frame} (h : run.Within graph ids (frame :: rest))
    (hid : frame'.id = frame.id) (hnode : frame'.node = frame.node)
    (hpending : frame'.pending ⊆ frame.pending) : run.Within graph ids (frame' :: rest) where
  settled_mem := h.settled_mem
  frames := by
    refine List.forall_mem_cons.mpr ⟨?_, h.tail.frames⟩
    exact {
      id_mem := hid ▸ h.head.id_mem
      find?_eq := by rw [hid, hnode, h.head.find?_eq]
      pending_mem := fun dep hdep => h.head.pending_mem dep (hpending hdep) }

/-- Marks do not matter, and the node of a frame may be settled. -/
theorem settle (h : run.Within graph ids (frame :: rest))
    (hsettled : ∀ id, run'.settled id = true → id = frame.id ∨ run.settled id = true) :
    run'.Within graph ids rest where
  settled_mem := by
    intro id hid
    rcases hsettled id hid with rfl | hid
    · exact h.head.id_mem
    · exact h.settled_mem id hid
  frames := h.tail.frames

theorem push (h : run.Within graph ids stack) (hclosed : graph.Encloses context ids)
    (hid : id ∈ ids) (hstanding : run.standing graph id = .unresolved node) :
    (Run.push run stack id node).Within graph ids := by
  obtain ⟨_, _, hfind⟩ := standing_unresolved hstanding
  refine ⟨h.settled_mem, List.forall_mem_cons.mpr ⟨?_, h.frames⟩⟩
  exact {
    id_mem := hid
    find?_eq := hfind
    pending_mem := fun dep hdep => hclosed.dep_mem hid hfind hdep }

theorem unwinds {error : GraphError} {last : Step} (h : run.Within graph ids stack)
    (hunwinds : Unwinds error run stack last) : last.Within graph ids := by
  induction hunwinds with
  | stop => exact h
  | @caught run frame waiter rest waiting =>
    refine h.settle fun id hid => ?_
    rw [settled_failures] at hid
    simpa using hid
  | @through run frame rest last _ _ ih => exact ih (h.settle fun _ hid => .inr hid)

end Within

/-- An attempt waits only for what its computation can look up. -/
theorem reads_of_waiting {inputs : Inputs} {computation : Computation Value} {target : NodeId}
    (h : run.attempt graph inputs computation = .waiting target) :
    inputs.deferred = some target ∨ computation.Reads target := by
  induction computation generalizing inputs with
  | done value =>
    unfold attempt Inputs.conclude at h
    split at h
    next hdeferred =>
      cases h
      exact .inl hdeferred
    next => cases h
  | fail error =>
    unfold attempt Inputs.conclude at h
    split at h
    next hdeferred =>
      cases h
      exact .inl hdeferred
    next => cases h
  | lookup id resume ih =>
    rw [attempt_lookup] at h
    rcases ih _ h with hdeferred | hreads
    · unfold lookUp at hdeferred
      split at hdeferred
      next => exact .inl hdeferred
      next =>
        split at hdeferred
        next => exact .inl hdeferred
        next => exact .inl hdeferred
        next =>
          rcases Option.or_eq_some_iff.mp hdeferred with hbefore | ⟨_, hhere⟩
          · exact .inl hbefore
          · cases hhere
            exact .inr .here
    · exact .inr (.later _ hreads)

/-- Every step stays within a set that has all that can be asked for. -/
theorem within_step (hclosed : graph.Encloses context ids) (h : run.Within graph ids stack)
    (hcompute : ∀ frame ∈ stack, compute frame = frame.node.compute context) :
    (step graph compute run stack).Within graph ids := by
  have hmoves := moves_step graph compute run stack
  generalize step graph compute run stack = last at hmoves
  cases hmoves with
  | finish => exact h
  | @skip frame rest dep deps value pending standing =>
    exact h.replaceHead rfl rfl (by simp [pending])
  | @demand frame rest dep deps node pending standing =>
    have hrest : run.Within graph ids ({ frame with pending := deps } :: rest) :=
      h.replaceHead rfl rfl (by simp [pending])
    exact hrest.push hclosed (h.head.pending_mem dep (by simp [pending])) standing
  | refuse _ _ unwinds => exact h.unwinds unwinds
  | @complete frame rest value inputs pending attempt =>
    refine h.settle fun id hid => ?_
    simpa only [settled, complete, Dict.contains_insert, Bool.or_assoc, Bool.or_eq_true,
      beq_iff_eq] using hid
  | @suspend frame rest target node pending attempt standing =>
    have hrest : run.Within graph ids ({ frame with waitingFor := some target } :: rest) :=
      h.replaceHead rfl rfl fun _ hdep => hdep
    have hreads : (compute frame).Reads target :=
      (reads_of_waiting attempt).resolve_left (by simp [declared])
    rw [hcompute frame List.mem_cons_self] at hreads
    exact hrest.push hclosed (hclosed.read_mem h.head.id_mem h.head.find?_eq hreads) standing
  | fail _ _ unwinds => exact h.unwinds unwinds

section

variable (hagree : ∀ id ∈ ids, graph'.find? id = graph.find? id)
include hagree

theorem standing_congr (run : Run) (hid : id ∈ ids) :
    run.standing graph' id = run.standing graph id := by
  unfold standing
  rw [hagree id hid]

/-- Only what a computation can look up decides what an attempt comes to. -/
theorem attempt_congr (run : Run) (inputs : Inputs) {computation : Computation Value}
    (hreads : ∀ source, computation.Reads source → source ∈ ids) :
    run.attempt graph' inputs computation = run.attempt graph inputs computation := by
  induction computation generalizing inputs with
  | done value => rfl
  | fail error => rfl
  | lookup id resume ih =>
    have hlookUp : run.lookUp graph' inputs id = run.lookUp graph inputs id := by
      unfold lookUp
      rw [standing_congr hagree run (hreads id .here)]
    rw [attempt_lookup, attempt_lookup, hlookUp]
    exact ih _ _ fun source hsource => hreads source (.later _ hsource)

theorem demand_congr (run : Run) (stack : List Frame) (hid : id ∈ ids) :
    demand graph' run stack id = demand graph run stack id := by
  unfold demand
  rw [standing_congr hagree run hid]

/-- Only the nodes of the set decide what a step does. -/
theorem step_congr (hclosed : graph.Encloses context ids) (h : run.Within graph ids stack)
    (hcompute : ∀ frame ∈ stack, compute frame = frame.node.compute context) :
    step graph' compute run stack = step graph compute run stack := by
  cases stack with
  | nil => rfl
  | cons frame rest =>
    have hreads : ∀ source, (compute frame).Reads source → source ∈ ids := by
      intro source hsource
      rw [hcompute frame List.mem_cons_self] at hsource
      exact hclosed.read_mem h.head.id_mem h.head.find?_eq hsource
    simp only [step, attempt_congr hagree run _ hreads]
    split
    next dep deps pending =>
      exact demand_congr hagree run _ (h.head.pending_mem dep (by simp [pending]))
    next pending =>
      split
      next => rfl
      next target hattempt =>
        have hwaiting := (reads_of_waiting hattempt).resolve_left (by simp [declared])
        exact demand_congr hagree run _ (hreads target hwaiting)
      next => rfl

/-- In either graph the machine goes through the same steps. -/
theorem runStack_congr (hclosed : graph.Encloses context ids) (h : run.Within graph ids stack)
    (hsound : Sound graph run stack) (hsound' : Sound graph' run stack) :
    runStack graph' context run stack hsound' = runStack graph context run stack hsound := by
  induction run, stack, hsound using runStack.induct graph context with
  | case1 run stack hsound run₁ hstep =>
    have hstep' := (step_congr hagree hclosed h fun _ _ => rfl).trans hstep
    rw [runStack_of_finished hsound hstep, runStack_of_finished hsound' hstep']
  | case2 run stack hsound error run₁ hstep =>
    have hstep' := (step_congr hagree hclosed h fun _ _ => rfl).trans hstep
    rw [runStack_of_stopped hsound hstep, runStack_of_stopped hsound' hstep']
  | case3 run stack hsound run₁ stack₁ hstep ih =>
    have hstep' := (step_congr hagree hclosed h fun _ _ => rfl).trans hstep
    have hwithin := within_step hclosed h fun _ _ => rfl
    rw [hstep] at hwithin
    rw [runStack_of_next hsound hstep, runStack_of_next hsound' hstep']
    exact ih hwithin (hsound'.step hstep')

/-- A node of the set is resolved alike in either graph. -/
theorem settle_congr (hclosed : graph.Encloses context ids) (h : run.Within graph ids [])
    (hid : id ∈ ids) : run.settle graph' context id = run.settle graph context id := by
  have hsame := standing_congr hagree run hid
  unfold settle
  split
  next value hstanding' =>
    have hstanding := hsame.symm.trans hstanding'
    split
    next hvalue =>
      cases hstanding.symm.trans hvalue
      rfl
    next hrefused => cases hstanding.symm.trans hrefused
    next hunresolved => cases hstanding.symm.trans hunresolved
  next error hstanding' =>
    have hstanding := hsame.symm.trans hstanding'
    split
    next hvalue => cases hstanding.symm.trans hvalue
    next hrefused =>
      cases hstanding.symm.trans hrefused
      rfl
    next hunresolved => cases hstanding.symm.trans hunresolved
  next node hstanding' =>
    have hstanding := hsame.symm.trans hstanding'
    split
    next hvalue => cases hstanding.symm.trans hvalue
    next hrefused => cases hstanding.symm.trans hrefused
    next hunresolved =>
      cases hstanding.symm.trans hunresolved
      have hentered : (push run [] id node).Within graph ids := h.push hclosed hid hstanding
      simp only [runStack_congr hagree hclosed hentered (Sound.nil.push hstanding)]

end

namespace History

variable {asked wanted : List NodeId}

theorem within (h : History graph (.ofContext context) asked run stack)
    (hclosed : graph.Encloses context ids) (hasked : ∀ id ∈ asked, id ∈ ids) :
    run.Within graph ids stack := by
  induction h with
  | start => exact ⟨by simp [settled, Entries.contains], by simp⟩
  | known _ _ ih => exact ih fun id hid => hasked id (List.mem_append_left _ hid)
  | enter _ standing ih =>
    have hbefore := ih fun id hid => hasked id (List.mem_append_left _ hid)
    exact hbefore.push hclosed (hasked _ (by simp)) standing
  | step compute _ allowed next ih =>
    have hwithin := within_step hclosed (ih hasked) allowed
    rw [next] at hwithin
    exact hwithin

/-- A history of one graph is one of every graph that agrees with it on the set. -/
theorem congr (h : History graph (.ofContext context) asked run stack)
    (hclosed : graph.Encloses context ids) (hagree : ∀ id ∈ ids, graph'.find? id = graph.find? id)
    (hasked : ∀ id ∈ asked, id ∈ ids) : History graph' (.ofContext context) asked run stack := by
  induction h with
  | start => exact .start
  | known _ standing ih =>
    have hbefore := ih fun id hid => hasked id (List.mem_append_left _ hid)
    exact hbefore.known ((standing_congr hagree _ (hasked _ (by simp))).trans standing)
  | enter _ standing ih =>
    have hbefore := ih fun id hid => hasked id (List.mem_append_left _ hid)
    exact hbefore.enter ((standing_congr hagree _ (hasked _ (by simp))).trans standing)
  | step compute before allowed next ih =>
    have hwithin := before.within hclosed hasked
    exact (ih hasked).step compute allowed
      ((step_congr hagree hclosed hwithin allowed).trans next)

/-- Nodes of the set are resolved alike in either graph, one after another. -/
theorem settleAll_congr (h : History graph (.ofContext context) asked run [])
    (hclosed : graph.Encloses context ids) (hagree : ∀ id ∈ ids, graph'.find? id = graph.find? id)
    (hasked : ∀ id ∈ asked, id ∈ ids) (hwanted : ∀ id ∈ wanted, id ∈ ids) :
    settleAll graph' context run wanted = settleAll graph context run wanted := by
  induction wanted generalizing asked run with
  | nil => rfl
  | cons id rest ih =>
    obtain ⟨hid, hrest⟩ := List.forall_mem_cons.mp hwanted
    rw [settleAll, settleAll, settle_congr hagree hclosed (h.within hclosed hasked) hid]
    cases hsettle : run.settle graph context id with
    | mk outcome run₁ =>
      cases outcome with
      | error error => rfl
      | ok value =>
        refine ih (h.of_settle_ok (fun _ => rfl) hsettle) (fun other hother => ?_) hrest
        rcases List.mem_append.mp hother with hother | hother
        · exact hasked other hother
        · exact List.mem_singleton.mp hother ▸ hid

end History

end

end Run

/-- A coherent trace is about the nodes that have results. -/
theorem Trace.Coherent.within {graph : Graph} {ids : Set NodeId} {evaluation : Evaluation}
    (h : evaluation.trace.Coherent graph evaluation.results)
    (hresults : ∀ id ∈ evaluation.results.keys, id ∈ ids) : evaluation.Within ids where
  results := hresults
  records := by
    intro record hrecord
    have hid : record.id ∈ evaluation.results.keys :=
      (h.mem_ids_iff _).mp (List.mem_map_of_mem hrecord)
    refine ⟨hresults _ hid, fun source hsource => ?_⟩
    have hfeeds := (h.mem_input_iff record hrecord source).mp hsource
    exact hresults _ ((h.mem_ids_iff _).mp (h.precedes _ _ hfeeds).mem_left)
  edges := by
    intro edge hedge
    have hprecedes := h.precedes edge.source edge.target hedge
    exact ⟨hresults _ ((h.mem_ids_iff _).mp hprecedes.mem_left),
      hresults _ ((h.mem_ids_iff _).mp hprecedes.mem_right)⟩

namespace Graph

variable {graph graph' : Graph} {context : Context} {ids : Set NodeId} {wanted : List NodeId}

theorem Encloses.congr (h : graph.Encloses context ids)
    (hagree : ∀ id ∈ ids, graph'.find? id = graph.find? id) : graph'.Encloses context ids where
  dep_mem := fun hid hfind hdep => h.dep_mem hid ((hagree _ hid).symm.trans hfind) hdep
  read_mem := fun hid hfind hreads => h.read_mem hid ((hagree _ hid).symm.trans hfind) hreads

/-- Only nodes that are enclosed with the wanted ones are evaluated. -/
theorem Encloses.within_of_evaluate {evaluation : Evaluation} (h : graph.Encloses context ids)
    (hwanted : ∀ id ∈ wanted, id ∈ ids)
    (hevaluate : graph.evaluate context wanted = .ok evaluation) :
    evaluation.Within ids := by
  have hcoherent : evaluation.trace.Coherent graph evaluation.results := by
    obtain ⟨memory, hresolve, rfl⟩ := evaluate_eq_ok_iff.mp hevaluate
    exact (Memory.resolveAll_consistent hresolve).coherent
  refine hcoherent.within fun id hid => ?_
  rw [evaluate_eq_map] at hevaluate
  cases hsettle : Run.settleAll graph context {} wanted with
  | error error =>
    rw [hsettle] at hevaluate
    cases hevaluate
  | ok run =>
    rw [hsettle] at hevaluate
    cases hevaluate
    have hhistory : Run.History graph (.ofContext context) ([] ++ wanted) run [] :=
      Run.History.start.of_settleAll (fun _ => rfl) hsettle
    have hsettled : run.settled id = true :=
      Run.settled_iff.mpr (.inl (Entries.contains_iff_mem_keys.mpr hid))
    exact (hhistory.within h hwanted).settled_mem id hsettled

/-- Evaluation is lazy and local.  Two graphs that agree on a set which has the wanted nodes, their
    declared dependencies and everything that their computations can look up come to the same
    evaluation or the same error, and go through the same states on the way.  No frame is ever made
    for a node outside the set, so that its computation is not even attempted; none is settled; and
    none is in the results or the trace. -/
theorem evaluate_eq_of_agree_on_closed (hclosed : graph.Encloses context ids)
    (hwanted : ∀ id ∈ wanted, id ∈ ids) (hagree : ∀ id ∈ ids, graph'.find? id = graph.find? id) :
    graph'.evaluate context wanted = graph.evaluate context wanted ∧
    (∀ evaluation, graph.evaluate context wanted = .ok evaluation → evaluation.Within ids) ∧
    ∀ asked run stack, (∀ id ∈ asked, id ∈ ids) →
      (Run.History graph' (.ofContext context) asked run stack ↔
        Run.History graph (.ofContext context) asked run stack) ∧
      (Run.History graph (.ofContext context) asked run stack →
        (∀ frame ∈ stack, frame.id ∈ ids) ∧ ∀ id, run.settled id = true → id ∈ ids) := by
  refine ⟨?_, fun evaluation => hclosed.within_of_evaluate hwanted,
    fun asked run stack hasked =>
      ⟨⟨fun h => ?_, fun h => h.congr hclosed hagree hasked⟩, fun h => ?_⟩⟩
  · rw [evaluate_eq_map, evaluate_eq_map,
      Run.History.start.settleAll_congr hclosed hagree (by simp) hwanted]
  · exact h.congr (hclosed.congr hagree) (fun id hid => (hagree id hid).symm) hasked
  · have hwithin := h.within hclosed hasked
    exact ⟨fun frame hframe => (hwithin.frames frame hframe).id_mem, hwithin.settled_mem⟩

end Graph

/-- A node that looks up `gone` when it gets an error for `side`, also a deferred one. -/
def hastyNode : Node where
  compute := fun _ => .lookup "side" fun
    | .ok value => .done value
    | .error _ => .get "gone"

/-- A graph in which nothing leads from `hasty` to `broken`. -/
def sparseGraph : Graph where
  nodes := .ofList
    [("broken", { compute := fun _ => .fail (.compute "broken" "no data") }),
      ("hasty", hastyNode),
      ("side", { compute := fun _ => .done (.text "s") })]

/-- The same with `broken` on a cycle. -/
def tangledGraph : Graph :=
  (sparseGraph.insert "broken" { deps := ["knot"], compute := fun _ => .get "hasty" }).insert "knot"
    { deps := ["broken"], compute := fun _ => .done .missing }

theorem sparseGraph_encloses : sparseGraph.Encloses .empty {"gone", "hasty", "side"} where
  dep_mem := by
    intro id node dep hid hfind hdep
    rcases hid with rfl | rfl | rfl <;> cases hfind <;> simp [hastyNode] at hdep
  read_mem := by
    intro id node source hid hfind hreads
    rcases hid with rfl | rfl | rfl
    · cases hfind
    · cases hfind
      cases hreads with
      | here => simp
      | later answer hreads =>
        cases answer with
        | ok value => cases hreads
        | error error =>
          cases hreads with
          | here => simp
          | later answer hreads => cases answer <;> cases hreads
    · cases hfind
      cases hreads

theorem evaluate_tangledGraph :
    ∃ evaluation, tangledGraph.evaluate .empty ["hasty"] = .ok evaluation ∧
      sparseGraph.evaluate .empty ["hasty"] = .ok evaluation ∧
      evaluation.results.keys = ["hasty", "side"] ∧
      evaluation.Within {"gone", "hasty", "side"} ∧
      tangledGraph.evaluate .empty ["broken"] = .error (.cycleDetected "broken") ∧
      ∃ run stack, Run.History tangledGraph (.ofContext .empty) ["hasty"] run stack ∧
        stack.map Frame.id = ["side", "hasty"] := by
  have hagree : ∀ id ∈ ({"gone", "hasty", "side"} : Set NodeId),
      tangledGraph.find? id = sparseGraph.find? id := by
    rintro id (rfl | rfl | rfl) <;> rfl
  have hwanted : ∀ id ∈ ["hasty"], id ∈ ({"gone", "hasty", "side"} : Set NodeId) := by simp
  obtain ⟨hsame, hwithin, hstates⟩ :=
    Graph.evaluate_eq_of_agree_on_closed sparseGraph_encloses hwanted hagree
  have hkeys : (sparseGraph.evaluate .empty ["hasty"]).map
      (fun evaluation => evaluation.results.keys) = .ok ["hasty", "side"] := by
    cbv
  have hbroken :
      tangledGraph.evaluate .empty ["broken"] = .error (.cycleDetected "broken") := by
    cbv
  obtain ⟨evaluation, hevaluate, hobserved⟩ := Graph.exists_evaluation hkeys
  have hentered : Run.History sparseGraph (.ofContext .empty) ["hasty"] _ _ :=
    Run.History.start.enter
      (show Run.standing sparseGraph {} "hasty" = .unresolved hastyNode from rfl)
  have hdriven : ∃ run stack, Run.drive sparseGraph 1 (fun _ frame => frame.node.compute .empty)
      (Run.push {} [] "hasty" hastyNode) = .next run stack ∧
        stack.map Frame.id = ["side", "hasty"] := ⟨_, _, rfl, rfl⟩
  obtain ⟨run, stack, hrun, hids⟩ := hdriven
  have hhistory := hentered.drive (fun _ _ => rfl) 1 hrun
  exact ⟨evaluation, hsame.trans hevaluate, hevaluate, hobserved, hwithin evaluation hevaluate,
    hbroken, run, stack, (hstates _ run stack hwanted).1.mpr hhistory, hids⟩

end FactScore
