import FactScore.Proofs.Graph.Consistency
import Mathlib.Data.List.Permutation

/-!
# Longer lists of wanted nodes

A run only ever adds to what it has found (`Run.Begins`).  A step settles only the node of a frame,
which is not settled yet, so it keeps every value and every error (`Run.Sound.begins_step`), however
the computations behave, and so do the loop, a request and a list of requests.  Wanting more nodes
therefore gives all that was found without them, and more (`Graph.evaluate_append`).
-/

namespace FactScore

/-- One evaluation is the beginning of another, which has all of its values, and whose trace goes on
    where its own ends. -/
structure Evaluation.Begins (shorter longer : Evaluation) : Prop where
  results : ∀ id value, shorter.results.find? id = some value →
    longer.results.find? id = some value
  records : shorter.trace.records <+: longer.trace.records
  edges : shorter.trace.edges <+: longer.trace.edges

namespace Run

/-- What a run hands out when it is over. -/
def evaluation (run : Run) : Evaluation where
  results := run.results
  trace := run.trace

/-- A later run has everything that an earlier one had found, the errors included. -/
structure Begins (earlier later : Run) : Prop extends
    Evaluation.Begins earlier.evaluation later.evaluation where
  failures : ∀ id error, earlier.failures.find? id = some error →
    later.failures.find? id = some error

/-- The run after a step. -/
def Step.run : Step → Run
  | .next run _ => run
  | .finished run => run
  | .stopped _ run => run

variable {graph : Graph} {context : Context} {run run₁ run₂ : Run} {stack rest : List Frame}
variable {frame : Frame} {id : NodeId} {node : Node}

/-- Marks are not part of what a run has found. -/
theorem begins_mark (run : Run) (active : Dict Unit) : run.Begins { run with active } where
  results := fun _ _ h => h
  records := List.prefix_rfl
  edges := List.prefix_rfl
  failures := fun _ _ h => h

theorem Begins.refl (run : Run) : run.Begins run :=
  run.begins_mark run.active

theorem Begins.trans (h₁ : run.Begins run₁) (h₂ : run₁.Begins run₂) : run.Begins run₂ where
  results := fun id value h => h₂.results id value (h₁.results id value h)
  records := h₁.records.trans h₂.records
  edges := h₁.edges.trans h₂.edges
  failures := fun id error h => h₂.failures id error (h₁.failures id error h)

namespace Sound

theorem find?_eq_none (h : Sound graph run (frame :: rest)) :
    run.results.find? frame.id = none ∧ run.failures.find? frame.id = none := by
  have hunsettled := h.unsettled frame List.mem_cons_self
  simpa [settled, Entries.contains] using hunsettled

/-- The node of a frame had no value that its own could take the place of. -/
theorem begins_complete (h : Sound graph run (frame :: rest)) (value : Value) (inputs : Inputs) :
    run.Begins (run.complete frame value inputs) where
  results := by
    intro id value' hvalue
    have hne : id ≠ frame.id := by
      rintro rfl
      cases hvalue.symm.trans h.find?_eq_none.1
    exact (Dict.find?_insert ..).trans ((if_neg hne).trans hvalue)
  records := List.prefix_append ..
  edges := List.prefix_append ..
  failures := fun _ _ h => h

/-- The node of a frame had no error that another one could take the place of. -/
theorem begins_remember (h : Sound graph run (frame :: rest)) (error : GraphError)
    (active : Dict Unit) :
    run.Begins { run with active, failures := run.failures.insert frame.id error } where
  results := fun _ _ h => h
  records := List.prefix_rfl
  edges := List.prefix_rfl
  failures := by
    intro id error' hfailure
    have hne : id ≠ frame.id := by
      rintro rfl
      cases hfailure.symm.trans h.find?_eq_none.2
    exact (Dict.find?_insert ..).trans ((if_neg hne).trans hfailure)

/-- Giving up frames takes nothing away. -/
theorem begins_unwinds {error : GraphError} {last : Step} (h : Sound graph run stack)
    (hunwinds : Unwinds error run stack last) : run.Begins last.run := by
  induction hunwinds with
  | @stop run => exact .refl run
  | caught => exact h.begins_remember _ _
  | @through run frame rest last _ _ ih =>
    have hbelow : Sound graph { run with active := run.active.erase frame.id } rest :=
      h.pop rfl fun _ _ => rfl
    exact (run.begins_mark _).trans (ih hbelow)

/-- A step takes nothing away, whatever the computations do. -/
theorem begins_step (h : Sound graph run stack) (compute : Frame → Computation Value) :
    run.Begins (Run.step graph compute run stack).run := by
  have hmoves := moves_step graph compute run stack
  generalize Run.step graph compute run stack = last at hmoves
  cases hmoves with
  | finish => exact .refl run
  | skip => exact .refl run
  | demand => exact run.begins_mark _
  | refuse _ _ unwinds => exact h.begins_unwinds unwinds
  | complete => exact h.begins_complete _ _
  | suspend => exact run.begins_mark _
  | fail _ _ unwinds => exact h.begins_unwinds unwinds

/-- The loop takes nothing away. -/
theorem begins_drive (h : Sound graph run stack) (computes : Nat → Frame → Computation Value)
    (count : Nat) : run.Begins (drive graph count computes (.next run stack)).run := by
  induction count generalizing computes run stack with
  | zero => exact .refl run
  | succ count ih =>
    have hbegins := h.begins_step (computes 0)
    rw [drive]
    cases hstep : Run.step graph (computes 0) run stack with
    | next run₁ stack₁ =>
      rw [hstep] at hbegins
      exact hbegins.trans (ih (h.step hstep) _)
    | finished run₁ =>
      rw [hstep] at hbegins
      cases count <;> exact hbegins
    | stopped error run₁ =>
      rw [hstep] at hbegins
      cases count <;> exact hbegins

theorem begins_runStack (h : Sound graph run stack) :
    run.Begins (runStack graph context run stack h).2 := by
  induction run, stack, h using runStack.induct graph context with
  | case1 run stack h run₁ hstep =>
    have hbegins := h.begins_step fun frame => frame.node.compute context
    rw [runStack_of_finished h hstep]
    rwa [hstep] at hbegins
  | case2 run stack h error run₁ hstep =>
    have hbegins := h.begins_step fun frame => frame.node.compute context
    rw [runStack_of_stopped h hstep]
    rwa [hstep] at hbegins
  | case3 run stack h run₁ stack₁ hstep ih =>
    have hbegins := h.begins_step fun frame => frame.node.compute context
    rw [hstep] at hbegins
    rw [runStack_of_next h hstep]
    exact hbegins.trans ih

end Sound

theorem begins_enter (hstanding : run.standing graph id = .unresolved node) :
    run.Begins (runStack graph context { run with active := run.active.insert id () }
      [{ id, node, pending := node.deps }] (Sound.nil.push hstanding)).2 :=
  (run.begins_mark _).trans (Sound.nil.push hstanding).begins_runStack

/-- A request takes nothing away, whatever comes of it. -/
theorem begins_settle (graph : Graph) (context : Context) (run : Run) (id : NodeId) :
    run.Begins (run.settle graph context id).2 := by
  have hsettles := settles_settle graph context run id
  generalize run.settle graph context id = outcome at hsettles
  cases hsettles with
  | known => exact .refl run
  | refused => exact .refl run
  | stopped standing ran => exact congrArg Prod.snd ran ▸ begins_enter standing
  | found standing ran => exact congrArg Prod.snd ran ▸ begins_enter standing

theorem begins_settleAll {wanted : List NodeId}
    (h : settleAll graph context run wanted = .ok run₁) : run.Begins run₁ := by
  induction wanted generalizing run with
  | nil =>
    cases h
    exact .refl _
  | cons id wanted ih =>
    have hbegins := begins_settle graph context run id
    unfold settleAll at h
    split at h
    next value run₂ hsettle =>
      rw [hsettle] at hbegins
      exact hbegins.trans (ih h)
    next => cases h

theorem settle_of_computed {value : Value} (h : run.standing graph id = .computed value) :
    run.settle graph context id = (.ok value, run) := by
  have hsettles := settles_settle graph context run id
  generalize run.settle graph context id = outcome at hsettles
  cases hsettles with
  | known standing =>
    cases h.symm.trans standing
    rfl
  | refused standing => cases h.symm.trans standing
  | stopped standing => cases h.symm.trans standing
  | found standing => cases h.symm.trans standing

/-- Nothing is done for nodes that have values. -/
theorem settleAll_of_computed {wanted : List NodeId}
    (h : ∀ id ∈ wanted, id ∈ run.results.keys) : settleAll graph context run wanted = .ok run := by
  induction wanted with
  | nil => rfl
  | cons id wanted ih =>
    obtain ⟨hid, hwanted⟩ := List.forall_mem_cons.mp h
    obtain ⟨value, hvalue⟩ := Option.isSome_iff_exists.mp (Entries.contains_iff_mem_keys.mpr hid)
    have hstanding : run.standing graph id = .computed value := by rw [standing, hvalue]
    rw [settleAll, settle_of_computed hstanding]
    exact ih hwanted

theorem settleAll_append (graph : Graph) (context : Context) (run : Run)
    (wanted later : List NodeId) : settleAll graph context run (wanted ++ later) =
      (settleAll graph context run wanted).bind fun run => settleAll graph context run later := by
  induction wanted generalizing run with
  | nil => rfl
  | cons id wanted ih =>
    rw [List.cons_append, settleAll, settleAll]
    rcases run.settle graph context id with ⟨error | value, run₁⟩
    · rfl
    · exact ih run₁

end Run

namespace Graph

variable {graph : Graph} {context : Context} {wanted later : List NodeId}

theorem evaluate_eq_map (graph : Graph) (context : Context) (wanted : List NodeId) :
    graph.evaluate context wanted = (Run.settleAll graph context {} wanted).map Run.evaluation := by
  unfold evaluate
  cases Run.settleAll graph context {} wanted <;> rfl

/-- The nodes that are wanted later are settled in the run that the first ones end in. -/
theorem evaluate_append_eq_bind (graph : Graph) (context : Context) (wanted later : List NodeId) :
    graph.evaluate context (wanted ++ later) =
      (Run.settleAll graph context {} wanted).bind fun run =>
        (Run.settleAll graph context run later).map Run.evaluation := by
  rw [evaluate_eq_map, Run.settleAll_append]
  cases Run.settleAll graph context {} wanted <;> rfl

theorem evaluate_append_of_error {error : GraphError}
    (h : graph.evaluate context wanted = .error error) :
    graph.evaluate context (wanted ++ later) = .error error := by
  rw [evaluate_eq_map] at h
  rw [evaluate_append_eq_bind]
  cases hwanted : Run.settleAll graph context {} wanted with
  | error error' =>
    rw [hwanted] at h
    cases h
    rfl
  | ok run =>
    rw [hwanted] at h
    cases h

theorem exists_begins_of_append {longer : Evaluation}
    (h : graph.evaluate context (wanted ++ later) = .ok longer) :
    ∃ shorter, graph.evaluate context wanted = .ok shorter ∧ shorter.Begins longer := by
  rw [evaluate_append_eq_bind] at h
  rw [evaluate_eq_map]
  cases hwanted : Run.settleAll graph context {} wanted with
  | error error =>
    rw [hwanted] at h
    cases h
  | ok run =>
    rw [hwanted, Except.bind] at h
    cases hlater : Run.settleAll graph context run later with
    | error error =>
      rw [hlater] at h
      cases h
    | ok run' =>
      rw [hlater] at h
      cases h
      exact ⟨run.evaluation, rfl, (Run.begins_settleAll hlater).toBegins⟩

theorem evaluate_append_of_computed {shorter : Evaluation}
    (h : graph.evaluate context wanted = .ok shorter)
    (hlater : ∀ id ∈ later, id ∈ shorter.results.keys) :
    graph.evaluate context (wanted ++ later) = .ok shorter := by
  rw [evaluate_eq_map] at h
  rw [evaluate_append_eq_bind]
  cases hwanted : Run.settleAll graph context {} wanted with
  | error error =>
    rw [hwanted] at h
    cases h
  | ok run =>
    rw [hwanted] at h
    cases h
    rw [Except.bind, Run.settleAll_of_computed hlater]
    rfl

/-- Wanting more nodes changes nothing about what is found for the first ones.  If they fail, so do
    all, with the same error; if all of them succeed, so do the first ones, all of their values
    stay, and the trace goes on where theirs ends; and if the others have values already, nothing is
    added at all.  Whatever comes of a request, the run has everything that it had before, and so it
    is at each step of a request, however the computations behave. -/
theorem evaluate_append (graph : Graph) (context : Context) (wanted later : List NodeId) :
    (∀ error, graph.evaluate context wanted = .error error →
      graph.evaluate context (wanted ++ later) = .error error) ∧
    (∀ longer, graph.evaluate context (wanted ++ later) = .ok longer →
      ∃ shorter, graph.evaluate context wanted = .ok shorter ∧ shorter.Begins longer) ∧
    (∀ shorter, graph.evaluate context wanted = .ok shorter →
      (∀ id ∈ later, id ∈ shorter.results.keys) →
      graph.evaluate context (wanted ++ later) = .ok shorter) ∧
    (∀ (run : Run) id, run.Begins (run.settle graph context id).2) ∧
    ∀ asked run stack, Run.History graph .any asked run stack →
      ∀ computes count, run.Begins (Run.drive graph count computes (.next run stack)).run :=
  ⟨fun _ => evaluate_append_of_error, fun _ => exists_begins_of_append,
    fun _ => evaluate_append_of_computed, Run.begins_settle graph context,
    fun _ _ _ hhistory => hhistory.consistent.toSound.begins_drive⟩

end Graph

/-- A node that recovers from the failure of `broken`, and from looking itself up. -/
def cautiousNode : Node where
  compute := fun _ => .lookup "broken" fun _ => .lookup "cautious" fun _ => .get "base"

def cautiousGraph : Graph where
  nodes := .ofList
    [("base", { compute := fun _ => .done (.text "b") }),
      ("broken", { compute := fun _ => .fail (.compute "broken" "no data") }),
      ("cautious", cautiousNode)]

theorem evaluate_append_cautiousGraph :
    cautiousGraph.evaluate .empty ["broken"] = .error (.compute "broken" "no data") ∧
    cautiousGraph.evaluate .empty (["broken"] ++ ["base"]) = .error (.compute "broken" "no data") ∧
    ∃ shorter longer, cautiousGraph.evaluate .empty ["base"] = .ok shorter ∧
      cautiousGraph.evaluate .empty (["base"] ++ ["cautious"]) = .ok longer ∧
      shorter.Begins longer ∧
      longer.trace.edges = [⟨"base", "cautious"⟩] ∧
      cautiousGraph.evaluate .empty (["base", "cautious"] ++ ["base"]) = .ok longer ∧
      ∃ run stack, Run.History cautiousGraph .any ["cautious"] run stack ∧
        run.failures.keys = ["broken"] ∧
        ∀ computes count,
          run.Begins (Run.drive cautiousGraph count computes (.next run stack)).run := by
  have hbroken :
      cautiousGraph.evaluate .empty ["broken"] = .error (.compute "broken" "no data") := by
    cbv
  have hlonger : (cautiousGraph.evaluate .empty (["base"] ++ ["cautious"])).map
      (fun evaluation => (evaluation.trace.edges, evaluation.results.keys)) =
        .ok ([⟨"base", "cautious"⟩], ["base", "cautious"]) := by
    cbv
  obtain ⟨longer, hevaluate, hobserved⟩ := Graph.exists_evaluation hlonger
  obtain ⟨hedges, hkeys⟩ := Prod.mk.inj hobserved
  obtain ⟨-, hbegins, -, -, -⟩ := Graph.evaluate_append cautiousGraph .empty ["base"] ["cautious"]
  obtain ⟨shorter, hshorter, hprefix⟩ := hbegins longer hevaluate
  obtain ⟨hfails, -, -, -, hdrive⟩ := Graph.evaluate_append cautiousGraph .empty ["broken"] ["base"]
  obtain ⟨-, -, hagain, -, -⟩ :=
    Graph.evaluate_append cautiousGraph .empty ["base", "cautious"] ["base"]
  have hentered : Run.History cautiousGraph .any ["cautious"] _ _ :=
    Run.History.start.enter
      (show Run.standing cautiousGraph {} "cautious" = .unresolved cautiousNode from rfl)
  have hdriven : ∃ run stack, Run.drive cautiousGraph 3 (fun _ frame => frame.node.compute .empty)
      (Run.push {} [] "cautious" cautiousNode) = .next run stack ∧
        run.failures.keys = ["broken"] := ⟨_, _, rfl, rfl⟩
  obtain ⟨run, stack, hrun, hfailures⟩ := hdriven
  have hhistory := hentered.drive (fun _ _ => trivial) 3 hrun
  exact ⟨hbroken, hfails _ hbroken, shorter, longer, hshorter, hevaluate, hprefix, hedges,
    hagain longer hevaluate (by simp [hkeys]), run, stack, hhistory, hfailures,
    hdrive _ run stack hhistory⟩

end FactScore
