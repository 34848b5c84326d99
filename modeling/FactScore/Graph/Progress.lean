import FactScore.Dict.Count
import FactScore.Graph.Run

/-!
# Progress of runs

Why a run comes to an end.  `Run.Sound` says that the stack of a run is in order, and every step
keeps it (`Run.Sound.step`).  From a stack in order, each step makes a triple of counts smaller in
lexicographic order: the nodes that are not settled, the nodes that are not on the stack, and the
dependencies that the top frame still has to ask for (`Run.measure_step_lt`).
-/

namespace FactScore

namespace Run

/-- Whether the run has done with a node, by a value or by an error. -/
def settled (run : Run) (id : NodeId) : Bool :=
  run.results.contains id || run.failures.contains id

/-- The stack of a run is in order: its nodes are distinct nodes of the graph, marked as in
    progress, and not settled. -/
structure Sound (graph : Graph) (run : Run) (stack : List Frame) : Prop where
  nodup : (stack.map Frame.id).Nodup
  known : ∀ frame ∈ stack, frame.id ∈ graph.ids
  marked : ∀ frame ∈ stack, run.active.contains frame.id = true
  unsettled : ∀ frame ∈ stack, run.settled frame.id = false

/-- The three counts that a step makes smaller. -/
def measure (graph : Graph) (run : Run) (stack : List Frame) : Nat × Nat × Nat :=
  (graph.ids.countP fun id => !run.settled id,
    run.active.missing graph.ids,
    (stack.head?.map fun frame => frame.pending.length).getD 0)

/-- The lexicographic order of the counts. -/
def Less : Nat × Nat × Nat → Nat × Nat × Nat → Prop :=
  Prod.Lex (· < ·) (Prod.Lex (· < ·) (· < ·))

theorem standing_computed {graph : Graph} {run : Run} {id : NodeId} {value : Value}
    (h : run.standing graph id = .computed value) : run.results.find? id = some value := by
  unfold standing at h
  split at h
  next value' hvalue =>
    cases h
    exact hvalue
  next =>
    split at h
    next => cases h
    next =>
      split at h
      next => cases h
      next => split at h <;> cases h

/-- Why a node is refused. -/
theorem standing_refused {graph : Graph} {run : Run} {id : NodeId} {error : GraphError}
    (h : run.standing graph id = .refused error) :
    run.failures.find? id = some error ∨
      run.active.contains id = true ∧ error = .cycleDetected id ∨
      graph.find? id = none ∧ error = .unknownNode id := by
  unfold standing at h
  split at h
  next => cases h
  next =>
    split at h
    next error' hfailure =>
      cases h
      exact .inl hfailure
    next =>
      split at h
      next hactive =>
        cases h
        exact .inr (.inl ⟨hactive, rfl⟩)
      next =>
        split at h
        next hfind =>
          cases h
          exact .inr (.inr ⟨hfind, rfl⟩)
        next => cases h

theorem standing_unresolved {graph : Graph} {run : Run} {id : NodeId} {node : Node}
    (h : run.standing graph id = .unresolved node) :
    run.settled id = false ∧ run.active.contains id = false ∧
      graph.find? id = some node := by
  unfold standing at h
  split at h
  next => cases h
  next hresults =>
    split at h
    next => cases h
    next hfailed =>
      split at h
      next => cases h
      next hprogress =>
        split at h
        next => cases h
        next node' hfind =>
          cases h
          refine ⟨?_, by simpa using hprogress, hfind⟩
          simp [settled, Entries.contains, hresults, hfailed]

theorem mem_ids_of_find? {graph : Graph} {id : NodeId} {node : Node}
    (h : graph.find? id = some node) : id ∈ graph.ids := by
  refine Entries.contains_iff_mem_keys.mp ?_
  unfold Graph.find? at h
  simp [Entries.contains, h]

/-- An attempt waits only for a node of the graph that was not worked on. -/
theorem attempt_waiting {graph : Graph} {run : Run} {inputs : Inputs}
    {computation : Computation Value} {target : NodeId}
    (hinputs : ∀ id, inputs.deferred = some id → ∃ node, run.standing graph id = .unresolved node)
    (h : run.attempt graph inputs computation = .waiting target) :
    ∃ node, run.standing graph target = .unresolved node := by
  induction computation generalizing inputs with
  | done value =>
    unfold attempt Inputs.conclude at h
    split at h
    next id hid =>
      cases h
      exact hinputs _ hid
    next => cases h
  | fail error =>
    unfold attempt Inputs.conclude at h
    split at h
    next id hid =>
      cases h
      exact hinputs _ hid
    next => cases h
  | lookup id resume ih =>
    unfold attempt at h
    split at h
    next => exact ih _ hinputs h
    next =>
      split at h
      next => exact ih _ (by simpa using hinputs) h
      next => exact ih _ hinputs h
      next node hstanding =>
        refine ih _ (fun other hother => ?_) h
        cases hdeferred : inputs.deferred with
        | none =>
          simp only [hdeferred, Option.none_or, Option.some.injEq] at hother
          exact hother ▸ ⟨node, hstanding⟩
        | some first =>
          simp only [hdeferred, Option.some_or, Option.some.injEq] at hother
          exact hother ▸ hinputs first hdeferred

namespace Sound

variable {graph : Graph} {run run' : Run} {stack stack' : List Frame}

theorem nil : Sound graph run [] where
  nodup := List.nodup_nil
  known := by simp
  marked := by simp
  unsettled := by simp

theorem tail {frame : Frame} (h : Sound graph run (frame :: stack)) : Sound graph run stack where
  nodup := (List.nodup_cons.mp h.nodup).2
  known := fun other hother => h.known other (List.mem_cons_of_mem _ hother)
  marked := fun other hother => h.marked other (List.mem_cons_of_mem _ hother)
  unsettled := fun other hother => h.unsettled other (List.mem_cons_of_mem _ hother)

theorem ne_head {frame other : Frame} (h : Sound graph run (frame :: stack))
    (hother : other ∈ stack) : other.id ≠ frame.id := by
  intro heq
  have hnot := (List.nodup_cons.mp h.nodup).1
  exact hnot (List.mem_map.mpr ⟨other, hother, heq⟩)

/-- A frame may change in everything but its node id. -/
theorem replaceHead {frame frame' : Frame} (h : Sound graph run (frame :: stack))
    (hid : frame'.id = frame.id) : Sound graph run (frame' :: stack) where
  nodup := by
    have := h.nodup
    simpa only [List.map_cons, hid] using this
  known := by
    intro other hother
    rcases List.mem_cons.mp hother with rfl | hother
    · exact hid ▸ h.known frame List.mem_cons_self
    · exact h.tail.known other hother
  marked := by
    intro other hother
    rcases List.mem_cons.mp hother with rfl | hother
    · exact hid ▸ h.marked frame List.mem_cons_self
    · exact h.tail.marked other hother
  unsettled := by
    intro other hother
    rcases List.mem_cons.mp hother with rfl | hother
    · exact hid ▸ h.unsettled frame List.mem_cons_self
    · exact h.tail.unsettled other hother

/-- The rest of the stack stays in order when its top is taken off and unmarked, whatever is
    settled by that at the top's own node. -/
theorem pop {frame : Frame} (h : Sound graph run (frame :: stack))
    (hprogress : run'.active = run.active.erase frame.id)
    (hsettled : ∀ id, id ≠ frame.id → run'.settled id = run.settled id) :
    Sound graph run' stack where
  nodup := h.tail.nodup
  known := h.tail.known
  marked := by
    intro other hother
    rw [hprogress, Entries.contains_erase]
    simp [h.tail.marked other hother, h.ne_head hother]
  unsettled := by
    intro other hother
    rw [hsettled _ (h.ne_head hother)]
    exact h.tail.unsettled other hother

theorem push {id : NodeId} {node : Node} (h : Sound graph run stack)
    (hstanding : run.standing graph id = .unresolved node) :
    Sound graph { run with active := run.active.insert id () }
      ({ id, node, pending := node.deps } :: stack) := by
  obtain ⟨hsettled, hprogress, hfind⟩ := standing_unresolved hstanding
  constructor
  · refine List.nodup_cons.mpr ⟨fun hmem => ?_, h.nodup⟩
    obtain ⟨other, hother, hid⟩ := List.mem_map.mp hmem
    have := h.marked other hother
    simp only at hid
    rw [hid, hprogress] at this
    cases this
  · intro other hother
    rcases List.mem_cons.mp hother with rfl | hother
    · exact mem_ids_of_find? hfind
    · exact h.known other hother
  · intro other hother
    rw [Dict.contains_insert]
    rcases List.mem_cons.mp hother with rfl | hother
    · simp
    · simp [h.marked other hother]
  · intro other hother
    rcases List.mem_cons.mp hother with rfl | hother
    · exact hsettled
    · exact h.unsettled other hother

end Sound

/-- What a step from a stack in order keeps, and what it makes smaller. -/
def Advances (graph : Graph) (counts : Nat × Nat × Nat) : Step → Prop
  | .next run stack => Sound graph run stack ∧ Less (measure graph run stack) counts
  | .finished _ => True
  | .stopped _ _ => True

section

variable {graph : Graph} {run run' : Run} {stack : List Frame}

/-- Settling one more node of the graph leaves fewer that are not. -/
theorem unsettled_lt {id : NodeId} (hid : id ∈ graph.ids) (hbefore : run.settled id = false)
    (hafter : run'.settled id = true)
    (hother : ∀ other, run.settled other = true → run'.settled other = true) :
    (graph.ids.countP fun id => !run'.settled id) <
      graph.ids.countP fun id => !run.settled id := by
  refine countP_lt_countP (fun other _ h => ?_) ⟨id, hid, by simp [hbefore], by simp [hafter]⟩
  cases hsettled : run.settled other with
  | false => rfl
  | true =>
    rw [hother other hsettled] at h
    cases h

theorem settled_failures (run : Run) (id other : NodeId) (error : GraphError)
    (active : Dict Unit) :
    ({ run with active, failures := run.failures.insert id error } : Run).settled other =
      (other == id || run.settled other) := by
  simp only [settled, Dict.contains_insert]
  cases run.results.contains other <;> cases other == id <;> rfl

theorem advances_abandon {error : GraphError} {counts : Nat × Nat × Nat}
    (hsound : Sound graph run stack)
    (hcounts : counts.1 = graph.ids.countP fun id => !run.settled id) :
    Advances graph counts (abandon run error stack) := by
  induction stack generalizing run with
  | nil => trivial
  | cons frame rest ih =>
    have hknown := hsound.known frame List.mem_cons_self
    have hunsettled := hsound.unsettled frame List.mem_cons_self
    unfold abandon
    cases rest with
    | nil => trivial
    | cons waiter below =>
      simp only
      split
      · refine ⟨hsound.pop rfl fun id hid => ?_, ?_⟩
        · rw [settled_failures]
          simp [hid]
        · refine Prod.Lex.left _ _ ?_
          rw [hcounts]
          refine unsettled_lt hknown hunsettled ?_ fun other hother => ?_
          · rw [settled_failures]
            simp
          · rw [settled_failures, hother]
            simp
      · exact ih (hsound.pop rfl fun id _ => rfl) hcounts

theorem advances_push {id : NodeId} {node : Node} {counts : Nat × Nat × Nat}
    (hsound : Sound graph run stack) (hstanding : run.standing graph id = .unresolved node)
    (hsettled : counts.1 = graph.ids.countP fun id => !run.settled id)
    (hidle : counts.2.1 = run.active.missing graph.ids) :
    Advances graph counts (push run stack id node) := by
  obtain ⟨_, hprogress, hfind⟩ := standing_unresolved hstanding
  refine ⟨hsound.push hstanding, ?_⟩
  have hlt := Dict.missing_insert_lt () (mem_ids_of_find? hfind) hprogress
  obtain ⟨unsettled, idle, pending⟩ := counts
  cases hsettled
  cases hidle
  exact Prod.Lex.right _ (Prod.Lex.left _ _ hlt)

theorem advances_complete {frame : Frame} {value : Value} {inputs : Inputs}
    {counts : Nat × Nat × Nat} (hsound : Sound graph run (frame :: stack))
    (hcounts : counts.1 = graph.ids.countP fun id => !run.settled id) :
    Advances graph counts (.next (run.complete frame value inputs) stack) := by
  have hsettled (other : NodeId) :
      (run.complete frame value inputs).settled other =
        (other == frame.id || run.settled other) := by
    simp only [settled, complete, Dict.contains_insert, Bool.or_assoc]
  refine ⟨hsound.pop rfl fun id hid => ?_, ?_⟩
  · rw [hsettled]
    simp [hid]
  · refine Prod.Lex.left _ _ ?_
    rw [hcounts]
    refine unsettled_lt (hsound.known frame List.mem_cons_self)
      (hsound.unsettled frame List.mem_cons_self) ?_ fun other hother => ?_
    · rw [hsettled]
      simp
    · rw [hsettled, hother]
      simp

/-- From a stack in order every step leads to a stack in order and makes the counts smaller,
    however the computations behave. -/
theorem advances_step (compute : Frame → Computation Value) (hsound : Sound graph run stack) :
    Advances graph (measure graph run stack) (step graph compute run stack) := by
  unfold step
  split
  · trivial
  next frame rest =>
    split
    next dep deps hpending =>
      have hsound' : Sound graph run ({ frame with pending := deps } :: rest) :=
        hsound.replaceHead rfl
      unfold demand
      split
      · refine ⟨hsound', Prod.Lex.right _ (Prod.Lex.right _ ?_)⟩
        simp [hpending]
      · exact advances_abandon hsound' rfl
      next hstanding => exact advances_push hsound' hstanding rfl rfl
    next =>
      split
      · exact advances_complete hsound rfl
      next target hattempt =>
        have hsound' : Sound graph run ({ frame with waitingFor := some target } :: rest) :=
          hsound.replaceHead rfl
        obtain ⟨node, hstanding⟩ := attempt_waiting (by simp [declared]) hattempt
        unfold demand
        rw [hstanding]
        exact advances_push hsound' hstanding rfl rfl
      · exact advances_abandon (hsound.replaceHead rfl) rfl

/-- A step keeps the stack in order. -/
theorem Sound.step {compute : Frame → Computation Value} {stack' : List Frame}
    (hsound : Sound graph run stack) (h : Run.step graph compute run stack = .next run' stack') :
    Sound graph run' stack' := by
  have := advances_step compute hsound
  rw [h] at this
  exact this.1

/-- A step makes the counts smaller. -/
theorem measure_step_lt {compute : Frame → Computation Value} {stack' : List Frame}
    (hsound : Sound graph run stack) (h : Run.step graph compute run stack = .next run' stack') :
    Less (measure graph run' stack') (measure graph run stack) := by
  have := advances_step compute hsound
  rw [h] at this
  exact this.2

end

end Run

end FactScore
