import FactScore.Proofs.Graph.Moves

/-!
# Suspended frames

What becomes of a node that was put on the stack on behalf of a frame, or because it is wanted.
The frames below it stay as they are for as long as it is on the stack (`Run.Over`).  It leaves
the stack with a value, or, if the frame below waits for it, with an error that is remembered
(`Run.resolving_step`).  So a node that is wanted has a value once the machine is through with it,
and what resolving it can come to is told by `Run.Settles`.
-/

namespace FactScore

namespace Run

/-- The frame of a node is on a stack, right above some frames. -/
def Over (base : List Frame) (id : NodeId) (stack : List Frame) : Prop :=
  ∃ above bottom, stack = above ++ bottom :: base ∧ bottom.id = id

/-- Where a step leads while a node is resolved above some frames: its frame is still there, or
    the node has a value, or it has an error and there is a frame to get it.  With nothing below,
    an error ends the run. -/
def Resolving (base : List Frame) (id : NodeId) : Step → Prop
  | .next run stack => Over base id stack ∨ stack = base ∧
      (run.results.contains id = true ∨ base ≠ [] ∧ run.failures.contains id = true)
  | .finished _ => False
  | .stopped _ _ => base = []

section

variable {graph : Graph} {context : Context} {run run' : Run} {base stack rest : List Frame}
variable {frame frame' : Frame} {id : NodeId}

namespace Over

theorem push (frame : Frame) (h : Over base id stack) : Over base id (frame :: stack) := by
  obtain ⟨above, bottom, rfl, hid⟩ := h
  exact ⟨frame :: above, bottom, rfl, hid⟩

theorem of_top (frame : Frame) : Over base frame.id (frame :: base) :=
  ⟨[], frame, rfl, rfl⟩

theorem replaceHead (h : Over base id (frame :: rest)) (hid : frame'.id = frame.id) :
    Over base id (frame' :: rest) := by
  obtain ⟨above, bottom, hstack, hbottom⟩ := h
  cases above with
  | nil =>
    obtain ⟨rfl, rfl⟩ := List.cons.inj hstack
    exact ⟨[], frame', rfl, hid.trans hbottom⟩
  | cons top above =>
    obtain ⟨rfl, rfl⟩ := List.cons.inj hstack
    exact ⟨frame' :: above, bottom, rfl, hbottom⟩

/-- The top frame is the one in question, or that is further down. -/
theorem tail (h : Over base id (frame :: rest)) :
    rest = base ∧ frame.id = id ∨ Over base id rest := by
  obtain ⟨above, bottom, hstack, hbottom⟩ := h
  cases above with
  | nil =>
    obtain ⟨rfl, rfl⟩ := List.cons.inj hstack
    exact .inl ⟨rfl, hbottom⟩
  | cons top above =>
    obtain ⟨-, rfl⟩ := List.cons.inj hstack
    exact .inr ⟨above, bottom, rfl, hbottom⟩

theorem not_nil (h : Over base id []) : False := by
  obtain ⟨above, bottom, hstack, _⟩ := h
  cases above <;> cases hstack

end Over

/-- Giving up frames stops at the frame that waits for the node. -/
theorem resolving_unwinds {error : GraphError} {last : Step}
    (hbase : ∀ waiter ∈ base.head?, waiter.waitingFor = some id) (h : Over base id stack)
    (hunwinds : Unwinds error run stack last) : Resolving base id last := by
  induction hunwinds with
  | stop => exact h.not_nil.elim
  | caught waiting =>
    rcases h.tail with ⟨rfl, rfl⟩ | hover
    · exact .inr ⟨rfl, .inr ⟨by simp, by simp [Dict.contains_insert]⟩⟩
    · exact .inl hover
  | @through run frame rest last waiting below ih =>
    rcases h.tail with ⟨rfl, rfl⟩ | hover
    · -- the frame below would wait for the node, so there is none
      cases rest with
      | nil =>
        cases below
        rfl
      | cons waiter rest => exact absurd (hbase waiter rfl) (waiting waiter rfl)
    · exact ih hover

/-- A node that is being resolved stays on the stack or is settled by a step. -/
theorem resolving_step (hbase : ∀ waiter ∈ base.head?, waiter.waitingFor = some id)
    (h : Over base id stack) (compute : Frame → Computation Value) :
    Resolving base id (step graph compute run stack) := by
  have hmoves := moves_step graph compute run stack
  generalize step graph compute run stack = last at hmoves
  cases hmoves with
  | finish => exact h.not_nil.elim
  | skip => exact .inl (h.replaceHead rfl)
  | demand => exact .inl (.push _ (h.replaceHead rfl))
  | refuse _ _ unwinds => exact resolving_unwinds hbase h unwinds
  | complete =>
    rcases h.tail with ⟨rfl, rfl⟩ | hover
    · exact .inr ⟨rfl, .inl (by simp [Run.complete, Dict.contains_insert])⟩
    · exact .inl hover
  | suspend => exact .inl (.push _ (h.replaceHead rfl))
  | fail _ _ unwinds => exact resolving_unwinds hbase h unwinds

/-- When the machine is through with a node that was put on its stack, the node has a value. -/
theorem exists_result_of_runStack {hsound : Sound graph run stack}
    (hover : Over [] id stack ∨ stack = [] ∧ run.results.contains id = true)
    (hrun : runStack graph context run stack hsound = (.ok (), run')) :
    ∃ value, run'.results.find? id = some value := by
  induction run, stack, hsound using runStack.induct graph context with
  | case1 run stack hsound run₁ hstep =>
    obtain ⟨rfl, rfl⟩ := step_eq_finished hstep
    rw [runStack_of_finished hsound hstep] at hrun
    cases hrun
    exact Option.isSome_iff_exists.mp (hover.resolve_left Over.not_nil).2
  | case2 run stack hsound error run₁ hstep =>
    rw [runStack_of_stopped hsound hstep] at hrun
    cases hrun
  | case3 run stack hsound run₁ stack₁ hstep ih =>
    rw [runStack_of_next hsound hstep] at hrun
    refine ih ?_ hrun
    rcases hover with hover | ⟨rfl, _⟩
    · have hresolving : Resolving [] id
          (Run.step graph (fun frame => frame.node.compute context) run stack) :=
        resolving_step (by simp) hover _
      rw [hstep] at hresolving
      exact hresolving.imp_right (And.imp_right fun hsettled => hsettled.resolve_right (by simp))
    · cases hstep

end

/-- What resolving a node can come to. -/
inductive Settles (graph : Graph) (context : Context) (run : Run) (id : NodeId) :
    Except GraphError Value × Run → Prop where
  /-- It has a value already. -/
  | known {value : Value} (standing : run.standing graph id = .computed value) :
      Settles graph context run id (.ok value, run)
  /-- It cannot be had. -/
  | refused {error : GraphError} (standing : run.standing graph id = .refused error) :
      Settles graph context run id (.error error, run)
  /-- It is put on the stack, and the machine stops. -/
  | stopped {node : Node} {error : GraphError} {run' : Run}
      (standing : run.standing graph id = .unresolved node)
      (ran : runStack graph context { run with active := run.active.insert id () }
        [{ id, node, pending := node.deps }] (Sound.nil.push standing) = (.error error, run')) :
      Settles graph context run id (.error error, run')
  /-- It is put on the stack, and the machine finds its value. -/
  | found {node : Node} {value : Value} {run' : Run}
      (standing : run.standing graph id = .unresolved node)
      (ran : runStack graph context { run with active := run.active.insert id () }
        [{ id, node, pending := node.deps }] (Sound.nil.push standing) = (.ok (), run'))
      (result : run'.results.find? id = some value) :
      Settles graph context run id (.ok value, run')

theorem settles_settle (graph : Graph) (context : Context) (run : Run) (id : NodeId) :
    Settles graph context run id (run.settle graph context id) := by
  unfold settle
  split
  next value hstanding => exact .known hstanding
  next error hstanding => exact .refused hstanding
  next node hstanding =>
    simp only
    split
    next error run' hrun => exact .stopped hstanding hrun
    next run' hrun =>
      obtain ⟨value, hvalue⟩ := exists_result_of_runStack (.inl (.of_top _)) hrun
      simp only [hvalue]
      exact .found hstanding hrun hvalue

end Run

end FactScore
