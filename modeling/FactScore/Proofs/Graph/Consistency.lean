import FactScore.Proofs.Graph.History

/-!
# Consistency of the private state

At the beginning of every step the memo, the remembered failures, the marks of the nodes in
progress and the frames of the stack fit together (`Run.Consistent`).  The heart of it is how a
frame is placed below the one above it (`Frame.Placed`): it asked for the node of that frame as a
declared dependency, or its computation waits for it.  Every move of the machine keeps this, and
however a stack is used up or given up, no mark is left behind (`Run.Consistent.keeps_step`).

A computation goes on after a look-up was deferred, and may come to a value or an error all the
same.  However it ends, its attempt waits for the first node whose look-up was deferred
(`Run.attempt_eq_waiting_iff`), so that a step hands every deferred look-up over to the frame that
waits for it (`Run.leftDeferred_eq_none`), and resolving a node leaves nothing pending, whether it
comes to a value or an error (`Run.Rests`).
-/

namespace FactScore

/-- How a frame stands, given the node of the frame above it, if there is one. -/
inductive Frame.Placed (run : Run) (frame : Frame) : Option NodeId → Prop where
  /-- It is on top.  What it asked for has values.  If it waited for a node, that is settled. -/
  | top {asked : List NodeId} (split : frame.node.deps = asked ++ frame.pending)
      (valued : ∀ dep ∈ asked, run.results.contains dep = true)
      (waited : ∀ target, frame.waitingFor = some target →
        frame.pending = [] ∧ run.settled target = true) : frame.Placed run none
  /-- The node above is the dependency that it asked for last.  What it asked for before has
      values. -/
  | asks {asked : List NodeId} {dep : NodeId}
      (split : frame.node.deps = asked ++ dep :: frame.pending)
      (valued : ∀ dep ∈ asked, run.results.contains dep = true)
      (idle : frame.waitingFor = none) : frame.Placed run (some dep)
  /-- Its computation waits for the node above.  All its dependencies have values. -/
  | waits {target : NodeId} (waiting : frame.waitingFor = some target)
      (pending : frame.pending = [])
      (valued : ∀ dep ∈ frame.node.deps, run.results.contains dep = true) :
      frame.Placed run (some target)

namespace Run

/-- Every frame of a stack is placed below the one above it, and the first one below the given
    node. -/
def Linked (run : Run) : Option NodeId → List Frame → Prop
  | _, [] => True
  | above, frame :: rest => frame.Placed run above ∧ run.Linked (some frame.id) rest

/-- The private state of a run fits its stack, of which the first frame is placed below the given
    node. -/
structure Consistent (graph : Graph) (above : Option NodeId) (run : Run) (stack : List Frame) :
    Prop extends Sound graph run stack where
  node_eq : ∀ frame ∈ stack, graph.find? frame.id = some frame.node
  /-- Only the nodes on the stack are marked. -/
  on_stack : ∀ id, run.active.contains id = true → id ∈ stack.map Frame.id
  /-- No node has both a value and an error. -/
  settled_once : ∀ id, run.results.contains id = true → run.failures.contains id = false
  settled_known : ∀ id, run.settled id = true → graph.contains id = true
  linked : run.Linked above stack

/-- One run knows of every value and every failure that another one knows of. -/
structure Extends (run run' : Run) : Prop where
  results : ∀ id, run.results.contains id = true → run'.results.contains id = true
  failures : ∀ id, run.failures.contains id = true → run'.failures.contains id = true

section

variable {graph : Graph} {run run' : Run} {above : Option NodeId} {frame frame' : Frame}
variable {stack rest : List Frame} {id : NodeId} {node : Node}

theorem settled_iff : run.settled id = true ↔
    run.results.contains id = true ∨ run.failures.contains id = true := by
  simp [settled]

theorem contains_of_standing_computed {value : Value}
    (h : run.standing graph id = .computed value) : run.results.contains id = true :=
  Option.isSome_iff_exists.mpr ⟨value, standing_computed h⟩

theorem Extends.settled (h : run.Extends run') (hid : run.settled id = true) :
    run'.settled id = true :=
  settled_iff.mpr ((settled_iff.mp hid).imp (h.results id) (h.failures id))

end

end Run

namespace Frame.Placed

variable {run run' : Run} {above : Option NodeId} {frame : Frame} {id : NodeId}

theorem mono (h : frame.Placed run above) (hextends : run.Extends run') :
    frame.Placed run' above := by
  cases h with
  | top split valued waited =>
    refine .top split (fun dep hdep => hextends.results dep (valued dep hdep)) fun target ht => ?_
    exact (waited target ht).imp_right hextends.settled
  | asks split valued idle =>
    exact .asks split (fun dep hdep => hextends.results dep (valued dep hdep)) idle
  | waits waiting pending valued =>
    exact .waits waiting pending fun dep hdep => hextends.results dep (valued dep hdep)

/-- A frame gets on top when the node above it is settled, by a value or by an error that it waits
    for. -/
theorem resume (h : frame.Placed run (some id)) (hextends : run.Extends run')
    (hid : run'.results.contains id = true ∨
      frame.waitingFor = some id ∧ run'.settled id = true) : frame.Placed run' none := by
  cases h with
  | @asks asked _ split valued idle =>
    have hvalue : run'.results.contains id = true := hid.resolve_right (by simp [idle])
    have hsplit : frame.node.deps = (asked ++ [id]) ++ frame.pending := by simpa using split
    refine .top hsplit (fun dep hdep => ?_) (by simp [idle])
    rcases List.mem_append.mp hdep with hdep | hdep
    · exact hextends.results dep (valued dep hdep)
    · exact List.mem_singleton.mp hdep ▸ hvalue
  | waits waiting pending valued =>
    refine .top (by simp [pending]) (fun dep hdep => hextends.results dep (valued dep hdep)) ?_
    intro target htarget
    cases waiting.symm.trans htarget
    exact ⟨pending, hid.elim (fun hvalue => Run.settled_iff.mpr (.inl hvalue)) And.right⟩

section

variable {dep : NodeId} {deps : List NodeId}

/-- A frame on top that still has something to ask for did not wait yet. -/
theorem waitingFor_eq_none (h : frame.Placed run none) (hpending : frame.pending = dep :: deps) :
    frame.waitingFor = none := by
  cases h with
  | top split valued waited =>
    cases hwaiting : frame.waitingFor with
    | none => rfl
    | some target =>
      have hempty := (waited target hwaiting).1
      rw [hpending] at hempty
      cases hempty

/-- A frame on top that has nothing more to ask for has values for all its dependencies. -/
theorem contains_dep (h : frame.Placed run none) (hpending : frame.pending = [])
    (hdep : dep ∈ frame.node.deps) : run.results.contains dep = true := by
  cases h with
  | top split valued waited =>
    rw [hpending, List.append_nil] at split
    exact valued dep (split ▸ hdep)

theorem ask (h : frame.Placed run none) (hpending : frame.pending = dep :: deps) :
    Frame.Placed run { frame with pending := deps } (some dep) := by
  have hidle := h.waitingFor_eq_none hpending
  cases h with
  | top split valued waited => exact .asks (hpending ▸ split) valued hidle

theorem skip (h : frame.Placed run none) (hpending : frame.pending = dep :: deps)
    (hvalue : run.results.contains dep = true) :
    Frame.Placed run { frame with pending := deps } none :=
  (h.ask hpending).resume ⟨fun _ hid => hid, fun _ hid => hid⟩ (.inl hvalue)

theorem suspend (h : frame.Placed run none) (hpending : frame.pending = []) (target : NodeId) :
    Frame.Placed run { frame with waitingFor := some target } (some target) :=
  .waits rfl hpending fun _ hdep => h.contains_dep hpending hdep

end

end Frame.Placed

namespace Run

section

variable {graph : Graph} {run run' : Run} {above above' : Option NodeId} {frame frame' : Frame}
variable {stack rest : List Frame} {id : NodeId} {node : Node}

theorem Linked.mono (h : run.Linked above stack) (hextends : run.Extends run') :
    run'.Linked above stack := by
  induction stack generalizing above with
  | nil => trivial
  | cons frame rest ih => exact ⟨h.1.mono hextends, ih h.2⟩

/-- What a move leaves: a consistent state.  At the end of a run the stack is empty. -/
def Keeps (graph : Graph) : Step → Prop
  | .next run stack => Consistent graph none run stack
  | .finished run => Consistent graph none run []
  | .stopped _ run => Consistent graph none run []

namespace Consistent

theorem empty (graph : Graph) : Consistent graph none {} [] where
  toSound := .nil
  node_eq := by simp
  on_stack := by simp [Entries.contains]
  settled_once := by simp [Entries.contains]
  settled_known := by simp [settled, Entries.contains]
  linked := trivial

theorem active_iff (h : Consistent graph above run stack) :
    run.active.contains id = true ↔ id ∈ stack.map Frame.id := by
  refine ⟨h.on_stack id, fun hid => ?_⟩
  obtain ⟨frame, hframe, rfl⟩ := List.mem_map.mp hid
  exact h.marked frame hframe

theorem active_unsettled (h : Consistent graph above run stack)
    (hid : run.active.contains id = true) :
    run.results.contains id = false ∧ run.failures.contains id = false := by
  obtain ⟨frame, hframe, rfl⟩ := List.mem_map.mp (h.on_stack id hid)
  exact Bool.or_eq_false_iff.mp (h.unsettled frame hframe)

/-- Everything that the private state mentions is in the graph. -/
theorem mentioned_known (h : Consistent graph above run stack)
    (hid : run.results.contains id = true ∨ run.failures.contains id = true ∨
      run.active.contains id = true) : graph.contains id = true := by
  rcases hid with hresult | hfailure | hmark
  · exact h.settled_known id (settled_iff.mpr (.inl hresult))
  · exact h.settled_known id (settled_iff.mpr (.inr hfailure))
  · obtain ⟨frame, hframe, rfl⟩ := List.mem_map.mp (h.on_stack id hmark)
    exact Option.isSome_iff_exists.mpr ⟨frame.node, h.node_eq frame hframe⟩

theorem active_eq_nil (h : Consistent graph above run []) : run.active = .nil := by
  refine Dict.ext fun id => ?_
  cases hfind : run.active.find? id with
  | none => rfl
  | some mark =>
    have := h.on_stack id (by simp [Entries.contains, hfind])
    cases this

/-- The top frame may change in everything but its node, as long as it is placed. -/
theorem replaceHead (h : Consistent graph above run (frame :: rest))
    (hplaced : frame'.Placed run above') (hid : frame'.id = frame.id)
    (hnode : frame'.node = frame.node) :
    Consistent graph above' run (frame' :: rest) where
  toSound := h.toSound.replaceHead hid
  node_eq := by
    intro other hother
    rcases List.mem_cons.mp hother with rfl | hother
    · rw [hid, hnode]
      exact h.node_eq frame List.mem_cons_self
    · exact h.node_eq other (List.mem_cons_of_mem _ hother)
  on_stack := by simpa [hid] using h.on_stack
  settled_once := h.settled_once
  settled_known := h.settled_known
  linked := ⟨hplaced, hid ▸ h.linked.2⟩

/-- A node that was not worked on gets on top. -/
theorem push (h : Consistent graph (some id) run stack)
    (hstanding : run.standing graph id = .unresolved node) :
    Consistent graph none { run with active := run.active.insert id () }
      ({ id, node, pending := node.deps } :: stack) where
  toSound := h.toSound.push hstanding
  node_eq := by
    intro other hother
    rcases List.mem_cons.mp hother with rfl | hother
    · exact (standing_unresolved hstanding).2.2
    · exact h.node_eq other hother
  on_stack := by
    intro other hother
    rw [Dict.contains_insert, Bool.or_eq_true, beq_iff_eq] at hother
    rw [List.map_cons, List.mem_cons]
    exact hother.imp_right (h.on_stack other)
  settled_once := h.settled_once
  settled_known := h.settled_known
  linked := by
    have hsplit : node.deps = [] ++ node.deps := rfl
    exact ⟨.top hsplit (by simp) (by simp), h.linked.mono ⟨fun _ h => h, fun _ h => h⟩⟩

/-- The top frame is taken off and unmarked, after its own node was settled or not. -/
theorem pop (h : Consistent graph above run (frame :: rest))
    (hactive : run'.active = run.active.erase frame.id)
    (hresults : ∀ id, id ≠ frame.id → run'.results.contains id = run.results.contains id)
    (hfailures : ∀ id, id ≠ frame.id → run'.failures.contains id = run.failures.contains id)
    (honce : run'.results.contains frame.id = true → run'.failures.contains frame.id = false)
    (hlinked : run'.Linked above' rest) : Consistent graph above' run' rest where
  toSound := h.toSound.pop hactive fun id hid => by
    simp only [settled, hresults id hid, hfailures id hid]
  node_eq := fun other hother => h.node_eq other (List.mem_cons_of_mem _ hother)
  on_stack := by
    intro id hid
    rw [hactive, Entries.contains_erase, Bool.and_eq_true, bne_iff_ne] at hid
    have hmem := h.on_stack id hid.2
    rw [List.map_cons, List.mem_cons] at hmem
    exact hmem.resolve_left hid.1
  settled_once := by
    intro id hid
    by_cases heq : id = frame.id
    · exact heq ▸ honce (heq ▸ hid)
    · rw [hresults id heq] at hid
      rw [hfailures id heq]
      exact h.settled_once id hid
  settled_known := by
    intro id hid
    by_cases heq : id = frame.id
    · exact Option.isSome_iff_exists.mpr ⟨frame.node, heq ▸ h.node_eq frame List.mem_cons_self⟩
    · refine h.settled_known id ?_
      rw [settled, hresults id heq, hfailures id heq] at hid
      exact hid
  linked := hlinked

theorem contains_results (h : Consistent graph above run (frame :: rest)) :
    run.results.contains frame.id = false :=
  (Bool.or_eq_false_iff.mp (h.unsettled frame List.mem_cons_self)).1

theorem contains_failures (h : Consistent graph above run (frame :: rest)) :
    run.failures.contains frame.id = false :=
  (Bool.or_eq_false_iff.mp (h.unsettled frame List.mem_cons_self)).2

/-- A frame that is given up leaves nothing. -/
theorem discard (h : Consistent graph above run (frame :: rest)) :
    Consistent graph (some frame.id) { run with active := run.active.erase frame.id } rest :=
  h.pop rfl (fun _ _ => rfl) (fun _ _ => rfl) (h.settled_once frame.id)
    (h.linked.2.mono ⟨fun _ hid => hid, fun _ hid => hid⟩)

/-- The error of a frame is left to the one below, which waits for it. -/
theorem remember {waiter : Frame} (h : Consistent graph above run (frame :: waiter :: rest))
    (hwaiting : waiter.waitingFor = some frame.id) (error : GraphError) :
    Consistent graph none { run with
      failures := run.failures.insert frame.id error
      active := run.active.erase frame.id } (waiter :: rest) := by
  have hextends : run.Extends { run with
      failures := run.failures.insert frame.id error
      active := run.active.erase frame.id } :=
    ⟨fun _ hid => hid, fun other hother => by simp [Dict.contains_insert, hother]⟩
  refine h.pop rfl (fun _ _ => rfl) (fun id hid => by simp [Dict.contains_insert, hid])
    (by simp [h.contains_results]) ⟨h.linked.2.1.resume hextends (.inr ⟨hwaiting, ?_⟩), ?_⟩
  · simp [settled, Dict.contains_insert]
  · exact h.linked.2.2.mono hextends

/-- The value of a frame is left to all below. -/
theorem complete (h : Consistent graph above run (frame :: rest)) (value : Value)
    (inputs : Inputs) : Consistent graph none (run.complete frame value inputs) rest := by
  have hresults (id : NodeId) : (run.complete frame value inputs).results.contains id =
      (id == frame.id || run.results.contains id) := Dict.contains_insert ..
  have hextends : run.Extends (run.complete frame value inputs) :=
    ⟨fun other hother => by rw [hresults, hother, Bool.or_true], fun _ hid => hid⟩
  refine h.pop rfl (fun id hid => by simp [hresults, hid]) (fun _ _ => rfl)
    (fun _ => h.contains_failures) ?_
  cases rest with
  | nil => trivial
  | cons below rest =>
    refine ⟨h.linked.2.1.resume hextends (.inl ?_), h.linked.2.2.mono hextends⟩
    simp [hresults]

/-- However the frames of a stack are given up, the state stays consistent. -/
theorem keeps_unwinds {error : GraphError} {last : Step}
    (h : Consistent graph above run stack) (hunwinds : Unwinds error run stack last) :
    Keeps graph last := by
  induction hunwinds generalizing above with
  | stop => exact { h with linked := trivial }
  | caught waiting => exact h.remember waiting error
  | through _ _ ih => exact ih h.discard

/-- Every step keeps the private state consistent, whatever the computations do. -/
theorem keeps_step (h : Consistent graph none run stack) (compute : Frame → Computation Value) :
    Keeps graph (step graph compute run stack) := by
  have hmoves := moves_step graph compute run stack
  generalize step graph compute run stack = last at hmoves
  cases hmoves with
  | finish => exact h
  | skip pending standing =>
    have hvalue := contains_of_standing_computed standing
    exact h.replaceHead (h.linked.1.skip pending hvalue) rfl rfl
  | demand pending standing =>
    exact (h.replaceHead (h.linked.1.ask pending) rfl rfl).push standing
  | refuse _ _ unwinds => exact h.keeps_unwinds unwinds
  | complete => exact h.complete _ _
  | suspend pending _ standing =>
    exact (h.replaceHead (h.linked.1.suspend pending _) rfl rfl).push standing
  | fail _ _ unwinds => exact h.keeps_unwinds unwinds

end Consistent

/-- The private state is consistent in every history. -/
theorem History.consistent {may : Behaviour} {asked : List NodeId}
    (h : History graph may asked run stack) : Consistent graph none run stack := by
  induction h with
  | start => exact .empty graph
  | known _ _ ih => exact ih
  | @enter asked run id node _ standing ih =>
    have hbelow : Consistent graph (some id) run [] := { ih with linked := trivial }
    exact hbelow.push standing
  | step compute _ _ next ih =>
    have hkeeps := ih.keeps_step compute
    rw [next] at hkeeps
    exact hkeeps

/-- When a step ends the run, no mark is left. -/
theorem Consistent.active_of_ending (h : Consistent graph none run stack)
    {compute : Frame → Computation Value} {ending : Except GraphError Unit × Run}
    (hending : (step graph compute run stack).ending = some ending) : ending.2.active = .nil := by
  have hkeeps := h.keeps_step compute
  generalize step graph compute run stack = last at hkeeps hending
  cases last with
  | next run₁ stack₁ => cases hending
  | finished run₁ =>
    cases hending
    exact hkeeps.active_eq_nil
  | stopped error run₁ =>
    cases hending
    exact hkeeps.active_eq_nil

/-- A run of the machine leaves no mark. -/
theorem History.active_runStack {may : Behaviour} {asked : List NodeId} {context : Context}
    {hsound : Sound graph run stack} {ending : Except GraphError Unit × Run}
    (h : History graph may asked run stack)
    (hmay : ∀ frame, may frame (frame.node.compute context))
    (hrun : runStack graph context run stack hsound = ending) : ending.2.active = .nil := by
  obtain ⟨run₁, stack₁, hhistory, hending⟩ := h.of_runStack hmay hrun
  exact hhistory.consistent.active_of_ending hending

/-- A node that is resolved leaves no mark, whether it has a value or not. -/
theorem History.active_settle {may : Behaviour} {asked : List NodeId} {context : Context}
    (h : History graph may asked run [])
    (hmay : ∀ frame, may frame (frame.node.compute context)) (id : NodeId) :
    (run.settle graph context id).2.active = .nil := by
  have hsettles := settles_settle graph context run id
  generalize run.settle graph context id = outcome at hsettles
  cases hsettles with
  | known => exact h.consistent.active_eq_nil
  | refused => exact h.consistent.active_eq_nil
  | stopped standing ran => exact (h.enter standing).active_runStack hmay ran
  | found standing ran _ => exact (h.enter standing).active_runStack hmay ran

end

section Deferral

variable {graph : Graph} {run : Run} {inputs : Inputs} {computation : Computation Value}

/-- What an attempt has read by the time its computation ends, with a value or an error. -/
def finalInputs (graph : Graph) (run : Run) (inputs : Inputs) : Computation Value → Inputs
  | .done _ => inputs
  | .fail _ => inputs
  | .lookup id resume =>
    let found := run.lookUp graph inputs id
    finalInputs graph run found.2 (resume found.1)

theorem Inputs.conclude_eq_waiting_iff {outcome : Attempt} {target : NodeId}
    (h : outcome ≠ .waiting target) :
    Inputs.conclude inputs outcome = .waiting target ↔ inputs.deferred = some target := by
  unfold Inputs.conclude
  cases inputs.deferred with
  | none => simpa using h
  | some first => simp

/-- However its computation ends, an attempt waits just when a look-up was deferred, and then for
    the node of the first such look-up. -/
theorem attempt_eq_waiting_iff {target : NodeId} :
    run.attempt graph inputs computation = .waiting target ↔
      (run.finalInputs graph inputs computation).deferred = some target := by
  induction computation generalizing inputs with
  | done value => exact Inputs.conclude_eq_waiting_iff nofun
  | fail error => exact Inputs.conclude_eq_waiting_iff nofun
  | lookup id resume ih =>
    rw [attempt_lookup]
    exact ih _

/-- An attempt that comes to something else had no look-up deferred. -/
theorem finalInputs_deferred_eq_none
    (h : ∀ target, run.attempt graph inputs computation ≠ .waiting target) :
    (run.finalInputs graph inputs computation).deferred = none :=
  Option.eq_none_iff_forall_ne_some.mpr fun target htarget =>
    h target (attempt_eq_waiting_iff.mpr htarget)

/-- The node whose look-up a step leaves deferred: the first such node of its attempt, unless the
    frame is made to wait for it. -/
def leftDeferred (graph : Graph) (compute : Frame → Computation Value) (run : Run) :
    List Frame → Option NodeId
  | [] => none
  | frame :: _ =>
    match frame.pending with
    | _ :: _ => none
    | [] =>
      let deferred :=
        (run.finalInputs graph (run.declared frame.node) (compute frame)).deferred
      match run.attempt graph (run.declared frame.node) (compute frame) with
      | .waiting target => if deferred = some target then none else deferred
      | .done _ _ => deferred
      | .failed _ => deferred

/-- No step leaves a look-up deferred. -/
theorem leftDeferred_eq_none (graph : Graph) (compute : Frame → Computation Value) (run : Run)
    (stack : List Frame) : run.leftDeferred graph compute stack = none := by
  unfold leftDeferred
  split
  · rfl
  next frame rest =>
    split
    · rfl
    · simp only
      split
      next target hattempt => rw [if_pos (attempt_eq_waiting_iff.mp hattempt)]
      next hattempt => exact finalInputs_deferred_eq_none (by simp [hattempt])
      next hattempt => exact finalInputs_deferred_eq_none (by simp [hattempt])

/-- Resolving a node has left nothing pending: no node is marked, and if the node was worked on,
    the step of the history that ended this, well or with the same error, left no look-up
    deferred. -/
structure Rests (graph : Graph) (context : Context) (asked : List NodeId) (run : Run)
    (id : NodeId) (outcome : Except GraphError Value × Run) : Prop where
  unmarked : outcome.2.active = .nil
  undeferred : ∀ node, run.standing graph id = .unresolved node →
    ∃ run₁ stack₁, History graph .any (asked ++ [id]) run₁ stack₁ ∧
      (step graph (fun frame => frame.node.compute context) run₁ stack₁).ending =
        some (outcome.1.map fun _ => (), outcome.2) ∧
      run₁.leftDeferred graph (fun frame => frame.node.compute context) stack₁ = none

/-- Resolving a node leaves nothing pending, whether it comes to a value or an error. -/
theorem History.rests_settle {asked : List NodeId} (h : History graph .any asked run [])
    (context : Context) (id : NodeId) :
    Rests graph context asked run id (run.settle graph context id) where
  unmarked := h.active_settle (fun _ => trivial) id
  undeferred := by
    intro node hstanding
    have hsettles := settles_settle graph context run id
    generalize run.settle graph context id = outcome at hsettles
    cases hsettles with
    | known standing => cases standing.symm.trans hstanding
    | refused standing => cases standing.symm.trans hstanding
    | stopped standing ran =>
      obtain ⟨run₁, stack₁, hhistory, hending⟩ :=
        (h.enter standing).of_runStack (fun _ => trivial) ran
      exact ⟨run₁, stack₁, hhistory, hending, leftDeferred_eq_none ..⟩
    | found standing ran _ =>
      obtain ⟨run₁, stack₁, hhistory, hending⟩ :=
        (h.enter standing).of_runStack (fun _ => trivial) ran
      exact ⟨run₁, stack₁, hhistory, hending, leftDeferred_eq_none ..⟩

end Deferral

/-- In every history, whatever the computations do: the nodes in progress are those on the stack,
    each once; no node is more than one of computed, failed and in progress, and all of these are
    in the graph; and every frame is placed below the one above it.  An attempt waits just when a
    look-up was deferred, even if its computation went on to a value or an error, so that no step
    leaves a look-up deferred.  When resolving a node comes to an end, with a value or an error,
    no node is in progress and nothing is left deferred. -/
theorem private_state_consistent {graph : Graph} {asked : List NodeId} {run : Run}
    {stack : List Frame} (h : History graph .any asked run stack) :
    (∀ id, run.active.contains id = true ↔ id ∈ stack.map Frame.id) ∧
    (stack.map Frame.id).Nodup ∧
    (∀ id, ¬ (run.results.contains id = true ∧ run.failures.contains id = true) ∧
      ¬ (run.results.contains id = true ∧ run.active.contains id = true) ∧
      ¬ (run.failures.contains id = true ∧ run.active.contains id = true)) ∧
    (∀ id, run.results.contains id = true ∨ run.failures.contains id = true ∨
      run.active.contains id = true → graph.contains id = true) ∧
    run.Linked none stack ∧
    (∀ inputs computation target, inputs.deferred = some target →
      run.attempt graph inputs computation = .waiting target) ∧
    (∀ inputs computation target, run.attempt graph inputs computation = .waiting target ↔
      (run.finalInputs graph inputs computation).deferred = some target) ∧
    (∀ compute, run.leftDeferred graph compute stack = none) ∧
    (∀ compute ending, (step graph compute run stack).ending = some ending →
      ending.2.active = .nil) ∧
    (stack = [] → ∀ context id,
      Rests graph context asked run id (run.settle graph context id)) := by
  have hconsistent := h.consistent
  refine ⟨fun id => hconsistent.active_iff, hconsistent.nodup, fun id => ⟨?_, ?_, ?_⟩,
    fun id => hconsistent.mentioned_known, hconsistent.linked,
    fun inputs computation target hdeferred => attempt_eq_waiting hdeferred computation,
    fun inputs computation target => attempt_eq_waiting_iff,
    fun compute => leftDeferred_eq_none graph compute run stack,
    fun compute ending => hconsistent.active_of_ending, ?_⟩
  · rintro ⟨hresult, hfailure⟩
    cases (hconsistent.settled_once id hresult).symm.trans hfailure
  · rintro ⟨hresult, hmark⟩
    cases (hconsistent.active_unsettled hmark).1.symm.trans hresult
  · rintro ⟨hfailure, hmark⟩
    cases (hconsistent.active_unsettled hmark).2.symm.trans hfailure
  · rintro rfl context id
    exact h.rests_settle context id

/-- A node that recovers from the failure of `risky` and goes on with `side`. -/
def mendingNode : Node where
  deps := ["base"]
  compute := fun _ => .lookup "risky" fun _ => .get "side"

def mendingGraph : Graph where
  nodes := .ofList
    [("base", { compute := fun _ => .done (.text "b") }),
      ("risky", { compute := fun _ => .fail (.compute "risky" "no data") }),
      ("side", { deps := ["base"], compute := fun _ => .get "base" }),
      ("top", mendingNode)]

theorem private_state_mendingGraph :
    (∃ run stack, History mendingGraph .any ["top"] run stack ∧
      stack.map Frame.id = ["side", "top"] ∧ stack.map Frame.waitingFor = [none, some "side"] ∧
      run.results.keys = ["base"] ∧ run.failures.keys = ["risky"] ∧
      (∀ id, run.active.contains id = true ↔ id ∈ ["side", "top"]) ∧ run.Linked none stack) ∧
    (∃ run, History mendingGraph .any ["top"] run
        [{ id := "top", node := mendingNode, pending := [] }] ∧
      (run.finalInputs mendingGraph (run.declared mendingNode)
        (mendingNode.compute .empty)).deferred = some "risky" ∧
      run.attempt mendingGraph (run.declared mendingNode) (mendingNode.compute .empty) =
        .waiting "risky") ∧
    (Run.settle mendingGraph .empty {} "risky").1 = .error (.compute "risky" "no data") ∧
    Rests mendingGraph .empty [] {} "risky" (Run.settle mendingGraph .empty {} "risky") := by
  have hentered : History mendingGraph .any ["top"] _ _ :=
    History.start.enter (show Run.standing mendingGraph {} "top" = .unresolved mendingNode from rfl)
  refine ⟨?_, ?_, ?_, ?_⟩
  · have hdriven : ∃ run stack, drive mendingGraph 5 (fun _ frame => frame.node.compute .empty)
          (push {} [] "top" mendingNode) = .next run stack ∧
        stack.map Frame.id = ["side", "top"] ∧ stack.map Frame.waitingFor = [none, some "side"] ∧
        run.results.keys = ["base"] ∧ run.failures.keys = ["risky"] :=
      ⟨_, _, rfl, rfl, rfl, rfl, rfl⟩
    obtain ⟨run, stack, hdrive, hids, hwaiting, hresults, hfailures⟩ := hdriven
    have hhistory := hentered.drive (fun _ _ => trivial) 5 hdrive
    obtain ⟨hactive, _, _, _, hlinked, _⟩ := private_state_consistent hhistory
    exact ⟨run, stack, hhistory, hids, hwaiting, hresults, hfailures, hids ▸ hactive, hlinked⟩
  · -- the computation goes on after the deferred answer, and fails at `side`
    have hdriven : ∃ run, drive mendingGraph 2 (fun _ frame => frame.node.compute .empty)
          (push {} [] "top" mendingNode) =
            .next run [{ id := "top", node := mendingNode, pending := [] }] ∧
        (run.finalInputs mendingGraph (run.declared mendingNode)
          (mendingNode.compute .empty)).deferred = some "risky" :=
      ⟨_, rfl, rfl⟩
    obtain ⟨run, hdrive, hdeferred⟩ := hdriven
    have hhistory := hentered.drive (fun _ _ => trivial) 2 hdrive
    obtain ⟨_, _, _, _, _, _, hwaits, _⟩ := private_state_consistent hhistory
    exact ⟨run, hhistory, hdeferred, (hwaits _ _ _).mpr hdeferred⟩
  · have hsettles := settles_settle mendingGraph .empty {} "risky"
    generalize Run.settle mendingGraph .empty {} "risky" = outcome at hsettles
    cases hsettles with
    | known standing => cases standing
    | refused standing => cases standing
    | stopped standing ran =>
      cases standing
      cases (runStack_of_stopped _ rfl).symm.trans ran
      rfl
    | found standing ran _ =>
      cases standing
      cases (runStack_of_stopped _ rfl).symm.trans ran
  · obtain ⟨_, _, _, _, _, _, _, _, _, hrests⟩ :=
      private_state_consistent (.start : History mendingGraph .any [] {} [])
    exact hrests rfl .empty "risky"

end Run

end FactScore
