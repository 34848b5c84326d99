import FactScore.Graph

/-!
# Runs

A run resolves nodes one after another and remembers what it has computed.  It keeps the nodes it
is working on in an explicit stack of frames.  A frame first asks for its declared dependencies;
then its computation is attempted.  An attempt that looks up a node without a value is given up:
that node is put on the stack, and the computation is attempted again when it is settled.

One step of this machine is `Run.step`.  It takes the computations as a parameter, so that what is
said about steps holds however they behave.
-/

namespace FactScore

/-- What a run has found so far. -/
structure Run where
  /-- The values of the nodes that were computed. -/
  results : Dict Value := .nil
  /-- The errors of the nodes that were looked up and failed. -/
  failures : Dict GraphError := .nil
  /-- The nodes on the stack. -/
  active : Dict Unit := .nil
  trace : Trace := {}

/-- A node that is being worked on. -/
structure Frame where
  id : NodeId
  node : Node
  /-- The declared dependencies that were not asked for yet. -/
  pending : List NodeId
  /-- The node that the last attempt looked up and that had no value. -/
  waitingFor : Option NodeId := none

/-- How a node stands in a run. -/
inductive Standing where
  | computed (value : Value)
  /-- It cannot be had, for this reason. -/
  | refused (error : GraphError)
  /-- It is in the graph and was not worked on yet. -/
  | unresolved (node : Node)

/-- What an attempt has read. -/
structure Inputs where
  /-- The values it was given. -/
  values : Dict Value
  /-- The nodes it looked up and had not declared, in order. -/
  adHoc : List NodeId := []
  /-- The first node it looked up that had no value. -/
  deferred : Option NodeId := none

/-- What an attempt comes to. -/
inductive Attempt where
  | done (value : Value) (inputs : Inputs)
  | waiting (target : NodeId)
  | failed (error : GraphError)

namespace Run

/-- How a node stands. -/
def standing (graph : Graph) (run : Run) (id : NodeId) : Standing :=
  match run.results.find? id with
  | some value => .computed value
  | none =>
    match run.failures.find? id with
    | some error => .refused error
    | none =>
      if run.active.contains id then .refused (.cycleDetected id)
      else
        match graph.find? id with
        | none => .refused (.unknownNode id)
        | some node => .unresolved node

/-- The outcome of an attempt whose computation came to an end: once it was given a deferred
    answer, whatever it made of that is dropped. -/
def Inputs.conclude (inputs : Inputs) (outcome : Attempt) : Attempt :=
  match inputs.deferred with
  | some target => .waiting target
  | none => outcome

/-- Follow a computation, answering its look-ups. -/
def attempt (graph : Graph) (run : Run) (inputs : Inputs) : Computation Value → Attempt
  | .done value => Inputs.conclude inputs (.done value inputs)
  | .fail error => Inputs.conclude inputs (.failed error)
  | .lookup id resume =>
    match inputs.values.find? id with
    | some value => attempt graph run inputs (resume (.ok value))
    | none =>
      match run.standing graph id with
      | .computed value =>
        let inputs :=
          { inputs with values := inputs.values.insert id value, adHoc := inputs.adHoc ++ [id] }
        attempt graph run inputs (resume (.ok value))
      | .refused error => attempt graph run inputs (resume (.error error))
      | .unresolved _ =>
        let inputs := { inputs with deferred := inputs.deferred.or (some id) }
        attempt graph run inputs (resume (.error (.deferred id)))

/-- The values of the declared dependencies of a node. -/
def declared (run : Run) (node : Node) : Inputs where
  values := .ofList (node.deps.map fun dep => (dep, (run.results.find? dep).getD .missing))

/-- The run after the node of a frame was computed. -/
def complete (run : Run) (frame : Frame) (value : Value) (inputs : Inputs) : Run :=
  let sources := (frame.node.deps ++ inputs.adHoc).eraseDups
  { run with
    results := run.results.insert frame.id value
    active := run.active.erase frame.id
    trace := {
      records := run.trace.records ++ [{
        id := frame.id
        deps := frame.node.deps
        formula := frame.node.formula
        explain := frame.node.explain
        input := inputs.values
        output := value }]
      edges := run.trace.edges ++ sources.map fun source => ⟨source, frame.id⟩ } }

/-- What a step leads to. -/
inductive Step where
  /-- The stack is not empty yet, or was not seen to be. -/
  | next (run : Run) (stack : List Frame)
  | finished (run : Run)
  /-- An error that no frame was waiting for. -/
  | stopped (error : GraphError) (run : Run)

/-- Take failed frames off the stack down to one that was waiting for the last frame taken off.
    That frame goes on, and its look-up is answered with the error. -/
def abandon (run : Run) (error : GraphError) : List Frame → Step
  | [] => .stopped error run
  | frame :: rest =>
    let run := { run with active := run.active.erase frame.id }
    match rest with
    | [] => .stopped error run
    | waiter :: _ =>
      if waiter.waitingFor = some frame.id then
        .next { run with failures := run.failures.insert frame.id error } rest
      else abandon run error rest

/-- Put a node on the stack. -/
def push (run : Run) (stack : List Frame) (id : NodeId) (node : Node) : Step :=
  .next { run with active := run.active.insert id () }
    ({ id, node, pending := node.deps } :: stack)

/-- See to it that a node has a value, on behalf of the top of the stack. -/
def demand (graph : Graph) (run : Run) (stack : List Frame) (id : NodeId) : Step :=
  match run.standing graph id with
  | .computed _ => .next run stack
  | .refused error => abandon run error stack
  | .unresolved node => push run stack id node

/-- One step of the machine. -/
def step (graph : Graph) (compute : Frame → Computation Value) (run : Run) : List Frame → Step
  | [] => .finished run
  | frame :: rest =>
    match frame.pending with
    | dep :: deps => demand graph run ({ frame with pending := deps } :: rest) dep
    | [] =>
      match run.attempt graph (run.declared frame.node) (compute frame) with
      | .done value inputs => .next (run.complete frame value inputs) rest
      | .waiting target =>
        demand graph run ({ frame with waitingFor := some target } :: rest) target
      | .failed error => abandon run error ({ frame with waitingFor := none } :: rest)

end Run

end FactScore
