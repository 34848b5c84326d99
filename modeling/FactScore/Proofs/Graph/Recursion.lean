import FactScore.Graph.Evaluation

/-!
# Recursive evaluation

The plain way to evaluate a graph, without a stack of frames and without attempts that are given
up.  A node is resolved by resolving its declared dependencies in order and then following its
computation once, with every look-up answered at the moment it is made.  The nodes that are being
resolved are the call stack, which is passed down as a list.
-/

namespace FactScore

/-- What is known about the nodes that were resolved. -/
structure Memory where
  results : Dict Value := .nil
  /-- The errors of the nodes that a computation looked up and that failed. -/
  failures : Dict GraphError := .nil
  trace : Trace := {}

/-- What a computation has read. -/
structure Reading where
  /-- Every value that it saw. -/
  values : Dict Value
  /-- The nodes it looked up and had not declared, in order. -/
  adHoc : List NodeId := []

/-- On whose behalf a node is resolved. -/
inductive Request where
  /-- It is wanted, or it is a declared dependency. -/
  | demand
  /-- A computation looks it up. -/
  | lookup
  deriving DecidableEq, Repr

namespace Reading

/-- Read one more node. -/
def add (reading : Reading) (id : NodeId) (value : Value) : Reading where
  values := reading.values.insert id value
  adHoc := reading.adHoc ++ [id]

/-- The record of a node that was computed from a reading. -/
def record (reading : Reading) (id : NodeId) (node : Node) (value : Value) : TraceRecord where
  id := id
  deps := node.deps
  formula := node.formula
  explain := node.explain
  input := reading.values
  output := value

/-- The edges of a node that was computed from a reading: one from each node that was read, the
    declared dependencies first. -/
def edges (reading : Reading) (id : NodeId) (node : Node) : List TraceEdge :=
  (node.deps ++ reading.adHoc).eraseDups.map fun source => ⟨source, id⟩

/-- The edges of a node come from what it read. -/
@[simp] theorem mem_edges_iff {reading : Reading} {id : NodeId} {node : Node} {edge : TraceEdge} :
    edge ∈ reading.edges id node ↔
      edge.target = id ∧ (edge.source ∈ node.deps ∨ edge.source ∈ reading.adHoc) := by
  simp only [edges, List.mem_map, List.mem_eraseDups, List.mem_append]
  constructor
  · rintro ⟨source, hsource, rfl⟩
    exact ⟨rfl, hsource⟩
  · rintro ⟨rfl, hsource⟩
    exact ⟨edge.source, hsource, rfl⟩

end Reading

namespace Memory

/-- The values of the declared dependencies of a node. -/
def declared (memory : Memory) (node : Node) : Reading where
  values := .ofList (node.deps.map fun dep => (dep, (memory.results.find? dep).getD .missing))

/-- Keep the error of a node that was looked up. -/
def remember (memory : Memory) (id : NodeId) (error : GraphError) : Memory :=
  { memory with failures := memory.failures.insert id error }

/-- Keep the error of a node if it was looked up. -/
def noteFailure (memory : Memory) (id : NodeId) (error : GraphError) : Request → Memory
  | .demand => memory
  | .lookup => memory.remember id error

/-- Keep the value of a node, with its record and its edges. -/
def complete (memory : Memory) (id : NodeId) (node : Node) (value : Value) (reading : Reading) :
    Memory :=
  { memory with
    results := memory.results.insert id value
    trace := {
      records := memory.trace.records ++ [reading.record id node value]
      edges := memory.trace.edges ++ reading.edges id node } }

section

variable {memory : Memory} {id : NodeId} {node : Node} {value : Value} {reading : Reading}

@[simp] theorem results_complete : (memory.complete id node value reading).results =
    memory.results.insert id value := rfl

@[simp] theorem failures_complete : (memory.complete id node value reading).failures =
    memory.failures := rfl

@[simp] theorem records_complete : (memory.complete id node value reading).trace.records =
    memory.trace.records ++ [reading.record id node value] := rfl

@[simp] theorem edges_complete : (memory.complete id node value reading).trace.edges =
    memory.trace.edges ++ reading.edges id node := rfl

@[simp] theorem results_remember {error : GraphError} :
    (memory.remember id error).results = memory.results := rfl

@[simp] theorem failures_remember {error : GraphError} :
    (memory.remember id error).failures = memory.failures.insert id error := rfl

end

/-- Resolve nodes in order.  The first error ends it. -/
def resolveDeps (resolve : Memory → NodeId → Except GraphError Value × Memory)
    (memory : Memory) : List NodeId → Except GraphError Unit × Memory
  | [] => (.ok (), memory)
  | dep :: deps =>
    match resolve memory dep with
    | (.ok _, memory) => resolveDeps resolve memory deps
    | (.error error, memory) => (.error error, memory)

/-- Follow a computation.  A look-up is answered from what was read before, or else by resolving
    the node there and then. -/
def follow (resolve : Memory → NodeId → Except GraphError Value × Memory)
    (memory : Memory) (reading : Reading) :
    Computation Value → Except GraphError (Value × Reading) × Memory
  | .done value => (.ok (value, reading), memory)
  | .fail error => (.error error, memory)
  | .lookup id resume =>
    match reading.values.find? id with
    | some value => follow resolve memory reading (resume (.ok value))
    | none =>
      match resolve memory id with
      | (.ok value, memory) => follow resolve memory (reading.add id value) (resume (.ok value))
      | (.error error, memory) => follow resolve memory reading (resume (.error error))

/-- Compute a node, given a way to resolve others. -/
def computeNode (resolve : Request → Memory → NodeId → Except GraphError Value × Memory)
    (context : Context) (memory : Memory) (id : NodeId) (node : Node) :
    Except GraphError Value × Memory :=
  match resolveDeps (resolve .demand) memory node.deps with
  | (.error error, memory) => (.error error, memory)
  | (.ok (), memory) =>
    match follow (resolve .lookup) memory (memory.declared node) (node.compute context) with
    | (.error error, memory) => (.error error, memory)
    | (.ok (value, reading), memory) => (.ok value, memory.complete id node value reading)

/-- How many nodes of a graph are not on the call stack. -/
def idle (graph : Graph) (callers : List NodeId) : Nat :=
  graph.ids.countP fun id => !callers.contains id

theorem idle_cons_lt {graph : Graph} {callers : List NodeId} {id : NodeId} {node : Node}
    (hcallers : id ∉ callers) (hfind : graph.find? id = some node) :
    idle graph (id :: callers) < idle graph callers := by
  refine countP_lt_countP (fun other _ h => ?_) ⟨id, Run.mem_ids_of_find? hfind, ?_, ?_⟩
  · rw [List.contains_cons] at h
    revert h
    cases other == id <;> simp
  · simpa using hcallers
  · simp

/-- Resolve a node. -/
def resolve (graph : Graph) (context : Context) (callers : List NodeId) :
    Request → Memory → NodeId → Except GraphError Value × Memory :=
  fun request memory id =>
    match memory.results.find? id with
    | some value => (.ok value, memory)
    | none =>
      match memory.failures.find? id with
      | some error => (.error error, memory)
      | none =>
        if _hcallers : id ∈ callers then (.error (.cycleDetected id), memory)
        else
          match _hfind : graph.find? id with
          | none => (.error (.unknownNode id), memory)
          | some node =>
            match computeNode (resolve graph context (id :: callers)) context memory id node with
            | (.ok value, memory) => (.ok value, memory)
            | (.error error, memory) => (.error error, memory.noteFailure id error request)
termination_by idle graph callers
decreasing_by exact idle_cons_lt _hcallers _hfind

/-- Induction on the call stack from its top: what holds of a call stack if it holds of every one
    with one more node of the graph holds of them all. -/
theorem callers_induction (graph : Graph) {motive : List NodeId → Prop}
    (step : ∀ callers, (∀ id node, id ∉ callers → graph.find? id = some node →
      motive (id :: callers)) → motive callers) (callers : List NodeId) : motive callers :=
  step callers fun id _ _hcallers _hfind => callers_induction graph step (id :: callers)
termination_by idle graph callers
decreasing_by exact idle_cons_lt _hcallers _hfind

/-- Resolve wanted nodes one after another.  The first error ends it. -/
def resolveAll (graph : Graph) (context : Context) (memory : Memory) :
    List NodeId → Except GraphError Memory
  | [] => .ok memory
  | id :: rest =>
    match resolve graph context [] .demand memory id with
    | (.ok _, memory) => resolveAll graph context memory rest
    | (.error error, _) => .error error

/-- What is known, as the outcome of an evaluation. -/
def evaluation (memory : Memory) : Evaluation where
  results := memory.results
  trace := memory.trace

/-- The run of the stack machine that knows the same and works on the nodes of a call stack. -/
def run (memory : Memory) (callers : List NodeId) : Run where
  results := memory.results
  failures := memory.failures
  active := Dict.insertKeys .nil callers ()
  trace := memory.trace

/-- A node of the graph that is not on the call stack and that nothing is known about. -/
structure Pending (graph : Graph) (callers : List NodeId) (memory : Memory) (id : NodeId)
    (node : Node) : Prop where
  not_caller : id ∉ callers
  no_result : memory.results.find? id = none
  no_failure : memory.failures.find? id = none
  find?_eq : graph.find? id = some node

section

variable {graph : Graph} {context : Context} {callers : List NodeId} {memory : Memory}
variable {id : NodeId} {node : Node}

@[simp] theorem contains_active (memory : Memory) (callers : List NodeId) (id : NodeId) :
    (memory.run callers).active.contains id = callers.contains id := by
  change (Dict.insertKeys .nil callers ()).contains id = callers.contains id
  rw [Dict.contains_insertKeys]
  simp [Entries.contains]

/-- A pending node is one that the stack machine has not worked on. -/
theorem standing_eq_unresolved_iff :
    (memory.run callers).standing graph id = .unresolved node ↔
      Pending graph callers memory id node := by
  constructor
  · intro h
    obtain ⟨hsettled, hactive, hfind⟩ := Run.standing_unresolved h
    simp only [Run.settled, Bool.or_eq_false_iff, Entries.contains, Option.isSome_eq_false_iff,
      Option.isNone_iff_eq_none] at hsettled
    exact ⟨by simpa using hactive, hsettled.1, hsettled.2, hfind⟩
  · intro h
    have hresult : (memory.run callers).results.find? id = none := h.no_result
    have hfailure : (memory.run callers).failures.find? id = none := h.no_failure
    simp [Run.standing, hresult, hfailure, h.not_caller, h.find?_eq]

theorem find?_of_standing_computed {value : Value}
    (h : (memory.run callers).standing graph id = .computed value) :
    memory.results.find? id = some value :=
  Run.standing_computed h

/-- Why a node is refused. -/
theorem refused_of_standing {error : GraphError}
    (h : (memory.run callers).standing graph id = .refused error) :
    memory.failures.find? id = some error ∨ id ∈ callers ∧ error = .cycleDetected id ∨
      graph.find? id = none ∧ error = .unknownNode id := by
  have hrefused := Run.standing_refused h
  rw [contains_active, List.contains_iff_mem] at hrefused
  exact hrefused

/-- Resolving a node, by how it stands. -/
theorem resolve_eq (graph : Graph) (context : Context) (callers : List NodeId)
    (request : Request) (memory : Memory) (id : NodeId) :
    resolve graph context callers request memory id =
      match (memory.run callers).standing graph id with
      | .computed value => (.ok value, memory)
      | .refused error => (.error error, memory)
      | .unresolved node =>
        match computeNode (resolve graph context (id :: callers)) context memory id node with
        | (.ok value, memory) => (.ok value, memory)
        | (.error error, memory) => (.error error, memory.noteFailure id error request) := by
  rw [resolve]
  unfold Run.standing
  simp only [contains_active, List.contains_iff_mem]
  cases hresult : memory.results.find? id with
  | some value => simp [run, hresult]
  | none =>
    cases hfailure : memory.failures.find? id with
    | some error => simp [run, hresult, hfailure]
    | none =>
      by_cases hcaller : id ∈ callers
      · simp [run, hresult, hfailure, hcaller]
      · simp only [run, hresult, hfailure, hcaller, dite_false, if_false]
        split
        next hfind => simp [hfind]
        next node hfind => simp [hfind]

end

end Memory

/-- Evaluate the wanted nodes of a graph over a context, by recursion. -/
def Graph.evaluateRecursively (graph : Graph) (context : Context) (wanted : List NodeId) :
    Except GraphError Evaluation :=
  (Memory.resolveAll graph context {} wanted).map Memory.evaluation

end FactScore
