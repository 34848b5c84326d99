import FactScore.Context
import FactScore.Trace

/-!
# Fact graphs

A graph maps node ids to computations over a context.  A computation is a tree: it ends with a
value or an error, or it looks up another node and goes on with the answer, which is a value or
the error of that look-up.  It may look up any node, in any order, and may recover from a failed
look-up.
-/

namespace FactScore

/-- Why a node has no value. -/
inductive GraphError where
  /-- No node has this id. -/
  | unknownNode (id : NodeId)
  /-- A node is needed for its own value. -/
  | cycleDetected (id : NodeId)
  /-- A computation failed. -/
  | compute (node : NodeId) (message : String)
  /-- The answer to a look-up of a node without a value so far.  The computation that gets it is
      run again once the node has one. -/
  | deferred (id : NodeId)
  deriving DecidableEq, Repr, Inhabited

def GraphError.message : GraphError → String
  | .unknownNode id => "unknown graph node '" ++ id ++ "'"
  | .cycleDetected id => "cycle detected at graph node '" ++ id ++ "'"
  | .compute node message => "node '" ++ node ++ "' failed to compute: " ++ message
  | .deferred id => "lookup of graph node '" ++ id ++ "' deferred until it is resolved"

/-- A computation that looks up nodes. -/
inductive Computation (α : Type) where
  | done (value : α)
  | fail (error : GraphError)
  | lookup (id : NodeId) (resume : Except GraphError Value → Computation α)

namespace Computation

variable {α β : Type}

/-- Go on with the value of a computation. -/
def bind : Computation α → (α → Computation β) → Computation β
  | done value, next => next value
  | fail error, _ => fail error
  | lookup id resume, next => lookup id fun answer => (resume answer).bind next

instance : Monad Computation where
  pure := done
  bind := bind

/-- The answer to a look-up, which may be an error. -/
def tryGet (id : NodeId) : Computation (Except GraphError Value) :=
  lookup id done

/-- A computation that has come to a result already. -/
def ofExcept : Except GraphError α → Computation α
  | .ok value => done value
  | .error error => fail error

/-- The value of a node; a failed look-up fails the computation. -/
def get (id : NodeId) : Computation Value :=
  lookup id ofExcept

/-- A value as a number, on behalf of a node that took it from another one. -/
def expectNumber (node id : NodeId) : Value → Except GraphError Float
  | .number x => .ok x
  | value =>
    .error (.compute node ("input '" ++ id ++ "' is " ++ value.kindName ++ ", expected a number"))

/-- The answer to a look-up on behalf of a node, which has to be a number. -/
def tryNumber (node id : NodeId) : Computation (Except GraphError Float) :=
  lookup id fun answer => done (answer.bind (expectNumber node id))

/-- The value of a node on behalf of another one, which has to be a number. -/
def number (node id : NodeId) : Computation Float :=
  lookup id fun answer => ofExcept (answer.bind (expectNumber node id))

end Computation

/-- A node of a graph. -/
structure Node where
  /-- The declared dependencies, which are resolved before the computation runs. -/
  deps : List NodeId := []
  /-- The formula that the trace shows. -/
  formula : String := ""
  /-- The explanation that the trace shows. -/
  explain : String := ""
  compute : Context → Computation Value

/-- The node that reads a fact. -/
def Node.ofFact (path : FactPath) : Node where
  formula := "ctx." ++ path.text
  compute := fun context => .done (context.get path)

/-- Nodes by id. -/
structure Graph where
  nodes : Dict Node := .nil

namespace Graph

def empty : Graph := {}

/-- Put in a node, in place of the one that had its id. -/
def insert (graph : Graph) (id : NodeId) (node : Node) : Graph :=
  ⟨graph.nodes.insert id node⟩

def find? (graph : Graph) (id : NodeId) : Option Node :=
  graph.nodes.find? id

def contains (graph : Graph) (id : NodeId) : Bool :=
  graph.nodes.contains id

/-- The ids of all nodes, in order. -/
def ids (graph : Graph) : List NodeId :=
  graph.nodes.keys

def size (graph : Graph) : Nat :=
  graph.nodes.size

def isEmpty (graph : Graph) : Bool :=
  graph.nodes.isEmpty

end Graph

end FactScore
