import FactScore.Data.Record
import FactScore.Dict.Count
import FactScore.Value

/-!
# Audit traces

A trace has one record for each computed node, in the order of completion, and the edges along
which values went from node to node.  `Trace.lineage` gives everything a node depended on.
-/

namespace FactScore

/-- The id of a graph node, which is also the path its value is published at. -/
abbrev NodeId := String

/-- The record of one computed node. -/
structure TraceRecord where
  id : NodeId
  /-- The declared dependencies. -/
  deps : List NodeId
  formula : String
  explain : String
  /-- Every value that the computation saw. -/
  input : Dict Value
  output : Value
  deriving Inhabited

/-- The edge from a node to one that took its value. -/
structure TraceEdge where
  source : NodeId
  target : NodeId
  deriving DecidableEq, Repr, Inhabited

/-- Records and edges of an evaluation. -/
structure Trace where
  records : List TraceRecord := []
  edges : List TraceEdge := []
  deriving Inhabited

namespace TraceRecord

open Data in
/-- The record that some data is the form of. -/
def ofData (data : Data) : Except Fault TraceRecord := do
  let id : RecordField String := ⟨"id", asText⟩
  let deps : RecordField (List String) := ⟨"deps", asList asText⟩
  let formula : RecordField String := ⟨"formula", asText⟩
  let explain : RecordField String := ⟨"explain", asText⟩
  let input : RecordField (Dict Value) := ⟨"input", asDict fun item => .ok (Value.ofData item)⟩
  let output : RecordField Value := ⟨"output", fun item => .ok (Value.ofData item)⟩
  let fields ← data.record [id.check, deps.check, formula.check, explain.check, input.check,
    output.check]
  return {
    id := ← fields.required id
    deps := ← fields.required deps
    formula := ← fields.required formula
    explain := ← fields.required explain
    input := ← fields.required input
    output := ← fields.required output }

end TraceRecord

namespace TraceEdge

open Data in
/-- The edge that some data is the form of. -/
def ofData (data : Data) : Except Fault TraceEdge := do
  let source : RecordField String := ⟨"from", asText⟩
  let target : RecordField String := ⟨"to", asText⟩
  let fields ← data.record [source.check, target.check]
  return { source := ← fields.required source, target := ← fields.required target }

end TraceEdge

namespace Trace

open Data in
/-- The trace that some data is the form of. -/
def ofData (data : Data) : Except Fault Trace := do
  let records : RecordField (List TraceRecord) := ⟨"nodes", asList TraceRecord.ofData⟩
  let edges : RecordField (List TraceEdge) := ⟨"edges", asList TraceEdge.ofData⟩
  let fields ← data.record [records.check, edges.check]
  return { records := ← fields.required records, edges := ← fields.required edges }

/-- The first record of a node. -/
def record? (trace : Trace) (id : NodeId) : Option TraceRecord :=
  trace.records.find? fun record => record.id == id

/-- The nodes that edges lead from to a node, in the order of the edges. -/
def inputsOf (trace : Trace) (id : NodeId) : List NodeId :=
  (trace.edges.filter fun edge => edge.target == id).map TraceEdge.source

/-- The inputs of a node that have not been seen yet. -/
def newInputs (trace : Trace) (seen : Dict Unit) (id : NodeId) : List NodeId :=
  (trace.inputsOf id).filter fun input => !seen.contains input

/-- The nodes that edges lead from. -/
def sources (trace : Trace) : List NodeId :=
  trace.edges.map TraceEdge.source

theorem missing_newInputs_lt {trace : Trace} {seen : Dict Unit} {id : NodeId}
    (h : trace.newInputs seen id ≠ []) :
    (seen.insertKeys (trace.newInputs seen id) ()).missing trace.sources <
      seen.missing trace.sources := by
  obtain ⟨input, hinput⟩ := List.exists_mem_of_ne_nil _ h
  have hmem := hinput
  simp only [newInputs, inputsOf, List.mem_filter, List.mem_map] at hmem
  obtain ⟨⟨edge, ⟨hedge, _⟩, hsource⟩, habsent⟩ := hmem
  refine countP_lt_countP (fun other _ hother => ?_) ⟨input, ?_, habsent, ?_⟩
  · rw [Dict.contains_insertKeys] at hother
    revert hother
    cases (trace.newInputs seen id).contains other <;> simp
  · exact List.mem_map.mpr ⟨edge, hedge, hsource⟩
  · simp [Dict.contains_insertKeys, hinput]

/-- Everything that feeds some pending nodes, added to what has been seen already. -/
def explore (trace : Trace) (seen : Dict Unit) (pending : List NodeId) : Dict Unit :=
  match pending with
  | [] => seen
  | id :: rest =>
    match _h : trace.newInputs seen id with
    | [] => explore trace seen rest
    | input :: inputs =>
      explore trace (seen.insertKeys (input :: inputs) ()) (input :: inputs ++ rest)
termination_by (seen.missing trace.sources, pending.length)
decreasing_by
  · exact Prod.Lex.right _ (Nat.lt_succ_self _)
  · refine Prod.Lex.left _ _ ?_
    rw [← _h]
    exact missing_newInputs_lt (by rw [_h]; exact List.cons_ne_nil _ _)

/-- Every other node that a node depended on, directly or through others, in order. -/
def lineage (trace : Trace) (id : NodeId) : List NodeId :=
  ((trace.explore .nil [id]).erase id).keys

end Trace

end FactScore
