import FactScore.Proofs.Graph.Refinement
import Mathlib.Data.List.Permutation

/-!
# Coherence of audit traces

The trace of an evaluation fits its results: one record for each result, and one edge for each
value that a computation saw, along which the records are in order (`Trace.Coherent`).  Every gain
of a memory keeps this, and so every evaluation has it (`Graph.coherent_of_evaluate`).
-/

namespace FactScore

theorem nodup_eraseDups {α : Type} [BEq α] [LawfulBEq α] (xs : List α) : xs.eraseDups.Nodup := by
  induction hlength : xs.length using Nat.strongRecOn generalizing xs with
  | ind n ih =>
    cases xs with
    | nil => simp
    | cons x xs =>
      have hfilter := List.length_filter_le (fun y => !y == x) xs
      rw [List.length_cons] at hlength
      rw [List.eraseDups_cons, List.nodup_cons]
      exact ⟨by simp [List.mem_eraseDups], ih _ (by omega) _ rfl⟩

theorem Reading.nodup_edges (reading : Reading) (id : NodeId) (node : Node) :
    (reading.edges id node).Nodup :=
  List.Pairwise.map _ (fun _ _ hne heq => hne (TraceEdge.mk.inj heq).1) (nodup_eraseDups _)

/-- What comes before something else in a list without repetitions has the smaller index. -/
theorem idxOf_lt_of_sublist {xs : List String} {first second : String} (hnodup : xs.Nodup)
    (h : [first, second].Sublist xs) : xs.idxOf first < xs.idxOf second := by
  induction xs with
  | nil => cases h
  | cons x xs ih =>
    obtain ⟨hx, hxs⟩ := List.nodup_cons.mp hnodup
    cases h with
    | cons _ h =>
      have hfirst : first ≠ x := fun heq => hx (heq ▸ h.subset (by simp))
      have hsecond : second ≠ x := fun heq => hx (heq ▸ h.subset (by simp))
      rw [List.idxOf_cons_ne _ hfirst.symm, List.idxOf_cons_ne _ hsecond.symm]
      exact Nat.succ_lt_succ (ih hxs h)
    | cons_cons _ h =>
      have hsecond : second ≠ first := fun heq => hx (heq ▸ h.subset (by simp))
      rw [List.idxOf_cons_self, List.idxOf_cons_ne _ hsecond.symm]
      exact Nat.succ_pos _

namespace Trace

/-- The nodes that have a record, in the order of their records. -/
def ids (trace : Trace) : List NodeId :=
  trace.records.map TraceRecord.id

/-- An edge leads from one node to another. -/
def Feeds (trace : Trace) (source target : NodeId) : Prop :=
  ⟨source, target⟩ ∈ trace.edges

/-- One node has a record strictly before a record of another. -/
def Precedes (trace : Trace) (first second : NodeId) : Prop :=
  [first, second].Sublist trace.ids

/-- A trace fits the results of an evaluation. -/
structure Coherent (graph : Graph) (results : Dict Value) (trace : Trace) : Prop where
  ids_nodup : trace.ids.Nodup
  mem_ids_iff : ∀ id, id ∈ trace.ids ↔ id ∈ results.keys
  output_eq : ∀ record ∈ trace.records, results.find? record.id = some record.output
  mem_input_iff : ∀ record ∈ trace.records, ∀ source,
    source ∈ record.input.keys ↔ trace.Feeds source record.id
  input_eq : ∀ record ∈ trace.records, ∀ source ∈ record.input.keys,
    record.input.find? source = results.find? source
  declared : ∀ record ∈ trace.records, ∃ node, graph.find? record.id = some node ∧
    record.deps = node.deps ∧ ∀ dep ∈ node.deps, trace.Feeds dep record.id
  edges_nodup : trace.edges.Nodup
  precedes : ∀ source target, trace.Feeds source target → trace.Precedes source target

theorem Precedes.mem_left {trace : Trace} {first second : NodeId}
    (h : trace.Precedes first second) : first ∈ trace.ids :=
  h.subset (by simp)

theorem Precedes.mem_right {trace : Trace} {first second : NodeId}
    (h : trace.Precedes first second) : second ∈ trace.ids :=
  h.subset (by simp)

namespace Coherent

variable {graph : Graph} {results : Dict Value} {trace : Trace}

/-- Along the edges of a coherent trace, the records come later and later. -/
theorem idxOf_lt (h : trace.Coherent graph results) {source target : NodeId}
    (hpath : Relation.TransGen trace.Feeds source target) :
    trace.ids.idxOf source < trace.ids.idxOf target := by
  induction hpath with
  | single hfeeds => exact idxOf_lt_of_sublist h.ids_nodup (h.precedes _ _ hfeeds)
  | tail _ hfeeds ih =>
    exact Nat.lt_trans ih (idxOf_lt_of_sublist h.ids_nodup (h.precedes _ _ hfeeds))

theorem acyclic (h : trace.Coherent graph results) (id : NodeId) :
    ¬ Relation.TransGen trace.Feeds id id :=
  fun hpath => Nat.lt_irrefl _ (h.idxOf_lt hpath)

theorem mem_ids_of_find? (h : trace.Coherent graph results) {id : NodeId} {value : Value}
    (hvalue : results.find? id = some value) : id ∈ trace.ids := by
  rw [h.mem_ids_iff, ← Entries.contains_iff_mem_keys]
  simp [Entries.contains, hvalue]

theorem not_mem_ids (h : trace.Coherent graph results) {id : NodeId}
    (hnone : results.find? id = none) : id ∉ trace.ids := by
  rw [h.mem_ids_iff, ← Entries.contains_iff_mem_keys]
  simp [Entries.contains, hnone]

/-- A node without a record has no edges either. -/
theorem not_feeds (h : trace.Coherent graph results) {id : NodeId} (hid : id ∉ trace.ids)
    (other : NodeId) : ¬ trace.Feeds id other ∧ ¬ trace.Feeds other id := by
  constructor
  · intro hfeeds
    exact hid (h.precedes _ _ hfeeds).mem_left
  · intro hfeeds
    exact hid (h.precedes _ _ hfeeds).mem_right

end Coherent

section

variable {memory : Memory} {id : NodeId} {node : Node} {value : Value} {reading : Reading}

theorem ids_complete :
    (memory.complete id node value reading).trace.ids = memory.trace.ids ++ [id] := by
  simp [ids, Reading.record]

theorem feeds_complete_iff {source target : NodeId} :
    (memory.complete id node value reading).trace.Feeds source target ↔
      memory.trace.Feeds source target ∨
        target = id ∧ (source ∈ node.deps ∨ source ∈ reading.adHoc) := by
  simp only [Feeds, Memory.edges_complete, List.mem_append, Reading.mem_edges_iff]

end

namespace Coherent

variable {graph : Graph} {memory : Memory} {id : NodeId} {node : Node} {reading : Reading}

/-- A trace stays coherent when a node without a result is computed from a reading. -/
theorem complete (h : memory.trace.Coherent graph memory.results)
    (hid : memory.results.find? id = none) (hnode : graph.find? id = some node)
    (hdrawn : reading.DrawnFrom memory node) (value : Value) :
    (memory.complete id node value reading).trace.Coherent graph
      (memory.complete id node value reading).results := by
  have hnew : id ∉ memory.trace.ids := h.not_mem_ids hid
  have hrecord : ∀ record ∈ memory.trace.records, record.id ≠ id := fun record hmem heq =>
    hnew (heq ▸ List.mem_map_of_mem hmem)
  have hsource : ∀ source, source ∈ node.deps ∨ source ∈ reading.adHoc →
      source ∈ memory.trace.ids := fun source hread => by
    obtain ⟨value, _, hvalue⟩ := hdrawn.exists_value hread
    exact h.mem_ids_of_find? hvalue
  have hresult : ∀ source ∈ memory.trace.ids,
      (memory.complete id node value reading).results.find? source =
        memory.results.find? source := fun source hmem => by
    have hne : source ≠ id := fun heq => hnew (heq ▸ hmem)
    simp [hne]
  have hrecords : ∀ record ∈ (memory.complete id node value reading).trace.records,
      record ∈ memory.trace.records ∨ record = reading.record id node value := fun record hmem => by
    simpa using hmem
  constructor
  case ids_nodup =>
    rw [ids_complete, List.nodup_append]
    refine ⟨h.ids_nodup, by simp, fun other hother last hlast => ?_⟩
    rw [List.mem_singleton.mp hlast]
    exact fun heq => hnew (heq ▸ hother)
  case mem_ids_iff =>
    intro other
    rw [ids_complete, List.mem_append, List.mem_singleton, h.mem_ids_iff,
      ← Entries.contains_iff_mem_keys, ← Entries.contains_iff_mem_keys]
    simp [Dict.contains_insert, or_comm]
  case output_eq =>
    intro record hmem
    rcases hrecords record hmem with hold | rfl
    · rw [hresult _ (List.mem_map_of_mem hold)]
      exact h.output_eq record hold
    · simp [Reading.record]
  case mem_input_iff =>
    intro record hmem source
    rw [feeds_complete_iff]
    rcases hrecords record hmem with hold | rfl
    · rw [h.mem_input_iff record hold]
      simp [hrecord record hold]
    · have hnone : ¬ memory.trace.Feeds source id := (h.not_feeds hnew source).2
      simp [Reading.record, ← Entries.contains_iff_mem_keys, hdrawn.contains_iff, hnone]
  case input_eq =>
    intro record hmem source hsource'
    rcases hrecords record hmem with hold | rfl
    · have hfeeds := (h.mem_input_iff record hold source).mp hsource'
      rw [hresult _ (h.precedes _ _ hfeeds).mem_left]
      exact h.input_eq record hold source hsource'
    · have hread := (hdrawn.contains_iff source).mp (Entries.contains_iff_mem_keys.mpr hsource')
      obtain ⟨value, hinput, hvalue⟩ := hdrawn.exists_value hread
      rw [hresult source (hsource source hread), hvalue]
      exact hinput
  case declared =>
    intro record hmem
    rcases hrecords record hmem with hold | rfl
    · obtain ⟨node', hnode', hdeps, hfeeds⟩ := h.declared record hold
      exact ⟨node', hnode', hdeps, fun dep hdep => feeds_complete_iff.mpr (.inl (hfeeds dep hdep))⟩
    · exact ⟨node, hnode, rfl, fun dep hdep => feeds_complete_iff.mpr (.inr ⟨rfl, .inl hdep⟩)⟩
  case edges_nodup =>
    rw [Memory.edges_complete, List.nodup_append]
    refine ⟨h.edges_nodup, reading.nodup_edges id node, fun edge hold edge' hmem heq => ?_⟩
    obtain ⟨htarget, _⟩ := Reading.mem_edges_iff.mp hmem
    subst heq htarget
    exact (h.not_feeds hnew edge.source).2 hold
  case precedes =>
    intro source target hfeeds
    unfold Precedes
    rw [ids_complete]
    rcases feeds_complete_iff.mp hfeeds with hold | ⟨rfl, hread⟩
    · exact (h.precedes _ _ hold).trans (List.sublist_append_left _ _)
    · exact (List.singleton_sublist.mpr (hsource source hread)).append (List.Sublist.refl _)

end Coherent

end Trace

namespace Memory

/-- The trace of a memory fits its results, and no node both failed and has a result. -/
structure Consistent (graph : Graph) (memory : Memory) : Prop where
  coherent : memory.trace.Coherent graph memory.results
  failed : ∀ id, memory.failures.contains id = true → memory.results.find? id = none

theorem Consistent.empty (graph : Graph) : Consistent graph {} := by
  refine ⟨?_, fun id h => by simp [Entries.contains] at h⟩
  constructor <;>
    simp [Trace.ids, Trace.Feeds, Entries.keys, Entries.toList]

/-- A gain keeps a memory consistent. -/
theorem Consistent.gain {graph : Graph} {callers : List NodeId} {memory memory' : Memory}
    (h : Consistent graph memory) (hgain : Gain graph callers memory memory') :
    Consistent graph memory' := by
  cases hgain with
  | @complete id node value reading pending drawn =>
    have hcoherent := h.coherent.complete pending.no_result pending.find?_eq drawn value
    refine ⟨hcoherent, fun other hother => ?_⟩
    have hne : other ≠ id := by
      rintro rfl
      change memory.failures.contains other = true at hother
      simp [Entries.contains, pending.no_failure] at hother
    have hresult := h.failed other hother
    simp [hne, hresult]
  | @remember id node error pending =>
    refine ⟨h.coherent, fun other hother => ?_⟩
    simp only [Memory.remember, Dict.contains_insert, Bool.or_eq_true, beq_iff_eq] at hother
    rcases hother with rfl | hother
    · exact pending.no_result
    · exact h.failed other hother

theorem Consistent.grow {graph : Graph} {callers : List NodeId} {memory memory' : Memory}
    (h : Consistent graph memory) (hgrows : Grows graph callers memory memory') :
    Consistent graph memory' := by
  induction hgrows with
  | refl => exact h
  | tail _ hgain ih => exact ih.gain hgain

theorem resolveAll_consistent {graph : Graph} {context : Context} {wanted : List NodeId}
    {memory : Memory} (h : resolveAll graph context {} wanted = .ok memory) :
    Consistent graph memory :=
  (Consistent.empty graph).grow (resolveAll_grows h).1

end Memory

/-- The trace of every successful evaluation fits the results.  In particular its edges are
    acyclic, a node without a result has left neither a record nor an edge, a node that was seen
    to fail has no result, and every wanted node has a record. -/
theorem Graph.coherent_of_evaluate {graph : Graph} {context : Context} {wanted : List NodeId}
    {evaluation : Evaluation} (h : graph.evaluate context wanted = .ok evaluation) :
    evaluation.trace.Coherent graph evaluation.results ∧
      (∀ id, ¬ Relation.TransGen evaluation.trace.Feeds id id) ∧
      (∀ id, id ∉ evaluation.results.keys → id ∉ evaluation.trace.ids ∧
        ∀ other, ¬ evaluation.trace.Feeds id other ∧ ¬ evaluation.trace.Feeds other id) ∧
      (∀ run, Run.settleAll graph context {} wanted = .ok run →
        ∀ id ∈ run.failures.keys, id ∉ evaluation.results.keys) ∧
      ∀ id ∈ wanted, id ∈ evaluation.trace.ids := by
  obtain ⟨memory, hresolve, rfl⟩ := evaluate_eq_ok_iff.mp h
  have hconsistent := Memory.resolveAll_consistent hresolve
  have hcoherent := hconsistent.coherent
  refine ⟨hcoherent, hcoherent.acyclic, fun id hid => ?_, fun run hrun id hfailed => ?_,
    fun id hid => ?_⟩
  · have hrecord : id ∉ memory.trace.ids := fun hmem => hid ((hcoherent.mem_ids_iff id).mp hmem)
    exact ⟨hrecord, hcoherent.not_feeds hrecord⟩
  · rw [Memory.settleAll_empty, hresolve] at hrun
    cases hrun
    have hresult := hconsistent.failed id (Entries.contains_iff_mem_keys.mpr hfailed)
    rw [← Entries.contains_iff_mem_keys]
    simp [Memory.evaluation, Entries.contains, hresult]
  · obtain ⟨value, hvalue⟩ := (Memory.resolveAll_grows hresolve).2 id hid
    exact hcoherent.mem_ids_of_find? hvalue

/-- A graph in which `top` looks itself up, recovers from that cycle and goes on with `side`. -/
def recoveringGraph : Graph where
  nodes := .ofList
    [("base", { compute := fun _ => .done (.text "b") }),
      ("side", { compute := fun _ => .get "base" }),
      ("top", { deps := ["base"], compute := fun _ => .lookup "top" fun _ => .get "side" })]

theorem coherent_recoveringGraph :
    ∃ evaluation, recoveringGraph.evaluate .empty ["top"] = .ok evaluation ∧
      evaluation.trace.ids = ["base", "side", "top"] ∧
      evaluation.trace.edges = [⟨"base", "side"⟩, ⟨"base", "top"⟩, ⟨"side", "top"⟩] ∧
      evaluation.trace.Coherent recoveringGraph evaluation.results := by
  have htrace : (recoveringGraph.evaluate .empty ["top"]).map
      (fun evaluation => (evaluation.trace.ids, evaluation.trace.edges)) =
        .ok (["base", "side", "top"], [⟨"base", "side"⟩, ⟨"base", "top"⟩, ⟨"side", "top"⟩]) := by
    cbv
  cases h : recoveringGraph.evaluate .empty ["top"] with
  | error error =>
    rw [h] at htrace
    cases htrace
  | ok evaluation =>
    rw [h] at htrace
    simp only [Except.map, Except.ok.injEq, Prod.mk.injEq] at htrace
    exact ⟨evaluation, rfl, htrace.1, htrace.2, (Graph.coherent_of_evaluate h).1⟩

end FactScore
