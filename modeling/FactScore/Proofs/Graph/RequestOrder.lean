import FactScore.Proofs.Graph.Coherence
import FactScore.Proofs.Graph.Denotation

/-!
# Independence of the request order

Over a ranked graph, an evaluation succeeds just when every wanted node denotes a value, and it
finds the records of the nodes that are asked for on behalf of the wanted ones and denote one.
None of this depends on the order of the wanted nodes (`Graph.evaluate_denotes`).
-/

namespace FactScore

namespace Ranking

variable {graph : Graph} {context : Context} (ranking : Ranking graph context)
variable {wanted : List NodeId} {memory memory' : Memory} {id : NodeId}

theorem faithful_empty : ranking.Faithful {} := by
  constructor <;> simp

/-- Wanted nodes are resolved up to one that fails. -/
theorem resolveAll_den {outcome : Except GraphError Memory} (hmemory : ranking.Faithful memory)
    (h : Memory.resolveAll graph context memory wanted = outcome) :
    failure? outcome = wanted.findSome? (fun id => failure? (ranking.den id)) ∧
      ∀ memory', outcome = .ok memory' → ranking.Visited wanted memory memory' := by
  induction wanted generalizing memory with
  | nil =>
    subst h
    refine ⟨rfl, fun memory' hok => ?_⟩
    cases hok
    exact .nil hmemory
  | cons id rest ih =>
    have hid : ranking.Delivers (Memory.resolve graph context [] .demand) id :=
      resolve_den ranking (by simp) .demand
    unfold Memory.resolveAll at h
    split at h
    next value memory₁ hresolve =>
      obtain ⟨hden, hfirst⟩ := hid _ _ _ hmemory hresolve
      obtain ⟨hfailure, hrest⟩ := ih hfirst.faithful h
      rw [List.findSome?_cons, ← hden]
      exact ⟨hfailure, fun memory' hok => hfirst.append (hrest memory' hok)⟩
    next error memory₁ hresolve =>
      subst h
      obtain ⟨hden, _⟩ := hid _ _ _ hmemory hresolve
      rw [List.findSome?_cons, ← hden]
      exact ⟨rfl, by simp⟩

theorem findSome?_failure_eq_none_iff :
    (wanted.findSome? fun id => failure? (ranking.den id)) = none ↔
      ∀ id ∈ wanted, ∃ value, ranking.den id = .ok value := by
  rw [List.findSome?_eq_none_iff]
  refine forall₂_congr fun id _ => ?_
  cases ranking.den id <;> simp [failure?]

/-- The first wanted node that fails. -/
theorem exists_first_failure {error : GraphError}
    (h : (wanted.findSome? fun id => failure? (ranking.den id)) = some error) :
    ∃ before id after, wanted = before ++ id :: after ∧ ranking.den id = .error error ∧
      ∀ other ∈ before, ∃ value, ranking.den other = .ok value := by
  obtain ⟨before, id, after, hwanted, hfailure, hbefore⟩ := List.findSome?_eq_some_iff.mp h
  refine ⟨before, id, after, hwanted, ?_, fun other hother => ?_⟩
  · revert hfailure
    cases ranking.den id <;> simp [failure?]
  · have hnone := hbefore other hother
    revert hnone
    cases ranking.den other <;> simp [failure?]

/-- A node is asked for on behalf of a wanted one and denotes a value. -/
def Found (wanted : List NodeId) (id : NodeId) (value : Value) : Prop :=
  (∃ source ∈ wanted, ranking.Reaches source id) ∧ ranking.den id = .ok value

variable {ranking}

theorem Found.congr {wanted' : List NodeId} (h : ∀ id, id ∈ wanted' ↔ id ∈ wanted)
    {value : Value} : ranking.Found wanted' id value ↔ ranking.Found wanted id value := by
  unfold Found
  simp only [h]

namespace Visited

theorem find?_results_iff (h : ranking.Visited wanted {} memory) {value : Value} :
    memory.results.find? id = some value ↔ ranking.Found wanted id value := by
  constructor
  · intro hvalue
    rcases h.within id value hvalue with hold | hreached
    · simp at hold
    · exact ⟨hreached, h.faithful.result id value hvalue⟩
  · rintro ⟨⟨source, hsource, hreaches⟩, hden⟩
    exact h.covers source hsource id value hreaches hden

end Visited

/-- The id and the node determine the record. -/
theorem Canonical.unique {record record' : TraceRecord} {node : Node}
    (h : ranking.Canonical record node) (h' : ranking.Canonical record' node)
    (hid : record.id = record'.id) : record = record' := by
  have hinput : record.input = record'.input := by
    refine Dict.ext fun source => Option.ext fun value => ?_
    rw [h.input_iff, h'.input_iff]
  have houtput : record.output = record'.output := by
    have hden := h.output_eq
    rw [hid, h'.output_eq] at hden
    exact (Except.ok.inj hden).symm
  obtain ⟨id, deps, formula, explain, input, output⟩ := record
  obtain ⟨id', deps', formula', explain', input', output'⟩ := record'
  obtain ⟨_, hdeps, hformula, hexplain, _, _⟩ := h
  obtain ⟨_, hdeps', hformula', hexplain', _, _⟩ := h'
  subst hid hinput houtput hdeps hformula hexplain hdeps' hformula' hexplain'
  rfl

/-- The records of an evaluation are the canonical ones of what it found. -/
theorem Visited.mem_records_iff (h : ranking.Visited wanted {} memory)
    (hcoherent : memory.trace.Coherent graph memory.results) {record : TraceRecord} :
    record ∈ memory.trace.records ↔
      ranking.Found wanted record.id record.output ∧ ∃ node, ranking.Canonical record node := by
  constructor
  · intro hmem
    exact ⟨h.find?_results_iff.mp (hcoherent.output_eq record hmem),
      h.faithful.canonical record hmem⟩
  · rintro ⟨hfound, node, hcanonical⟩
    have hvalue := h.find?_results_iff.mpr hfound
    have hmem := hcoherent.mem_ids_of_find? hvalue
    obtain ⟨record', hmem', hid⟩ := List.mem_map.mp hmem
    obtain ⟨node', hcanonical'⟩ := h.faithful.canonical record' hmem'
    have hnode : node' = node := by
      have hfind := hcanonical'.find?_eq
      rw [hid, hcanonical.find?_eq] at hfind
      exact (Option.some.inj hfind).symm
    subst hnode
    rwa [← hcanonical'.unique hcanonical hid]

end Ranking

/-- The edges of a coherent trace can be read off its records. -/
theorem Trace.Coherent.mem_edges_iff {graph : Graph} {results : Dict Value} {trace : Trace}
    (h : trace.Coherent graph results) {edge : TraceEdge} :
    edge ∈ trace.edges ↔
      ∃ record ∈ trace.records, record.id = edge.target ∧ edge.source ∈ record.input.keys := by
  constructor
  · intro hedge
    have htarget := (h.precedes edge.source edge.target hedge).mem_right
    obtain ⟨record, hmem, hid⟩ := List.mem_map.mp htarget
    exact ⟨record, hmem, hid, (h.mem_input_iff record hmem _).mpr (hid ▸ hedge)⟩
  · rintro ⟨record, hmem, hid, hsource⟩
    have hedge := (h.mem_input_iff record hmem _).mp hsource
    rwa [hid] at hedge

/-- Two evaluations found the same: the same results, and in whatever order the same records and
    the same edges. -/
structure Evaluation.Agrees (evaluation evaluation' : Evaluation) : Prop where
  results_eq : evaluation'.results = evaluation.results
  mem_records_iff : ∀ record,
    record ∈ evaluation'.trace.records ↔ record ∈ evaluation.trace.records
  mem_edges_iff : ∀ edge, edge ∈ evaluation'.trace.edges ↔ edge ∈ evaluation.trace.edges

namespace Graph

variable {graph : Graph} {context : Context} {wanted wanted' : List NodeId}

theorem exists_evaluate_eq_ok_iff (ranking : Ranking graph context) :
    (∃ evaluation, graph.evaluate context wanted = .ok evaluation) ↔
      ∀ id ∈ wanted, ∃ value, ranking.den id = .ok value := by
  rw [← ranking.findSome?_failure_eq_none_iff]
  cases hresolve : Memory.resolveAll graph context {} wanted with
  | ok memory =>
    rw [← (ranking.resolveAll_den ranking.faithful_empty hresolve).1]
    exact iff_of_true ⟨_, evaluate_eq_ok_iff.mpr ⟨memory, hresolve, rfl⟩⟩ rfl
  | error error =>
    rw [← (ranking.resolveAll_den ranking.faithful_empty hresolve).1]
    refine iff_of_false ?_ (by simp [failure?])
    rintro ⟨evaluation, hok⟩
    rw [evaluate_eq_error_iff.mpr hresolve] at hok
    cases hok

/-- What a successful evaluation over a ranked graph visited. -/
theorem visited_of_evaluate (ranking : Ranking graph context) {evaluation : Evaluation}
    (h : graph.evaluate context wanted = .ok evaluation) :
    ∃ memory, memory.evaluation = evaluation ∧ ranking.Visited wanted {} memory ∧
      memory.trace.Coherent graph memory.results := by
  obtain ⟨memory, hresolve, hevaluation⟩ := evaluate_eq_ok_iff.mp h
  exact ⟨memory, hevaluation, (ranking.resolveAll_den ranking.faithful_empty hresolve).2 memory rfl,
    (Memory.resolveAll_consistent hresolve).coherent⟩

theorem agrees_of_same_wanted (ranking : Ranking graph context)
    (hwanted : ∀ id, id ∈ wanted' ↔ id ∈ wanted) {evaluation evaluation' : Evaluation}
    (h : graph.evaluate context wanted = .ok evaluation)
    (h' : graph.evaluate context wanted' = .ok evaluation') : evaluation.Agrees evaluation' := by
  obtain ⟨memory, rfl, hvisited, hcoherent⟩ := visited_of_evaluate ranking h
  obtain ⟨memory', rfl, hvisited', hcoherent'⟩ := visited_of_evaluate ranking h'
  have hrecords : ∀ record, record ∈ memory'.trace.records ↔ record ∈ memory.trace.records := by
    intro record
    rw [hvisited'.mem_records_iff hcoherent', hvisited.mem_records_iff hcoherent,
      Ranking.Found.congr hwanted]
  constructor
  case results_eq =>
    refine Dict.ext fun id => Option.ext fun value => ?_
    change memory'.results.find? id = some value ↔ memory.results.find? id = some value
    rw [hvisited'.find?_results_iff, hvisited.find?_results_iff, Ranking.Found.congr hwanted]
  case mem_records_iff => exact hrecords
  case mem_edges_iff =>
    intro edge
    change edge ∈ memory'.trace.edges ↔ edge ∈ memory.trace.edges
    rw [hcoherent'.mem_edges_iff, hcoherent.mem_edges_iff]
    simp only [hrecords]

/-- A successful evaluation over a ranked graph has the values of just those nodes that are asked
    for on behalf of the wanted ones. -/
theorem find?_results_of_evaluate (ranking : Ranking graph context) {evaluation : Evaluation}
    (h : graph.evaluate context wanted = .ok evaluation) (id : NodeId) (value : Value) :
    evaluation.results.find? id = some value ↔ ranking.Found wanted id value := by
  obtain ⟨memory, rfl, hvisited, _⟩ := visited_of_evaluate ranking h
  exact hvisited.find?_results_iff

/-- Evaluation over a ranked graph is denotational.  It succeeds just when every wanted node
    denotes a value.  Then every result is what its node denotes, and there is one for every
    wanted node and every other node that is asked for on the way; else the error is that of the
    first wanted node that fails.  So of the wanted nodes only the set matters: asked for in
    another order, with repetitions or without, they lead to the same success, results, records
    and edges. -/
theorem evaluate_denotes (ranking : Ranking graph context) (wanted : List NodeId) :
    ((∃ evaluation, graph.evaluate context wanted = .ok evaluation) ↔
      ∀ id ∈ wanted, ∃ value, ranking.den id = .ok value) ∧
    (∀ evaluation, graph.evaluate context wanted = .ok evaluation →
      ∀ id value, evaluation.results.find? id = some value → ranking.den id = .ok value) ∧
    (∀ evaluation, graph.evaluate context wanted = .ok evaluation →
      (∀ id ∈ wanted, ∃ value, evaluation.results.find? id = some value) ∧
      ∀ id value, evaluation.results.find? id = some value ↔ ranking.Found wanted id value) ∧
    (∀ error, graph.evaluate context wanted = .error error →
      ∃ before id after, wanted = before ++ id :: after ∧ ranking.den id = .error error ∧
        ∀ other ∈ before, ∃ value, ranking.den other = .ok value) ∧
    ∀ wanted', (∀ id, id ∈ wanted' ↔ id ∈ wanted) →
      ((∃ evaluation, graph.evaluate context wanted' = .ok evaluation) ↔
        ∃ evaluation, graph.evaluate context wanted = .ok evaluation) ∧
      ∀ evaluation evaluation', graph.evaluate context wanted = .ok evaluation →
        graph.evaluate context wanted' = .ok evaluation' → evaluation.Agrees evaluation' := by
  refine ⟨exists_evaluate_eq_ok_iff ranking, fun evaluation h id value hvalue => ?_,
    fun evaluation h => ⟨fun id hid => ?_, find?_results_of_evaluate ranking h⟩,
    fun error h => ?_, fun wanted' hwanted => ⟨?_, fun evaluation evaluation' =>
      agrees_of_same_wanted ranking hwanted⟩⟩
  · exact ((find?_results_of_evaluate ranking h id value).mp hvalue).2
  · obtain ⟨value, hden⟩ := (exists_evaluate_eq_ok_iff ranking).mp ⟨evaluation, h⟩ id hid
    exact ⟨value, (find?_results_of_evaluate ranking h id value).mpr ⟨⟨id, hid, .refl⟩, hden⟩⟩
  · have hresolve := evaluate_eq_error_iff.mp h
    exact ranking.exists_first_failure
      (ranking.resolveAll_den ranking.faithful_empty hresolve).1.symm
  · rw [exists_evaluate_eq_ok_iff ranking, exists_evaluate_eq_ok_iff ranking]
    simp only [hwanted]

end Graph

/-- A graph in which `safe` declares `base`, looks up `risky`, which fails, and recovers. -/
def rankedGraph : Graph where
  nodes := .ofList
    [("base", { compute := fun _ => .done (.text "b") }),
      ("risky", { compute := fun _ => .fail (.compute "risky" "no data") }),
      ("safe", { deps := ["base"], compute := fun _ => .lookup "risky" fun _ => .get "base" })]

theorem rankedGraph_cases {id : NodeId} {node : Node} (h : rankedGraph.find? id = some node) :
    id = "safe" ∧ node.deps = ["base"] ∧
        node.compute = (fun _ => .lookup "risky" fun _ => .get "base") ∨
      node.deps = [] ∧ ∀ context source, ¬ (node.compute context).Reads source := by
  simp only [rankedGraph, Graph.find?, Dict.ofList, List.foldl_cons, List.foldl_nil,
    Dict.find?_insert] at h
  split at h
  next hsafe =>
    cases h
    exact .inl ⟨hsafe, rfl, rfl⟩
  next =>
    split at h
    next =>
      cases h
      exact .inr ⟨rfl, fun context source hreads => by cases hreads⟩
    next =>
      split at h
      next =>
        cases h
        exact .inr ⟨rfl, fun context source hreads => by cases hreads⟩
      next => simp at h

/-- Only `safe` needs other nodes. -/
def rankedGraphRanking : Ranking rankedGraph .empty where
  rank := fun id => if id = "safe" then 1 else 0
  dep_lt := by
    intro id node dep hfind hdep
    rcases rankedGraph_cases hfind with ⟨rfl, hdeps, _⟩ | ⟨hdeps, _⟩
    · rw [hdeps, List.mem_singleton] at hdep
      simp [hdep]
    · simp [hdeps] at hdep
  read_lt := by
    intro id node source hfind hreads
    rcases rankedGraph_cases hfind with ⟨rfl, _, hcompute⟩ | ⟨_, hnone⟩
    · rw [hcompute] at hreads
      cases hreads with
      | here => simp
      | later _ hreads =>
        cases hreads with
        | here => simp
        | later answer hreads => cases answer <;> cases hreads
    · exact absurd hreads (hnone _ _)

theorem agrees_rankedGraph :
    ∃ evaluation evaluation', rankedGraph.evaluate .empty ["safe", "base"] = .ok evaluation ∧
      rankedGraph.evaluate .empty ["base", "safe", "base"] = .ok evaluation' ∧
      evaluation.trace.ids = ["base", "safe"] ∧
      evaluation.results.toList = [("base", .text "b"), ("safe", .text "b")] ∧
      rankedGraphRanking.den "safe" = .ok (.text "b") ∧ evaluation.Agrees evaluation' := by
  have hobserved : (rankedGraph.evaluate .empty ["safe", "base"]).map
      (fun evaluation => (evaluation.trace.ids, evaluation.results.toList)) =
        .ok (["base", "safe"], [("base", .text "b"), ("safe", .text "b")]) := by
    cbv
  obtain ⟨evaluation, h, hobserved⟩ := Graph.exists_evaluation hobserved
  obtain ⟨hids, hresults⟩ := Prod.mk.inj hobserved
  obtain ⟨_, hdenotes, _, _, hsame⟩ := Graph.evaluate_denotes rankedGraphRanking ["safe", "base"]
  obtain ⟨hsuccess, hagrees⟩ := hsame ["base", "safe", "base"] (by simp)
  obtain ⟨evaluation', h'⟩ := hsuccess.mpr ⟨evaluation, h⟩
  have hsafe : evaluation.results.find? "safe" = some (.text "b") :=
    Entries.find?_of_mem_toList (by simp [hresults])
  exact ⟨evaluation, evaluation', h, h', hids, hresults, hdenotes _ h _ _ hsafe,
    hagrees _ _ h h'⟩

end FactScore
