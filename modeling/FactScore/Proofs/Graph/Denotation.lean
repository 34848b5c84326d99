import FactScore.Proofs.Graph.Coherence

/-!
# Denotation of acyclic graphs

Where a ranking of the nodes has everything that a node needs below it (`Ranking`), every node has
a denotation (`Ranking.den`), which knows of no memory and no call stack.  Evaluation gives out
the denotations, and what it computes depends only on which nodes are wanted, not on the order in
which they are asked for (`Graph.evaluate_denotes`).
-/

namespace FactScore

/-- The error of a failure. -/
def failure? {α : Type} : Except GraphError α → Option GraphError
  | .ok _ => none
  | .error error => some error

namespace Computation

variable {α : Type}

/-- A computation can look up a node, given some answers to the look-ups before. -/
inductive Reads : Computation α → NodeId → Prop where
  | here {id : NodeId} {resume : Except GraphError Value → Computation α} :
      Reads (.lookup id resume) id
  | later {id source : NodeId} {resume : Except GraphError Value → Computation α}
      (answer : Except GraphError Value) (reads : Reads (resume answer) source) :
      Reads (.lookup id resume) source

/-- What a computation comes to when its look-ups are answered by a function. -/
def outcome : (computation : Computation α) →
    ((source : NodeId) → computation.Reads source → Except GraphError Value) →
    Except GraphError α
  | .done value, _ => .ok value
  | .fail error, _ => .error error
  | .lookup id resume, answer =>
    (resume (answer id .here)).outcome fun source reads => answer source (.later _ reads)

/-- The nodes that a computation looks up when its look-ups are answered by a function. -/
def lookups (answer : NodeId → Except GraphError Value) : Computation α → List NodeId
  | .done _ => []
  | .fail _ => []
  | .lookup id resume => id :: (resume (answer id)).lookups answer

end Computation

/-- A ranking of node ids that has the declared dependencies of every node, and everything that
    its computation can look up, strictly below the node. -/
structure Ranking (graph : Graph) (context : Context) where
  rank : NodeId → Nat
  dep_lt : ∀ {id node dep}, graph.find? id = some node → dep ∈ node.deps → rank dep < rank id
  read_lt : ∀ {id node source}, graph.find? id = some node →
    (node.compute context).Reads source → rank source < rank id

namespace Ranking

variable {graph : Graph} {context : Context}

/-- The denotation of a node: it is unknown, or the first declared dependency that fails fails it,
    or else it is what its computation comes to when each look-up is answered with the denotation
    of the node looked up. -/
def den (ranking : Ranking graph context) (id : NodeId) : Except GraphError Value :=
  match _hfind : graph.find? id with
  | none => .error (.unknownNode id)
  | some node =>
    match node.deps.attach.findSome? fun dep => failure? (ranking.den dep.1) with
    | some error => .error error
    | none => (node.compute context).outcome fun source _ => ranking.den source
termination_by ranking.rank id
decreasing_by
  · exact ranking.dep_lt _hfind dep.2
  · exact ranking.read_lt _hfind (by assumption)

section

variable (ranking : Ranking graph context) {id : NodeId} {node : Node}

theorem den_of_absent (hfind : graph.find? id = none) :
    ranking.den id = .error (.unknownNode id) := by
  rw [den]
  split
  next => rfl
  next node hnode =>
    rw [hfind] at hnode
    cases hnode

theorem den_of_present (hfind : graph.find? id = some node) :
    ranking.den id =
      match node.deps.findSome? fun dep => failure? (ranking.den dep) with
      | some error => .error error
      | none => (node.compute context).outcome fun source _ => ranking.den source := by
  have hattach : (node.deps.attach.findSome? fun dep => failure? (ranking.den dep.1)) =
      node.deps.findSome? fun dep => failure? (ranking.den dep) := by
    conv => rhs; rw [← List.attach_map_subtype_val node.deps, List.findSome?_map]
    rfl
  rw [den]
  split
  next hnode =>
    rw [hfind] at hnode
    cases hnode
  next node' hnode =>
    rw [hfind] at hnode
    cases hnode
    rw [hattach]

end

/-- The first nodes of a list, up to one that fails. -/
def untilFailure (answer : NodeId → Except GraphError Value) : List NodeId → List NodeId
  | [] => []
  | id :: rest =>
    match answer id with
    | .ok _ => id :: untilFailure answer rest
    | .error _ => [id]

/-- The nodes that a node asks for: its declared dependencies up to one that fails, and if none
    does, what its computation looks up. -/
def asked (ranking : Ranking graph context) (id : NodeId) : List NodeId :=
  match graph.find? id with
  | none => []
  | some node =>
    untilFailure ranking.den node.deps ++
      match node.deps.findSome? fun dep => failure? (ranking.den dep) with
      | some _ => []
      | none => (node.compute context).lookups ranking.den

/-- One node is asked for on behalf of another, or is that node itself. -/
abbrev Reaches (ranking : Ranking graph context) : NodeId → NodeId → Prop :=
  Relation.ReflTransGen fun id source => source ∈ ranking.asked id

/-- A memory has the value of everything that is asked for on behalf of a node and has one. -/
def Covers (ranking : Ranking graph context) (memory : Memory) (id : NodeId) : Prop :=
  ∀ other value, ranking.Reaches id other → ranking.den other = .ok value →
    memory.results.find? other = some value

/-- The record that a node is bound to have. -/
structure Canonical (ranking : Ranking graph context) (record : TraceRecord) (node : Node) :
    Prop where
  find?_eq : graph.find? record.id = some node
  deps_eq : record.deps = node.deps
  formula_eq : record.formula = node.formula
  explain_eq : record.explain = node.explain
  input_iff : ∀ source value, record.input.find? source = some value ↔
    ranking.den source = .ok value ∧
      (source ∈ node.deps ∨ source ∈ (node.compute context).lookups ranking.den)
  output_eq : ranking.den record.id = .ok record.output

/-- What a memory holds is what the denotations say, and it has all that was asked for on behalf
    of what it holds. -/
structure Faithful (ranking : Ranking graph context) (memory : Memory) : Prop where
  result : ∀ id value, memory.results.find? id = some value → ranking.den id = .ok value
  failure : ∀ id error, memory.failures.find? id = some error → ranking.den id = .error error
  covers_result : ∀ id value, memory.results.find? id = some value → ranking.Covers memory id
  covers_failure : ∀ id error, memory.failures.find? id = some error → ranking.Covers memory id
  canonical : ∀ record ∈ memory.trace.records, ∃ node, ranking.Canonical record node

/-- A memory after some nodes were asked for: it has all that was asked for on their behalf, and
    nothing besides but what it had before. -/
structure Visited (ranking : Ranking graph context) (sources : List NodeId)
    (memory memory' : Memory) : Prop where
  faithful : ranking.Faithful memory'
  kept : ∀ other value, memory.results.find? other = some value →
    memory'.results.find? other = some value
  covers : ∀ source ∈ sources, ranking.Covers memory' source
  within : ∀ other value, memory'.results.find? other = some value →
    memory.results.find? other = some value ∨ ∃ source ∈ sources, ranking.Reaches source other

/-- A way to resolve nodes gives out the denotation of a node. -/
def Delivers (ranking : Ranking graph context)
    (resolve : Memory → NodeId → Except GraphError Value × Memory) (id : NodeId) : Prop :=
  ∀ memory outcome memory', ranking.Faithful memory → resolve memory id = (outcome, memory') →
    outcome = ranking.den id ∧ ranking.Visited [id] memory memory'

/-- A reading holds the denotations of those among some nodes that have a value. -/
def Holds (ranking : Ranking graph context) (reading : Reading) (seen : List NodeId) : Prop :=
  ∀ source value, reading.values.find? source = some value ↔
    ranking.den source = .ok value ∧ source ∈ seen

section

variable {ranking : Ranking graph context} {memory memory₁ memory₂ : Memory} {id : NodeId}
variable {sources sources' : List NodeId}

theorem Covers.mono (h : ranking.Covers memory id)
    (hkept : ∀ other value, memory.results.find? other = some value →
      memory₁.results.find? other = some value) : ranking.Covers memory₁ id :=
  fun other value hreaches hden => hkept other value (h other value hreaches hden)

namespace Visited

theorem nil (h : ranking.Faithful memory) : ranking.Visited [] memory memory where
  faithful := h
  kept := fun _ _ hvalue => hvalue
  covers := by simp
  within := fun _ _ hvalue => .inl hvalue

theorem of_covers (h : ranking.Faithful memory) (hcovers : ranking.Covers memory id) :
    ranking.Visited [id] memory memory where
  faithful := h
  kept := fun _ _ hvalue => hvalue
  covers := by simpa using hcovers
  within := fun _ _ hvalue => .inl hvalue

theorem covers_append (h : ranking.Visited sources' memory memory₁)
    (hsources : ∀ source ∈ sources, ranking.Covers memory source) :
    ∀ source ∈ sources ++ sources', ranking.Covers memory₁ source := by
  intro source hsource
  rcases List.mem_append.mp hsource with hsource | hsource
  · exact (hsources source hsource).mono h.kept
  · exact h.covers source hsource

theorem append (h : ranking.Visited sources memory memory₁)
    (h' : ranking.Visited sources' memory₁ memory₂) :
    ranking.Visited (sources ++ sources') memory memory₂ where
  faithful := h'.faithful
  kept := fun other value hvalue => h'.kept other value (h.kept other value hvalue)
  covers := h'.covers_append h.covers
  within := by
    intro other value hvalue
    rcases h'.within other value hvalue with hvalue | ⟨source, hsource, hreaches⟩
    · rcases h.within other value hvalue with hvalue | ⟨source, hsource, hreaches⟩
      · exact .inl hvalue
      · exact .inr ⟨source, List.mem_append_left _ hsource, hreaches⟩
    · exact .inr ⟨source, List.mem_append_right _ hsource, hreaches⟩

/-- A node that fails was asked for once everything that it asks for was. -/
theorem failed {error : GraphError} (h : ranking.Visited (ranking.asked id) memory memory₁)
    (hid : ranking.den id = .error error) : ranking.Visited [id] memory memory₁ where
  faithful := h.faithful
  kept := h.kept
  covers := by
    intro source hsource other value hreaches hden
    rw [List.mem_singleton.mp hsource] at hreaches
    rcases hreaches.cases_head with rfl | ⟨next, hasked, hrest⟩
    · rw [hid] at hden
      cases hden
    · exact h.covers next hasked other value hrest hden
  within := by
    intro other value hvalue
    rcases h.within other value hvalue with hvalue | ⟨source, hsource, hreaches⟩
    · exact .inl hvalue
    · exact .inr ⟨id, by simp, .head hsource hreaches⟩

end Visited

theorem untilFailure_eq_self {deps : List NodeId}
    (h : (deps.findSome? fun dep => failure? (ranking.den dep)) = none) :
    untilFailure ranking.den deps = deps := by
  induction deps with
  | nil => rfl
  | cons dep deps ih =>
    rw [List.findSome?_cons] at h
    unfold untilFailure
    cases hden : ranking.den dep with
    | error error => simp [hden, failure?] at h
    | ok value =>
      simp only [hden, failure?] at h ⊢
      rw [ih h]

namespace Holds

variable {reading : Reading} {seen : List NodeId}

/-- Nothing changes when a node is read again. -/
theorem again (h : ranking.Holds reading seen) (hid : id ∈ seen) :
    ranking.Holds reading (seen ++ [id]) := by
  intro source value
  rw [h source value, List.mem_append, List.mem_singleton]
  constructor
  · rintro ⟨hden, hsource⟩
    exact ⟨hden, .inl hsource⟩
  · rintro ⟨hden, hsource | rfl⟩
    · exact ⟨hden, hsource⟩
    · exact ⟨hden, hid⟩

theorem add {value : Value} (h : ranking.Holds reading seen) (hid : ranking.den id = .ok value) :
    ranking.Holds (reading.add id value) (seen ++ [id]) := by
  intro source value'
  simp only [Reading.add, Dict.find?_insert, List.mem_append, List.mem_singleton]
  by_cases hsource : source = id
  · subst hsource
    simp [hid]
  · simp [hsource, h source value']

/-- A node without a value adds nothing. -/
theorem failed {error : GraphError} (h : ranking.Holds reading seen)
    (hid : ranking.den id = .error error) : ranking.Holds reading (seen ++ [id]) := by
  intro source value
  rw [h source value, List.mem_append, List.mem_singleton]
  constructor
  · rintro ⟨hden, hsource⟩
    exact ⟨hden, .inl hsource⟩
  · rintro ⟨hden, hsource | rfl⟩
    · exact ⟨hden, hsource⟩
    · rw [hid] at hden
      cases hden

end Holds

/-- The declared dependencies are asked for up to one that fails. -/
theorem resolveDeps_den {resolve : Memory → NodeId → Except GraphError Value × Memory}
    {deps : List NodeId} {outcome : Except GraphError Unit}
    (hresolve : ∀ dep ∈ deps, ranking.Delivers resolve dep) (hmemory : ranking.Faithful memory)
    (h : Memory.resolveDeps resolve memory deps = (outcome, memory₁)) :
    failure? outcome = deps.findSome? (fun dep => failure? (ranking.den dep)) ∧
      ranking.Visited (untilFailure ranking.den deps) memory memory₁ := by
  induction deps generalizing memory with
  | nil =>
    cases h
    exact ⟨rfl, .nil hmemory⟩
  | cons dep deps ih =>
    have hdep := hresolve dep List.mem_cons_self
    unfold Memory.resolveDeps at h
    split at h
    next value memory₂ hok =>
      obtain ⟨hden, hvisited⟩ := hdep _ _ _ hmemory hok
      obtain ⟨houtcome, hrest⟩ :=
        ih (fun other hother => hresolve other (List.mem_cons_of_mem _ hother)) hvisited.faithful h
      rw [List.findSome?_cons, untilFailure, ← hden]
      exact ⟨houtcome, hvisited.append hrest⟩
    next error memory₂ herror =>
      cases h
      obtain ⟨hden, hvisited⟩ := hdep _ _ _ hmemory herror
      rw [List.findSome?_cons, untilFailure, ← hden]
      exact ⟨rfl, hvisited⟩

/-- A computation comes to what it comes to on denotations, and reads what it looks up then. -/
theorem follow_den {resolve : Memory → NodeId → Except GraphError Value × Memory}
    {computation : Computation Value} {reading : Reading} {seen : List NodeId}
    {outcome : Except GraphError (Value × Reading)}
    (hresolve : ∀ source, computation.Reads source → ranking.Delivers resolve source)
    (hmemory : ranking.Faithful memory) (hreading : ranking.Holds reading seen)
    (hseen : ∀ source ∈ seen, ranking.Covers memory source)
    (h : Memory.follow resolve memory reading computation = (outcome, memory₁)) :
    outcome.map Prod.fst = computation.outcome (fun source _ => ranking.den source) ∧
      ranking.Visited (computation.lookups ranking.den) memory memory₁ ∧
      ∀ value reading', outcome = .ok (value, reading') →
        ranking.Holds reading' (seen ++ computation.lookups ranking.den) := by
  induction computation generalizing memory reading seen with
  | done value =>
    cases h
    refine ⟨rfl, .nil hmemory, fun value reading' hok => ?_⟩
    cases hok
    rwa [Computation.lookups, List.append_nil]
  | fail error =>
    cases h
    exact ⟨rfl, .nil hmemory, by simp⟩
  | lookup id resume ih =>
    -- whichever way the look-up is answered, it is with the denotation, and the rest goes on
    have hrest : ∀ {memory₂ reading₁}, ranking.Visited [id] memory memory₂ →
        ranking.Holds reading₁ (seen ++ [id]) →
        Memory.follow resolve memory₂ reading₁ (resume (ranking.den id)) = (outcome, memory₁) →
        outcome.map Prod.fst = (Computation.lookup id resume).outcome
            (fun source _ => ranking.den source) ∧
          ranking.Visited ((Computation.lookup id resume).lookups ranking.den) memory memory₁ ∧
          ∀ value reading', outcome = .ok (value, reading') → ranking.Holds reading'
            (seen ++ (Computation.lookup id resume).lookups ranking.den) := by
      intro memory₂ reading₁ hfirst hholds hfollow
      obtain ⟨houtcome, hvisited, hfinal⟩ :=
        ih _ (fun source hreads => hresolve source (.later _ hreads)) hfirst.faithful hholds
          (hfirst.covers_append hseen) hfollow
      refine ⟨houtcome, hfirst.append hvisited, fun value reading' hok => ?_⟩
      have hholds' := hfinal value reading' hok
      rwa [List.append_assoc] at hholds'
    have hid := hresolve id .here
    unfold Memory.follow at h
    split at h
    next value hvalue =>
      obtain ⟨hden, hmem⟩ := (hreading id value).mp hvalue
      exact hrest (.of_covers hmemory (hseen id hmem)) (hreading.again hmem) (hden ▸ h)
    next hvalue =>
      split at h
      next value memory₂ hok =>
        obtain ⟨hden, hfirst⟩ := hid _ _ _ hmemory hok
        exact hrest hfirst (hreading.add hden.symm) (hden ▸ h)
      next error memory₂ herror =>
        obtain ⟨hden, hfirst⟩ := hid _ _ _ hmemory herror
        exact hrest hfirst (hreading.failed hden.symm) (hden ▸ h)

section

variable {node : Node} {reading : Reading} {value : Value}

theorem den_of_failed {error : GraphError} (hfind : graph.find? id = some node)
    (hdeps : (node.deps.findSome? fun dep => failure? (ranking.den dep)) = some error) :
    ranking.den id = .error error := by
  rw [den_of_present ranking hfind, hdeps]

theorem den_of_ready (hfind : graph.find? id = some node)
    (hdeps : (node.deps.findSome? fun dep => failure? (ranking.den dep)) = none) :
    ranking.den id = (node.compute context).outcome fun source _ => ranking.den source := by
  rw [den_of_present ranking hfind, hdeps]

theorem asked_of_failed {error : GraphError} (hfind : graph.find? id = some node)
    (hdeps : (node.deps.findSome? fun dep => failure? (ranking.den dep)) = some error) :
    ranking.asked id = untilFailure ranking.den node.deps := by
  simp [asked, hfind, hdeps]

theorem asked_of_ready (hfind : graph.find? id = some node)
    (hdeps : (node.deps.findSome? fun dep => failure? (ranking.den dep)) = none) :
    ranking.asked id = node.deps ++ (node.compute context).lookups ranking.den := by
  simp [asked, hfind, hdeps, untilFailure_eq_self hdeps]

theorem Holds.canonical (hholds : ranking.Holds reading
      (node.deps ++ (node.compute context).lookups ranking.den))
    (hfind : graph.find? id = some node) (hden : ranking.den id = .ok value) :
    ranking.Canonical (reading.record id node value) node where
  find?_eq := hfind
  deps_eq := rfl
  formula_eq := rfl
  explain_eq := rfl
  input_iff := by
    intro source value'
    rw [← List.mem_append]
    exact hholds source value'
  output_eq := hden

theorem Holds.declared (hmemory : ranking.Faithful memory)
    (hdrawn : (memory.declared node).DrawnFrom memory node) :
    ranking.Holds (memory.declared node) node.deps := by
  intro source value
  constructor
  · intro hvalue
    have hcontains : (memory.declared node).values.contains source = true := by
      simp [Entries.contains, hvalue]
    have hden := hmemory.result source value (hdrawn.value_eq source value hvalue)
    rcases (hdrawn.contains_iff source).mp hcontains with hdep | hadHoc
    · exact ⟨hden, hdep⟩
    · cases hadHoc
  · rintro ⟨hden, hdep⟩
    obtain ⟨value', hvalue', hresult⟩ := hdrawn.exists_value (.inl hdep)
    rw [hmemory.result source value' hresult] at hden
    cases hden
    exact hvalue'

theorem find?_complete_of_find? {other : NodeId} {value' : Value}
    (hnone : memory.results.find? id = none) (h : memory.results.find? other = some value') :
    (memory.complete id node value reading).results.find? other = some value' := by
  have hne : other ≠ id := by
    rintro rfl
    rw [hnone] at h
    cases h
  simpa [hne] using h

theorem find?_complete_cases {other : NodeId} {value' : Value}
    (h : (memory.complete id node value reading).results.find? other = some value') :
    other = id ∧ value' = value ∨ memory.results.find? other = some value' := by
  simp only [Memory.results_complete, Dict.find?_insert] at h
  split at h
  next heq =>
    cases h
    exact .inl ⟨heq, rfl⟩
  next => exact .inr h

theorem Covers.complete (hnone : memory.results.find? id = none)
    (hden : ranking.den id = .ok value)
    (hasked : ∀ source ∈ ranking.asked id, ranking.Covers memory source) :
    ranking.Covers (memory.complete id node value reading) id := by
  intro other value' hreaches hden'
  rcases hreaches.cases_head with rfl | ⟨next, hnext, hrest⟩
  · rw [hden] at hden'
    cases hden'
    simp
  · exact find?_complete_of_find? hnone (hasked next hnext other value' hrest hden')

/-- A faithful memory stays faithful when a node is completed after everything that it asks for. -/
theorem Faithful.complete (h : ranking.Faithful memory) (hnone : memory.results.find? id = none)
    (hden : ranking.den id = .ok value)
    (hasked : ∀ source ∈ ranking.asked id, ranking.Covers memory source)
    (hcanonical : ranking.Canonical (reading.record id node value) node) :
    ranking.Faithful (memory.complete id node value reading) where
  result := by
    intro other value' hvalue'
    rcases find?_complete_cases hvalue' with ⟨rfl, rfl⟩ | hvalue'
    · exact hden
    · exact h.result other value' hvalue'
  failure := h.failure
  covers_result := by
    intro other value' hvalue'
    rcases find?_complete_cases hvalue' with ⟨rfl, rfl⟩ | hvalue'
    · exact .complete hnone hden hasked
    · exact (h.covers_result other value' hvalue').mono fun _ _ => find?_complete_of_find? hnone
  covers_failure := fun other error hfailure =>
    (h.covers_failure other error hfailure).mono fun _ _ => find?_complete_of_find? hnone
  canonical := by
    intro record hmem
    have hrecord : record ∈ memory.trace.records ∨ record = reading.record id node value := by
      simpa using hmem
    rcases hrecord with hold | rfl
    · exact h.canonical record hold
    · exact ⟨node, hcanonical⟩

/-- A node was asked for once it is completed after everything that it asks for. -/
theorem Visited.complete (h : ranking.Visited (ranking.asked id) memory memory₁)
    (hnone : memory₁.results.find? id = none) (hden : ranking.den id = .ok value)
    (hcanonical : ranking.Canonical (reading.record id node value) node) :
    ranking.Visited [id] memory (memory₁.complete id node value reading) where
  faithful := h.faithful.complete hnone hden h.covers hcanonical
  kept := fun other value' hvalue' => find?_complete_of_find? hnone (h.kept other value' hvalue')
  covers := by
    intro source hsource
    rw [List.mem_singleton.mp hsource]
    exact .complete hnone hden h.covers
  within := by
    intro other value' hvalue'
    rcases find?_complete_cases hvalue' with ⟨rfl, rfl⟩ | hvalue'
    · exact .inr ⟨other, by simp, .refl⟩
    · rcases h.within other value' hvalue' with hvalue' | ⟨source, hsource, hreaches⟩
      · exact .inl hvalue'
      · exact .inr ⟨id, by simp, .head hsource hreaches⟩

end

/-- Computing a node gives out its denotation, if resolving the nodes below it does. -/
theorem computeNode_den {callers : List NodeId} {node : Node}
    {outcome : Except GraphError Value}
    (hbelow : ∀ source, ranking.rank source < ranking.rank id → ∀ request,
      ranking.Delivers (Memory.resolve graph context (id :: callers) request) source)
    (hmemory : ranking.Faithful memory) (pending : Memory.Pending graph callers memory id node)
    (h : Memory.computeNode (Memory.resolve graph context (id :: callers)) context memory id node =
      (outcome, memory₁)) :
    outcome = ranking.den id ∧ ranking.Visited [id] memory memory₁ := by
  have hfind := pending.find?_eq
  have hdepsBelow : ∀ dep ∈ node.deps,
      ranking.Delivers (Memory.resolve graph context (id :: callers) .demand) dep :=
    fun dep hdep => hbelow dep (ranking.dep_lt hfind hdep) .demand
  have hreadsBelow : ∀ source, (node.compute context).Reads source →
      ranking.Delivers (Memory.resolve graph context (id :: callers) .lookup) source :=
    fun source hreads => hbelow source (ranking.read_lt hfind hreads) .lookup
  have hresolves := Memory.resolve_grows graph context (id :: callers)
  unfold Memory.computeNode at h
  split at h
  next error memory₂ hdeps =>
    cases h
    obtain ⟨hfailed, hvisited⟩ := resolveDeps_den hdepsBelow hmemory hdeps
    have hden := den_of_failed hfind hfailed.symm
    rw [← asked_of_failed hfind hfailed.symm] at hvisited
    exact ⟨hden.symm, hvisited.failed hden⟩
  next memory₂ hdeps =>
    obtain ⟨hready, hvisited⟩ := resolveDeps_den hdepsBelow hmemory hdeps
    obtain ⟨hgrows, hvalues⟩ := Memory.resolveDeps_grows (hresolves .demand) hdeps
    have hcomputed := den_of_ready hfind hready.symm
    rw [untilFailure_eq_self hready.symm] at hvisited
    split at h
    next error memory₃ hfollow =>
      cases h
      obtain ⟨houtcome, hlookups, _⟩ := follow_den hreadsBelow hvisited.faithful
        (.declared hvisited.faithful (.declared (hvalues rfl))) hvisited.covers hfollow
      have hden : ranking.den id = .error error := hcomputed.trans houtcome.symm
      have hasked := hvisited.append hlookups
      rw [← asked_of_ready hfind hready.symm] at hasked
      exact ⟨hden.symm, hasked.failed hden⟩
    next value reading memory₃ hfollow =>
      cases h
      obtain ⟨houtcome, hlookups, hholds⟩ := follow_den hreadsBelow hvisited.faithful
        (.declared hvisited.faithful (.declared (hvalues rfl))) hvisited.covers hfollow
      have hden : ranking.den id = .ok value := hcomputed.trans houtcome.symm
      have hasked := hvisited.append hlookups
      rw [← asked_of_ready hfind hready.symm] at hasked
      have hgrows' := (Memory.follow_grows (hresolves .lookup) (.declared (hvalues rfl)) hfollow).1
      have hnone := (pending.grow (hgrows.trans hgrows')).no_result
      have hcanonical := (hholds value reading rfl).canonical hfind hden
      exact ⟨hden.symm, hasked.complete hnone hden hcanonical⟩

/-- A failure that is remembered is that of the denotation. -/
theorem Visited.noteFailure {error : GraphError} (h : ranking.Visited [id] memory memory₁)
    (hden : ranking.den id = .error error) (request : Request) :
    ranking.Visited [id] memory (memory₁.noteFailure id error request) := by
  cases request with
  | demand => exact h
  | lookup =>
    refine { h with faithful := { h.faithful with failure := ?_, covers_failure := ?_ } }
    · intro other error' hfailure
      simp only [Memory.noteFailure, Memory.remember, Dict.find?_insert] at hfailure
      split at hfailure
      next heq =>
        cases hfailure
        exact heq ▸ hden
      next => exact h.faithful.failure other error' hfailure
    · intro other error' hfailure
      simp only [Memory.noteFailure, Memory.remember, Dict.find?_insert] at hfailure
      split at hfailure
      next heq => exact heq ▸ h.covers id (by simp)
      next => exact h.faithful.covers_failure other error' hfailure

end

/-- Resolving a node below all callers gives out its denotation. -/
theorem resolve_den (ranking : Ranking graph context) {callers : List NodeId} {id : NodeId}
    (hcallers : ∀ caller ∈ callers, ranking.rank id < ranking.rank caller) (request : Request) :
    ranking.Delivers (Memory.resolve graph context callers request) id := by
  induction hrank : ranking.rank id using Nat.strongRecOn generalizing callers id request with
  | ind n ih =>
    subst hrank
    intro memory outcome memory' hmemory h
    rw [Memory.resolve_eq] at h
    split at h
    next value hstanding =>
      cases h
      have hvalue := Memory.find?_of_standing_computed hstanding
      exact ⟨(hmemory.result id value hvalue).symm,
        .of_covers hmemory (hmemory.covers_result id value hvalue)⟩
    next error hstanding =>
      cases h
      rcases Memory.refused_of_standing hstanding with hfailure | ⟨hcaller, _⟩ | ⟨hfind, rfl⟩
      · exact ⟨(hmemory.failure id error hfailure).symm,
          .of_covers hmemory (hmemory.covers_failure id error hfailure)⟩
      · exact absurd (hcallers id hcaller) (Nat.lt_irrefl _)
      · have hden := ranking.den_of_absent hfind
        refine ⟨hden.symm, .of_covers hmemory fun other value hreaches hvalue => ?_⟩
        rcases hreaches.cases_head with rfl | ⟨next, hnext, _⟩
        · rw [hden] at hvalue
          cases hvalue
        · simp [asked, hfind] at hnext
    next node hstanding =>
      have pending := Memory.standing_eq_unresolved_iff.mp hstanding
      have hbelow : ∀ source, ranking.rank source < ranking.rank id → ∀ request,
          ranking.Delivers (Memory.resolve graph context (id :: callers) request) source := by
        intro source hsource request
        refine ih _ hsource (fun caller hcaller => ?_) request rfl
        rcases List.mem_cons.mp hcaller with rfl | hcaller
        · exact hsource
        · exact Nat.lt_trans hsource (hcallers caller hcaller)
      split at h
      next value memory₁ hnode =>
        cases h
        exact computeNode_den hbelow hmemory pending hnode
      next error memory₁ hnode =>
        cases h
        obtain ⟨hden, hvisited⟩ := computeNode_den hbelow hmemory pending hnode
        exact ⟨hden, hvisited.noteFailure hden.symm request⟩

end Ranking

end FactScore
