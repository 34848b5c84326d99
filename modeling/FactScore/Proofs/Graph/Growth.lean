import FactScore.Proofs.Graph.Recursion
import Mathlib.Logic.Relation

/-!
# Growth of a memory

What resolving a node can do to what is known.  There are two ways to gain something
(`Memory.Gain`): a node is completed, or the error of a node is remembered.  Either concerns a
node of the graph that nothing is known about and that is not on the call stack.  Resolving is a
sequence of gains (`Memory.resolve_grows`), so whatever is known stays known as it is
(`Memory.Grows.known`).
-/

namespace FactScore

/-- A reading holds the values of the declared dependencies and of the nodes looked up besides,
    all of them as they are known. -/
structure Reading.DrawnFrom (reading : Reading) (memory : Memory) (node : Node) : Prop where
  value_eq : ∀ source value, reading.values.find? source = some value →
    memory.results.find? source = some value
  contains_iff : ∀ source, reading.values.contains source = true ↔
    source ∈ node.deps ∨ source ∈ reading.adHoc

namespace Memory

/-- One thing more is known. -/
inductive Gain (graph : Graph) (callers : List NodeId) : Memory → Memory → Prop where
  | complete {memory : Memory} {id : NodeId} {node : Node} {value : Value} {reading : Reading}
      (pending : Pending graph callers memory id node) (drawn : reading.DrawnFrom memory node) :
      Gain graph callers memory (memory.complete id node value reading)
  | remember {memory : Memory} {id : NodeId} {node : Node} {error : GraphError}
      (pending : Pending graph callers memory id node) :
      Gain graph callers memory (memory.remember id error)

/-- A memory after any number of gains. -/
abbrev Grows (graph : Graph) (callers : List NodeId) : Memory → Memory → Prop :=
  Relation.ReflTransGen (Gain graph callers)

section

variable {graph : Graph} {context : Context} {callers : List NodeId}
variable {memory memory' : Memory} {id other : NodeId} {node : Node}

theorem Pending.of_cons {caller : NodeId} (h : Pending graph (caller :: callers) memory id node) :
    Pending graph callers memory id node :=
  { h with not_caller := fun hmem => h.not_caller (List.mem_cons_of_mem _ hmem) }

theorem Gain.of_cons {caller : NodeId} (h : Gain graph (caller :: callers) memory memory') :
    Gain graph callers memory memory' := by
  cases h with
  | complete pending drawn => exact .complete pending.of_cons drawn
  | remember pending => exact .remember pending.of_cons

/-- What is gained below a caller is gained. -/
theorem Grows.of_cons {caller : NodeId} (h : Grows graph (caller :: callers) memory memory') :
    Grows graph callers memory memory' :=
  Relation.ReflTransGen.mono (fun _ _ => Gain.of_cons) _ _ h

/-- A gain leaves everything but a pending node alone. -/
theorem Gain.known (h : Gain graph callers memory memory')
    (hother : ∀ node, ¬ Pending graph callers memory other node) :
    memory'.results.find? other = memory.results.find? other ∧
      memory'.failures.find? other = memory.failures.find? other := by
  cases h with
  | @complete id _ _ _ pending _ =>
    have hne : other ≠ id := fun heq => hother _ (heq ▸ pending)
    simp [hne]
  | @remember id _ _ pending =>
    have hne : other ≠ id := fun heq => hother _ (heq ▸ pending)
    simp [hne]

/-- Growth leaves everything but pending nodes alone. -/
theorem Grows.known (h : Grows graph callers memory memory')
    (hother : ∀ node, ¬ Pending graph callers memory other node) :
    memory'.results.find? other = memory.results.find? other ∧
      memory'.failures.find? other = memory.failures.find? other := by
  induction h with
  | refl => exact ⟨rfl, rfl⟩
  | tail _ hgain ih =>
    have hstill : ∀ node, ¬ Pending graph callers _ other node := fun node pending =>
      hother node
        { pending with
          no_result := ih.1.symm.trans pending.no_result
          no_failure := ih.2.symm.trans pending.no_failure }
    obtain ⟨hresults, hfailures⟩ := hgain.known hstill
    exact ⟨hresults.trans ih.1, hfailures.trans ih.2⟩

/-- A value stays. -/
theorem Grows.find?_results {value : Value} (h : Grows graph callers memory memory')
    (hvalue : memory.results.find? other = some value) :
    memory'.results.find? other = some value := by
  refine (h.known fun node pending => ?_).1.trans hvalue
  rw [pending.no_result] at hvalue
  cases hvalue

/-- Nothing gets known about a node while it is on the call stack. -/
theorem Pending.grow (h : Pending graph callers memory id node)
    (hgrows : Grows graph (id :: callers) memory memory') :
    Pending graph callers memory' id node := by
  have hactive : ∀ node, ¬ Pending graph (id :: callers) memory id node := fun _ pending =>
    pending.not_caller List.mem_cons_self
  obtain ⟨hresults, hfailures⟩ := hgrows.known hactive
  exact { h with
    no_result := hresults.trans h.no_result
    no_failure := hfailures.trans h.no_failure }

end

end Memory

namespace Reading.DrawnFrom

variable {graph : Graph} {callers : List NodeId} {memory memory' : Memory} {node : Node}
variable {reading : Reading}

theorem grow (h : reading.DrawnFrom memory node) (hgrows : memory.Grows graph callers memory') :
    reading.DrawnFrom memory' node where
  value_eq := fun source value hvalue => hgrows.find?_results (h.value_eq source value hvalue)
  contains_iff := h.contains_iff

theorem add {id : NodeId} {value : Value} (h : reading.DrawnFrom memory node)
    (hvalue : memory.results.find? id = some value) :
    (reading.add id value).DrawnFrom memory node where
  value_eq := by
    intro source value' hfind
    simp only [Reading.add, Dict.find?_insert] at hfind
    split at hfind
    next heq =>
      cases hfind
      exact heq ▸ hvalue
    next => exact h.value_eq source value' hfind
  contains_iff := by
    intro source
    simp only [Reading.add, Dict.contains_insert, Bool.or_eq_true, beq_iff_eq, h.contains_iff,
      List.mem_append, List.mem_singleton]
    constructor
    · rintro (rfl | hdeps | hadHoc)
      · exact .inr (.inr rfl)
      · exact .inl hdeps
      · exact .inr (.inl hadHoc)
    · rintro (hdeps | hadHoc | rfl)
      · exact .inr (.inl hdeps)
      · exact .inr (.inr hadHoc)
      · exact .inl rfl

/-- Everything that was read has a value. -/
theorem exists_value (h : reading.DrawnFrom memory node) {source : NodeId}
    (hread : source ∈ node.deps ∨ source ∈ reading.adHoc) :
    ∃ value, reading.values.find? source = some value ∧
      memory.results.find? source = some value := by
  have hcontains := (h.contains_iff source).mpr hread
  obtain ⟨value, hvalue⟩ := Option.isSome_iff_exists.mp hcontains
  exact ⟨value, hvalue, h.value_eq source value hvalue⟩

/-- Once the declared dependencies have values, these are a reading to begin with. -/
theorem declared (hdeps : ∀ dep ∈ node.deps, ∃ value, memory.results.find? dep = some value) :
    (memory.declared node).DrawnFrom memory node where
  value_eq := by
    intro source value hfind
    simp only [Memory.declared, Dict.find?_ofList_map] at hfind
    split at hfind
    next hmem =>
      obtain ⟨value', hvalue'⟩ := hdeps source hmem
      rw [hvalue'] at hfind ⊢
      simpa using hfind
    next => cases hfind
  contains_iff := by
    intro source
    unfold Entries.contains
    simp only [Memory.declared, Dict.find?_ofList_map]
    by_cases hmem : source ∈ node.deps
    · simp [hmem]
    · simp [hmem]

end Reading.DrawnFrom

namespace Memory

variable {graph : Graph} {context : Context} {callers : List NodeId}
variable {memory memory' : Memory} {id : NodeId} {node : Node}

/-- A way to resolve nodes that only lets the memory grow and that leaves the values it gives out
    in the memory. -/
structure Resolves (graph : Graph) (callers : List NodeId)
    (resolve : Memory → NodeId → Except GraphError Value × Memory) : Prop where
  grows : ∀ {memory id outcome memory'}, resolve memory id = (outcome, memory') →
    Grows graph callers memory memory'
  settles : ∀ {memory id value memory'}, resolve memory id = (.ok value, memory') →
    memory'.results.find? id = some value

section

variable {resolve : Memory → NodeId → Except GraphError Value × Memory}

theorem resolveDeps_grows (hresolve : Resolves graph callers resolve) {deps : List NodeId}
    {outcome : Except GraphError Unit} (h : resolveDeps resolve memory deps = (outcome, memory')) :
    Grows graph callers memory memory' ∧
      (outcome = .ok () → ∀ dep ∈ deps, ∃ value, memory'.results.find? dep = some value) := by
  induction deps generalizing memory with
  | nil =>
    cases h
    exact ⟨.refl, by simp⟩
  | cons dep deps ih =>
    unfold resolveDeps at h
    split at h
    next value memory₁ hdep =>
      obtain ⟨hgrows, hdeps⟩ := ih h
      refine ⟨(hresolve.grows hdep).trans hgrows, fun hok other hother => ?_⟩
      rcases List.mem_cons.mp hother with rfl | hother
      · exact ⟨value, hgrows.find?_results (hresolve.settles hdep)⟩
      · exact hdeps hok other hother
    next error memory₁ hdep =>
      cases h
      exact ⟨hresolve.grows hdep, by simp⟩

theorem follow_grows (hresolve : Resolves graph callers resolve) {reading : Reading}
    {computation : Computation Value} {outcome : Except GraphError (Value × Reading)}
    (hdrawn : reading.DrawnFrom memory node)
    (h : follow resolve memory reading computation = (outcome, memory')) :
    Grows graph callers memory memory' ∧
      ∀ value reading', outcome = .ok (value, reading') → reading'.DrawnFrom memory' node := by
  induction computation generalizing memory reading with
  | done value =>
    cases h
    refine ⟨.refl, fun value' reading' hok => ?_⟩
    cases hok
    exact hdrawn
  | fail error =>
    cases h
    exact ⟨.refl, by simp⟩
  | lookup id resume ih =>
    unfold follow at h
    split at h
    next value hvalue => exact ih _ hdrawn h
    next =>
      split at h
      next value memory₁ hlookup =>
        have hgrows := hresolve.grows hlookup
        obtain ⟨hrest, hreading⟩ :=
          ih _ ((hdrawn.grow hgrows).add (hresolve.settles hlookup)) h
        exact ⟨hgrows.trans hrest, hreading⟩
      next error memory₁ hlookup =>
        have hgrows := hresolve.grows hlookup
        obtain ⟨hrest, hreading⟩ := ih _ (hdrawn.grow hgrows) h
        exact ⟨hgrows.trans hrest, hreading⟩

end

section

variable {resolve : Request → Memory → NodeId → Except GraphError Value × Memory}

/-- A node that fails leaves what was gained below it. -/
theorem computeNode_error_grows (hresolve : ∀ request, Resolves graph callers (resolve request))
    {error : GraphError}
    (h : computeNode resolve context memory id node = (.error error, memory')) :
    Grows graph callers memory memory' := by
  unfold computeNode at h
  split at h
  next error' memory₁ hdeps =>
    cases h
    exact (resolveDeps_grows (hresolve .demand) hdeps).1
  next memory₁ hdeps =>
    obtain ⟨hgrows, hvalues⟩ := resolveDeps_grows (hresolve .demand) hdeps
    split at h
    next error' memory₂ hfollow =>
      cases h
      exact hgrows.trans (follow_grows (hresolve .lookup) (.declared (hvalues rfl)) hfollow).1
    next => cases h

/-- A node that is computed leaves what was gained below it, and then its own completion. -/
theorem computeNode_ok_grows (hresolve : ∀ request, Resolves graph callers (resolve request))
    {value : Value} (h : computeNode resolve context memory id node = (.ok value, memory')) :
    ∃ memory₁ reading, Grows graph callers memory memory₁ ∧ reading.DrawnFrom memory₁ node ∧
      memory' = memory₁.complete id node value reading := by
  unfold computeNode at h
  split at h
  next => cases h
  next memory₁ hdeps =>
    obtain ⟨hgrows, hvalues⟩ := resolveDeps_grows (hresolve .demand) hdeps
    split at h
    next => cases h
    next value' reading memory₂ hfollow =>
      cases h
      obtain ⟨hrest, hreading⟩ :=
        follow_grows (hresolve .lookup) (.declared (hvalues rfl)) hfollow
      exact ⟨memory₂, reading, hgrows.trans hrest, hreading _ _ rfl, rfl⟩

end

theorem Pending.grows_noteFailure (h : Pending graph callers memory id node) (error : GraphError)
    (request : Request) : Grows graph callers memory (memory.noteFailure id error request) := by
  cases request with
  | demand => exact .refl
  | lookup => exact .single (.remember h)

/-- Resolving lets the memory grow, and a value it gives out is in the memory from then on. -/
theorem resolve_grows (graph : Graph) (context : Context) (callers : List NodeId) :
    ∀ request, Resolves graph callers (resolve graph context callers request) := by
  induction callers using callers_induction graph with
  | step callers ih =>
    intro request
    have hboth : ∀ {memory id outcome memory'},
        resolve graph context callers request memory id = (outcome, memory') →
        Grows graph callers memory memory' ∧
          ∀ value, outcome = .ok value → memory'.results.find? id = some value := by
      intro memory id outcome memory' h
      rw [resolve_eq] at h
      split at h
      next value hstanding =>
        cases h
        refine ⟨.refl, fun value' hok => ?_⟩
        cases hok
        exact find?_of_standing_computed hstanding
      next =>
        cases h
        exact ⟨.refl, by simp⟩
      next node hstanding =>
        have pending := standing_eq_unresolved_iff.mp hstanding
        have hinner := ih id node pending.not_caller pending.find?_eq
        split at h
        next value memory₁ hnode =>
          cases h
          obtain ⟨memory₂, reading, hgrows, hdrawn, rfl⟩ := computeNode_ok_grows hinner hnode
          have hgain : Gain graph callers memory₂ (memory₂.complete id node value reading) :=
            .complete (pending.grow hgrows) hdrawn
          refine ⟨hgrows.of_cons.tail hgain, fun value' hok => ?_⟩
          cases hok
          simp
        next error memory₁ hnode =>
          cases h
          have hgrows := computeNode_error_grows hinner hnode
          exact ⟨hgrows.of_cons.trans ((pending.grow hgrows).grows_noteFailure error request),
            by simp⟩
    exact ⟨fun h => (hboth h).1, fun h => (hboth h).2 _ rfl⟩

theorem resolveAll_grows {wanted : List NodeId}
    (h : resolveAll graph context memory wanted = .ok memory') :
    Grows graph [] memory memory' ∧
      ∀ id ∈ wanted, ∃ value, memory'.results.find? id = some value := by
  induction wanted generalizing memory with
  | nil =>
    cases h
    exact ⟨.refl, by simp⟩
  | cons id rest ih =>
    unfold resolveAll at h
    split at h
    next value memory₁ hresolve =>
      have hresolves := resolve_grows graph context [] .demand
      obtain ⟨hgrows, hvalues⟩ := ih h
      refine ⟨(hresolves.grows hresolve).trans hgrows, fun other hother => ?_⟩
      rcases List.mem_cons.mp hother with rfl | hother
      · exact ⟨value, hgrows.find?_results (hresolves.settles hresolve)⟩
      · exact hvalues other hother
    next => cases h

end Memory

end FactScore
