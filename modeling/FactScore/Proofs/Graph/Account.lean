import FactScore.Proofs.Graph.Growth

/-!
# Accounts of evaluations

An `Account` says what the nodes of a graph need and how a look-up of them may be answered, and
agrees with every single step that an evaluation can take: with the refusal of an unknown node or
of one that needs itself, with the declared dependencies, and with each computation as far as its
look-ups are answered as they may be.  Then it agrees with evaluations as a whole
(`Account.resolve_settles`), however nodes fail and are recovered from: whatever is on the call
stack needs the node that is resolved, so a node that is met again needs itself.
-/

namespace FactScore

/-- A computation only looks up what is needed, and comes to what it may come to, provided that its
    look-ups get possible answers, and values where they are of declared dependencies. -/
def Computation.Conforms {α : Type} (deps : List NodeId) (needed : NodeId → Prop)
    (answers : NodeId → Except GraphError Value → Prop) (allowed : Except GraphError α → Prop) :
    Computation α → Prop
  | .done value => allowed (.ok value)
  | .fail error => allowed (.error error)
  | .lookup id resume => needed id ∧ ∀ answer, answers id answer →
      (id ∈ deps → ∃ value, answer = .ok value) →
        (resume answer).Conforms deps needed answers allowed

/-- What the nodes of a graph need, and how a look-up of them may be answered. -/
structure Account (graph : Graph) (context : Context) where
  needs : NodeId → NodeId → Prop
  answers : NodeId → Except GraphError Value → Prop
  unknown : ∀ {id}, graph.find? id = none → answers id (.error (.unknownNode id))
  cycle : ∀ {id}, Relation.TransGen needs id id → answers id (.error (.cycleDetected id))
  dep_needed : ∀ {id node dep}, graph.find? id = some node → dep ∈ node.deps → needs id dep
  dep_failed : ∀ {id node dep error}, graph.find? id = some node → dep ∈ node.deps →
    answers dep (.error error) → answers id (.error error)
  conforms : ∀ {id node}, graph.find? id = some node →
    (node.compute context).Conforms node.deps (needs id) answers (answers id)

namespace Account

variable {graph : Graph} {context : Context}

/-- What a memory holds are possible answers. -/
structure Admits (account : Account graph context) (memory : Memory) : Prop where
  result : ∀ id value, memory.results.find? id = some value → account.answers id (.ok value)
  failure : ∀ id error, memory.failures.find? id = some error → account.answers id (.error error)

/-- A memory after something was done on behalf of a node: only what the node needs, directly or
    not, was computed. -/
structure Settled (account : Account graph context) (id : NodeId) (memory memory' : Memory) :
    Prop where
  admits : account.Admits memory'
  within : ∀ other value, memory'.results.find? other = some value →
    memory.results.find? other = some value ∨ Relation.ReflTransGen account.needs id other

/-- A way to resolve nodes answers a look-up of a node as it may be answered. -/
def Settles (account : Account graph context)
    (resolve : Memory → NodeId → Except GraphError Value × Memory) (id : NodeId) : Prop :=
  ∀ memory outcome memory', account.Admits memory → resolve memory id = (outcome, memory') →
    account.Settled id memory memory' ∧ account.answers id outcome

variable {account : Account graph context} {memory memory' memory₁ : Memory} {id : NodeId}
variable {node : Node}

theorem admits_empty : account.Admits {} where
  result := fun _ _ hvalue => nomatch hvalue
  failure := fun _ _ hfailure => nomatch hfailure

namespace Settled

theorem refl (h : account.Admits memory) : account.Settled id memory memory where
  admits := h
  within := fun _ _ hvalue => .inl hvalue

theorem trans (h : account.Settled id memory memory₁) (h' : account.Settled id memory₁ memory') :
    account.Settled id memory memory' where
  admits := h'.admits
  within := by
    intro other value hvalue
    rcases h'.within other value hvalue with hvalue | hreaches
    · exact h.within other value hvalue
    · exact .inr hreaches

/-- What was done on behalf of a node was done on behalf of every node that needs it. -/
theorem of_needs {source : NodeId} (h : account.Settled source memory memory')
    (hneeds : account.needs id source) : account.Settled id memory memory' where
  admits := h.admits
  within := fun other value hvalue =>
    (h.within other value hvalue).imp_right fun hreaches => .head hneeds hreaches

theorem complete {value : Value} (h : account.Settled id memory memory')
    (hvalue : account.answers id (.ok value)) (reading : Reading) :
    account.Settled id memory (memory'.complete id node value reading) where
  admits := by
    refine { h.admits with result := fun other value' hresult => ?_ }
    rw [Memory.results_complete, Dict.find?_insert] at hresult
    split at hresult
    next heq =>
      cases hresult
      exact heq ▸ hvalue
    next => exact h.admits.result other value' hresult
  within := by
    intro other value' hresult
    rw [Memory.results_complete, Dict.find?_insert] at hresult
    split at hresult
    next heq => exact .inr (heq ▸ .refl)
    next => exact h.within other value' hresult

theorem noteFailure {error : GraphError} (h : account.Settled id memory memory')
    (herror : account.answers id (.error error)) (request : Request) :
    account.Settled id memory (memory'.noteFailure id error request) := by
  cases request with
  | demand => exact h
  | lookup =>
    refine { h with admits := { h.admits with failure := fun other error' hfailure => ?_ } }
    rw [Memory.noteFailure, Memory.failures_remember, Dict.find?_insert] at hfailure
    split at hfailure
    next heq =>
      cases hfailure
      exact heq ▸ herror
    next => exact h.admits.failure other error' hfailure

end Settled

theorem resolveDeps_settled {resolve : Memory → NodeId → Except GraphError Value × Memory}
    {deps : List NodeId} {outcome : Except GraphError Unit}
    (hresolve : ∀ dep ∈ deps, account.needs id dep ∧ account.Settles resolve dep)
    (hmemory : account.Admits memory)
    (h : Memory.resolveDeps resolve memory deps = (outcome, memory')) :
    account.Settled id memory memory' ∧
      ∀ error, outcome = .error error → ∃ dep ∈ deps, account.answers dep (.error error) := by
  induction deps generalizing memory with
  | nil =>
    cases h
    exact ⟨.refl hmemory, fun _ herror => nomatch herror⟩
  | cons dep deps ih =>
    obtain ⟨⟨hneeds, hdep⟩, hdeps⟩ := List.forall_mem_cons.mp hresolve
    unfold Memory.resolveDeps at h
    split at h
    next value memory₁ hok =>
      obtain ⟨hsettled, _⟩ := hdep _ _ _ hmemory hok
      obtain ⟨hrest, hfailed⟩ := ih hdeps hsettled.admits h
      refine ⟨(hsettled.of_needs hneeds).trans hrest, fun error herror => ?_⟩
      obtain ⟨other, hother, hanswer⟩ := hfailed error herror
      exact ⟨other, List.mem_cons_of_mem _ hother, hanswer⟩
    next error memory₁ hfailed =>
      cases h
      obtain ⟨hsettled, hanswer⟩ := hdep _ _ _ hmemory hfailed
      refine ⟨hsettled.of_needs hneeds, fun error' herror => ?_⟩
      cases herror
      exact ⟨dep, List.mem_cons_self, hanswer⟩

theorem follow_settled {resolve : Memory → NodeId → Except GraphError Value × Memory}
    {callers : List NodeId} {computation : Computation Value} {reading : Reading}
    {outcome : Except GraphError (Value × Reading)}
    (hgrows : Memory.Resolves graph callers resolve)
    (hresolve : ∀ source, account.needs id source → account.Settles resolve source)
    (hconforms : computation.Conforms node.deps (account.needs id) account.answers
      (account.answers id))
    (hmemory : account.Admits memory) (hdrawn : reading.DrawnFrom memory node)
    (h : Memory.follow resolve memory reading computation = (outcome, memory')) :
    account.Settled id memory memory' ∧ account.answers id (outcome.map Prod.fst) := by
  induction computation generalizing memory reading with
  | done value =>
    cases h
    exact ⟨.refl hmemory, hconforms⟩
  | fail error =>
    cases h
    exact ⟨.refl hmemory, hconforms⟩
  | lookup source resume ih =>
    obtain ⟨hneeds, hresume⟩ := hconforms
    unfold Memory.follow at h
    split at h
    next value hread =>
      have hanswer := hmemory.result source value (hdrawn.value_eq source value hread)
      exact ih _ (hresume _ hanswer fun _ => ⟨value, rfl⟩) hmemory hdrawn h
    next hunread =>
      split at h
      next value memory₁ hlookup =>
        obtain ⟨hsettled, hanswer⟩ := hresolve source hneeds _ _ _ hmemory hlookup
        have hdrawn₁ := (hdrawn.grow (hgrows.grows hlookup)).add (hgrows.settles hlookup)
        obtain ⟨hrest, houtcome⟩ :=
          ih _ (hresume _ hanswer fun _ => ⟨value, rfl⟩) hsettled.admits hdrawn₁ h
        exact ⟨(hsettled.of_needs hneeds).trans hrest, houtcome⟩
      next error memory₁ hlookup =>
        -- declared dependencies were all read before, so it is another node that failed
        have hundeclared : source ∉ node.deps := fun hdep => by
          have hcontains := (hdrawn.contains_iff source).mpr (.inl hdep)
          simp [Entries.contains, hunread] at hcontains
        obtain ⟨hsettled, hanswer⟩ := hresolve source hneeds _ _ _ hmemory hlookup
        obtain ⟨hrest, houtcome⟩ := ih _
          (hresume _ hanswer fun hdep => absurd hdep hundeclared) hsettled.admits
          (hdrawn.grow (hgrows.grows hlookup)) h
        exact ⟨(hsettled.of_needs hneeds).trans hrest, houtcome⟩

theorem computeNode_settled
    {resolve : Request → Memory → NodeId → Except GraphError Value × Memory}
    {callers : List NodeId} {outcome : Except GraphError Value}
    (hgrows : ∀ request, Memory.Resolves graph callers (resolve request))
    (hresolve : ∀ source, account.needs id source → ∀ request,
      account.Settles (resolve request) source)
    (hfind : graph.find? id = some node) (hmemory : account.Admits memory)
    (h : Memory.computeNode resolve context memory id node = (outcome, memory')) :
    account.Settled id memory memory' ∧ account.answers id outcome := by
  have hdepsSettle : ∀ dep ∈ node.deps,
      account.needs id dep ∧ account.Settles (resolve .demand) dep := fun dep hdep =>
    ⟨account.dep_needed hfind hdep, hresolve dep (account.dep_needed hfind hdep) .demand⟩
  unfold Memory.computeNode at h
  split at h
  next error memory₁ hdeps =>
    cases h
    obtain ⟨hsettled, hfailed⟩ := resolveDeps_settled hdepsSettle hmemory hdeps
    obtain ⟨dep, hdep, hanswer⟩ := hfailed error rfl
    exact ⟨hsettled, account.dep_failed hfind hdep hanswer⟩
  next memory₁ hdeps =>
    obtain ⟨hsettled, _⟩ := resolveDeps_settled hdepsSettle hmemory hdeps
    have hvalues := (Memory.resolveDeps_grows (hgrows .demand) hdeps).2 rfl
    have hfollow : ∀ {outcome memory₂}, Memory.follow (resolve .lookup) memory₁
        (memory₁.declared node) (node.compute context) = (outcome, memory₂) →
        account.Settled id memory memory₂ ∧ account.answers id (outcome.map Prod.fst) :=
      fun hfollow => by
        obtain ⟨hrest, houtcome⟩ := follow_settled (hgrows .lookup)
          (fun source hneeds => hresolve source hneeds .lookup) (account.conforms hfind)
          hsettled.admits (.declared hvalues) hfollow
        exact ⟨hsettled.trans hrest, houtcome⟩
    split at h
    next error memory₂ hfailed =>
      cases h
      exact hfollow hfailed
    next value reading memory₂ hok =>
      cases h
      obtain ⟨hdone, hvalue⟩ := hfollow hok
      exact ⟨hdone.complete hvalue reading, hvalue⟩

/-- Resolving a node settles it, if everything on the call stack needs it. -/
theorem resolve_settles (account : Account graph context) (callers : List NodeId) :
    ∀ id, (∀ caller ∈ callers, Relation.TransGen account.needs caller id) → ∀ request,
      account.Settles (Memory.resolve graph context callers request) id := by
  induction callers using Memory.callers_induction graph with
  | step callers ih =>
    intro id hcallers request memory outcome memory' hmemory h
    rw [Memory.resolve_eq] at h
    split at h
    next value hstanding =>
      cases h
      exact ⟨.refl hmemory, hmemory.result id value (Memory.find?_of_standing_computed hstanding)⟩
    next error hstanding =>
      cases h
      refine ⟨.refl hmemory, ?_⟩
      rcases Memory.refused_of_standing hstanding with hfailure | ⟨hcaller, rfl⟩ | ⟨hfind, rfl⟩
      · exact hmemory.failure id error hfailure
      · exact account.cycle (hcallers id hcaller)
      · exact account.unknown hfind
    next node hstanding =>
      have pending := Memory.standing_eq_unresolved_iff.mp hstanding
      have hgrows := Memory.resolve_grows graph context (id :: callers)
      have hsources : ∀ source, account.needs id source → ∀ request,
          account.Settles (Memory.resolve graph context (id :: callers) request) source := by
        intro source hneeds
        refine ih id node pending.not_caller pending.find?_eq source fun caller hcaller => ?_
        rcases List.mem_cons.mp hcaller with rfl | hcaller
        · exact .single hneeds
        · exact .tail (hcallers caller hcaller) hneeds
      split at h
      next value memory₁ hnode =>
        cases h
        exact computeNode_settled hgrows hsources pending.find?_eq hmemory hnode
      next error memory₁ hnode =>
        cases h
        obtain ⟨hsettled, hanswer⟩ :=
          computeNode_settled hgrows hsources pending.find?_eq hmemory hnode
        exact ⟨hsettled.noteFailure hanswer request, hanswer⟩

/-- An error that ends a sequence of requests is a possible answer to one of them, and otherwise
    only what is needed for them was computed. -/
theorem resolveAll_settled (account : Account graph context) {wanted : List NodeId}
    (hmemory : account.Admits memory) :
    (∀ error, Memory.resolveAll graph context memory wanted = .error error →
      ∃ id ∈ wanted, account.answers id (.error error)) ∧
    ∀ memory', Memory.resolveAll graph context memory wanted = .ok memory' →
      ∀ other value, memory'.results.find? other = some value →
        memory.results.find? other = some value ∨
          ∃ id ∈ wanted, Relation.ReflTransGen account.needs id other := by
  induction wanted generalizing memory with
  | nil =>
    refine ⟨fun _ h => (nomatch h), fun memory' h other value hvalue => ?_⟩
    cases h
    exact .inl hvalue
  | cons id rest ih =>
    have hid := account.resolve_settles [] id (by simp) .demand memory
    unfold Memory.resolveAll
    split
    next value memory₁ hresolve =>
      obtain ⟨hsettled, _⟩ := hid _ _ hmemory hresolve
      obtain ⟨hfailed, hok⟩ := ih hsettled.admits
      refine ⟨fun error h => ?_, fun memory' h other value hvalue => ?_⟩
      · obtain ⟨other, hother, hanswer⟩ := hfailed error h
        exact ⟨other, List.mem_cons_of_mem _ hother, hanswer⟩
      · rcases hok memory' h other value hvalue with hvalue | ⟨first, hfirst, hreaches⟩
        · exact (hsettled.within other value hvalue).imp_right fun hreaches =>
            ⟨id, List.mem_cons_self, hreaches⟩
        · exact .inr ⟨first, List.mem_cons_of_mem _ hfirst, hreaches⟩
    next error memory₁ hresolve =>
      refine ⟨fun error' h => ?_, fun _ h => (nomatch h)⟩
      cases h
      exact ⟨id, List.mem_cons_self, (hid _ _ hmemory hresolve).2⟩

end Account

end FactScore
