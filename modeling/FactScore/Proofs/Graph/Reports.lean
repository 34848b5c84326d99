import FactScore.Proofs.Graph.Account
import FactScore.Proofs.Graph.Coherence

/-!
# Reports of unknown nodes and of cycles

What an evaluation reports is exactly what is wrong with the graph (`Graph.reports_exact`).  Where
computations stay within the declared dependencies, it fails just when an unknown node or a cycle
is in reach of the wanted nodes, and reports one of these: the account of the declared
dependencies leaves no other error, and a coherent trace has no room for either defect.  Where
computations do as they like, but make up no cycles, every cycle that is reported is there.
-/

namespace FactScore

namespace Computation

variable {α : Type}

/-- A computation only looks up nodes of a list, and does not fail as long as these have values. -/
def StaysWithin (deps : List NodeId) : Computation α → Prop
  | .done _ => True
  | .fail _ => False
  | .lookup id resume => id ∈ deps ∧ ∀ value, (resume (.ok value)).StaysWithin deps

/-- A computation fails with a cycle only if it was told of just that cycle, by the answer to a
    look-up or before. -/
def MakesUpNoCycle (told : NodeId → Prop) : Computation α → Prop
  | .done _ => True
  | .fail error => ∀ id, error = .cycleDetected id → told id
  | .lookup _ resume => ∀ answer, (resume answer).MakesUpNoCycle fun id =>
      told id ∨ answer = .error (.cycleDetected id)

theorem StaysWithin.conforms {deps : List NodeId} {needed : NodeId → Prop}
    {answers : NodeId → Except GraphError Value → Prop} {allowed : Except GraphError α → Prop}
    {computation : Computation α} (h : computation.StaysWithin deps)
    (hneeded : ∀ dep ∈ deps, needed dep) (hallowed : ∀ value, allowed (.ok value)) :
    computation.Conforms deps needed answers allowed := by
  induction computation with
  | done value => exact hallowed value
  | fail error => exact h.elim
  | lookup id resume ih =>
    obtain ⟨hid, hresume⟩ := h
    refine ⟨hneeded id hid, fun answer _ hok => ?_⟩
    obtain ⟨value, rfl⟩ := hok hid
    exact ih _ (hresume value)

/-- A look-up that passes on its error makes up no cycle. -/
theorem makesUpNoCycle_get (told : NodeId → Prop) (id : NodeId) :
    (get id).MakesUpNoCycle told := by
  intro answer
  cases answer with
  | ok value => trivial
  | error error => exact fun other herror => .inr (congrArg Except.error herror)

end Computation

namespace Graph

/-- A node declares another one as a dependency. -/
def Declares (graph : Graph) (id dep : NodeId) : Prop :=
  ∃ node, graph.find? id = some node ∧ dep ∈ node.deps

/-- A node is wanted, or a wanted node depends on it by declared dependencies. -/
def Requires (graph : Graph) (wanted : List NodeId) (id : NodeId) : Prop :=
  ∃ first ∈ wanted, Relation.ReflTransGen graph.Declares first id

/-- What is wrong with the declared dependencies of a node, direct or not. -/
inductive Defect (graph : Graph) (first : NodeId) : GraphError → Prop
  | unknown {id : NodeId} (reached : Relation.ReflTransGen graph.Declares first id)
      (absent : graph.find? id = none) : Defect graph first (.unknownNode id)
  | cycle {id : NodeId} (reached : Relation.ReflTransGen graph.Declares first id)
      (cyclic : Relation.TransGen graph.Declares id id) : Defect graph first (.cycleDetected id)

mutual

/-- How a look-up of a node can be answered.  The report of a cycle is such an answer only for a
    node that is on one. -/
inductive Answers (graph : Graph) (context : Context) : NodeId → Except GraphError Value → Prop
  | unknown {id : NodeId} (absent : graph.find? id = none) :
      Answers graph context id (.error (.unknownNode id))
  | cycle {id : NodeId} (cyclic : LeadsTo graph context id id) :
      Answers graph context id (.error (.cycleDetected id))
  | failedDep {id dep : NodeId} {error : GraphError} (declares : graph.Declares id dep)
      (answer : Answers graph context dep (.error error)) : Answers graph context id (.error error)
  | done {id : NodeId} {value : Value} (reaches : Reaches graph context id (.done value)) :
      Answers graph context id (.ok value)
  | fail {id : NodeId} {error : GraphError} (reaches : Reaches graph context id (.fail error)) :
      Answers graph context id (.error error)

/-- What the computation of a node can come to after some look-ups.  Those of declared
    dependencies are answered with values. -/
inductive Reaches (graph : Graph) (context : Context) : NodeId → Computation Value → Prop
  | start {id : NodeId} {node : Node} (find : graph.find? id = some node) :
      Reaches graph context id (node.compute context)
  | resume {id source : NodeId} {resume : Except GraphError Value → Computation Value}
      {answer : Except GraphError Value}
      (reaches : Reaches graph context id (.lookup source resume))
      (answers : Answers graph context source answer)
      (ok : graph.Declares id source → ∃ value, answer = .ok value) :
      Reaches graph context id (resume answer)

/-- One node declares another or looks it up, or does so by way of further nodes. -/
inductive LeadsTo (graph : Graph) (context : Context) : NodeId → NodeId → Prop
  | declares {id dep : NodeId} (declares : graph.Declares id dep) : LeadsTo graph context id dep
  | looksUp {id source : NodeId} {resume : Except GraphError Value → Computation Value}
      (reaches : Reaches graph context id (.lookup source resume)) :
      LeadsTo graph context id source
  | trans {id next last : NodeId} (first : LeadsTo graph context id next)
      (second : LeadsTo graph context next last) : LeadsTo graph context id last

end

/-- A node declares another one or looks it up. -/
def Needs (graph : Graph) (context : Context) (id source : NodeId) : Prop :=
  graph.Declares id source ∨ ∃ resume, graph.Reaches context id (.lookup source resume)

variable {graph : Graph} {context : Context} {id dep : NodeId}

theorem contains_iff : graph.contains id = true ↔ ∃ node, graph.find? id = some node :=
  Option.isSome_iff_exists

theorem declares_iff {node : Node} (hfind : graph.find? id = some node) :
    graph.Declares id dep ↔ dep ∈ node.deps := by
  constructor
  · rintro ⟨node', hfind', hdep⟩
    cases hfind.symm.trans hfind'
    exact hdep
  · exact fun hdep => ⟨node, hfind, hdep⟩

theorem Defect.of_declares {error : GraphError} (hdeclares : graph.Declares id dep)
    (h : graph.Defect dep error) : graph.Defect id error := by
  cases h with
  | unknown reached absent => exact .unknown (.head hdeclares reached) absent
  | cycle reached cyclic => exact .cycle (.head hdeclares reached) cyclic

/-- The account of computations that stay within the declared dependencies: a node fails only for
    what is wrong with these. -/
def declaredAccount (hwithin : ∀ id node, graph.find? id = some node →
    (node.compute context).StaysWithin node.deps) : Account graph context where
  needs := graph.Declares
  answers id answer := ∀ error, answer = .error error → graph.Defect id error
  unknown hfind error herror := by
    cases herror
    exact .unknown .refl hfind
  cycle hcyclic error herror := by
    cases herror
    exact .cycle .refl hcyclic
  dep_needed hfind hdep := ⟨_, hfind, hdep⟩
  dep_failed hfind hdep hdefect error herror := by
    cases herror
    exact Defect.of_declares ⟨_, hfind, hdep⟩ (hdefect _ rfl)
  conforms hfind := (hwithin _ _ hfind).conforms (fun _ hdep => ⟨_, hfind, hdep⟩)
    fun _ _ herror => nomatch herror

theorem LeadsTo.of_transGen (h : Relation.TransGen (graph.Needs context) id dep) :
    graph.LeadsTo context id dep := by
  have hneeds : ∀ {id dep}, graph.Needs context id dep → graph.LeadsTo context id dep := by
    rintro id dep (hdeclares | ⟨resume, hreaches⟩)
    · exact .declares hdeclares
    · exact .looksUp hreaches
  induction h with
  | single h => exact hneeds h
  | tail _ h ih => exact ih.trans (hneeds h)

/-- An answer to a look-up that reports a cycle only if there is one. -/
def CycleAnswers (graph : Graph) (context : Context) (id : NodeId)
    (answer : Except GraphError Value) : Prop :=
  graph.Answers context id answer ∧ ∀ other, answer = .error (.cycleDetected other) →
    Relation.TransGen (graph.Needs context) other other

/-- What a computation can come to reports a cycle only if there is one, if it makes up none. -/
theorem conforms_of_makesUpNoCycle {node : Node} {computation : Computation Value}
    {told : NodeId → Prop} (h : computation.MakesUpNoCycle told)
    (htold : ∀ other, told other → Relation.TransGen (graph.Needs context) other other)
    (hfind : graph.find? id = some node) (hreaches : graph.Reaches context id computation) :
    computation.Conforms node.deps (graph.Needs context id) (graph.CycleAnswers context)
      (graph.CycleAnswers context id) := by
  -- what it was told of so far are real cycles, and every further answer keeps it so
  induction computation generalizing told with
  | done value => exact ⟨.done hreaches, fun _ heq => nomatch heq⟩
  | fail error =>
    refine ⟨.fail hreaches, fun other heq => htold other (h other ?_)⟩
    exact Except.error.inj heq
  | lookup source resume ih =>
    refine ⟨.inr ⟨resume, hreaches⟩, fun answer hanswer hok => ?_⟩
    refine ih answer (h answer) (fun other hother => ?_)
      (.resume hreaches hanswer.1 fun hdeclares => hok ((declares_iff hfind).mp hdeclares))
    rcases hother with hother | heq
    · exact htold other hother
    · exact hanswer.2 other heq

/-- The account of computations that make up no cycles: a cycle is reported only if there is one. -/
def cycleAccount (hcycles : ∀ id node, graph.find? id = some node →
    (node.compute context).MakesUpNoCycle fun _ => False) : Account graph context where
  needs := graph.Needs context
  answers := graph.CycleAnswers context
  unknown hfind := ⟨.unknown hfind, fun _ heq => nomatch heq⟩
  cycle hcyclic := by
    refine ⟨.cycle (.of_transGen hcyclic), fun other heq => ?_⟩
    cases heq
    exact hcyclic
  dep_needed hfind hdep := .inl ⟨_, hfind, hdep⟩
  dep_failed hfind hdep hanswer := by
    refine ⟨.failedDep ⟨_, hfind, hdep⟩ hanswer.1, fun other heq => hanswer.2 other ?_⟩
    cases heq
    rfl
  conforms hfind := conforms_of_makesUpNoCycle (hcycles _ _ hfind) (fun _ h => h.elim) hfind
    (.start hfind)

end Graph

namespace Trace.Coherent

variable {graph : Graph} {results : Dict Value} {trace : Trace} {id dep : NodeId}

/-- A recorded node is in the graph, and its declared dependencies feed it. -/
theorem exists_node (h : trace.Coherent graph results) (hid : id ∈ trace.ids) :
    ∃ node, graph.find? id = some node ∧ ∀ dep ∈ node.deps, trace.Feeds dep id := by
  obtain ⟨record, hrecord, rfl⟩ := List.mem_map.mp hid
  obtain ⟨node, hfind, _, hfeeds⟩ := h.declared record hrecord
  exact ⟨node, hfind, hfeeds⟩

theorem feeds_of_declares (h : trace.Coherent graph results) (hid : id ∈ trace.ids)
    (hdeclares : graph.Declares id dep) : trace.Feeds dep id := by
  obtain ⟨node, hfind, hfeeds⟩ := h.exists_node hid
  exact hfeeds dep ((Graph.declares_iff hfind).mp hdeclares)

/-- What a recorded node declares, directly or not, is recorded. -/
theorem mem_ids_of_declares (h : trace.Coherent graph results) (hid : id ∈ trace.ids)
    (hreaches : Relation.ReflTransGen graph.Declares id dep) : dep ∈ trace.ids := by
  induction hreaches with
  | refl => exact hid
  | tail _ hdeclares ih => exact (h.precedes _ _ (h.feeds_of_declares ih hdeclares)).mem_left

theorem not_cyclic (h : trace.Coherent graph results) (hid : id ∈ trace.ids) :
    ¬ Relation.TransGen graph.Declares id id := by
  have hfeeds : ∀ dep, Relation.TransGen graph.Declares id dep →
      Relation.TransGen trace.Feeds dep id := fun dep hpath => by
    induction hpath with
    | single hdeclares => exact .single (h.feeds_of_declares hid hdeclares)
    | tail hpath hdeclares ih =>
      have hmem := h.mem_ids_of_declares hid hpath.to_reflTransGen
      exact .head (h.feeds_of_declares hmem hdeclares) ih
  exact fun hcycle => h.acyclic id (hfeeds id hcycle)

end Trace.Coherent

namespace Graph

section

variable {graph : Graph} {context : Context} {wanted : List NodeId} {id : NodeId}
variable {evaluation : Evaluation}

/-- An evaluation that succeeds has computed everything that is required, and there is no cycle. -/
theorem computed_of_requires (h : graph.evaluate context wanted = .ok evaluation)
    (hrequired : graph.Requires wanted id) :
    id ∈ evaluation.results.keys ∧ graph.contains id ∧
      ¬ Relation.TransGen graph.Declares id id := by
  obtain ⟨memory, hresolve, rfl⟩ := evaluate_eq_ok_iff.mp h
  have hcoherent := (Memory.resolveAll_consistent hresolve).coherent
  obtain ⟨first, hfirst, hreaches⟩ := hrequired
  obtain ⟨value, hvalue⟩ := (Memory.resolveAll_grows hresolve).2 first hfirst
  have hid := hcoherent.mem_ids_of_declares (hcoherent.mem_ids_of_find? hvalue) hreaches
  obtain ⟨node, hfind, _⟩ := hcoherent.exists_node hid
  exact ⟨(hcoherent.mem_ids_iff id).mp hid, contains_iff.mpr ⟨node, hfind⟩,
    hcoherent.not_cyclic hid⟩

/-- An evaluation fails as one of the wanted nodes may. -/
theorem answer_of_evaluate (account : Account graph context) {error : GraphError}
    (h : graph.evaluate context wanted = .error error) :
    ∃ first ∈ wanted, account.answers first (.error error) :=
  (account.resolveAll_settled account.admits_empty).1 error (evaluate_eq_error_iff.mp h)

/-- Only what is needed is computed. -/
theorem needed_of_evaluate (account : Account graph context)
    (h : graph.evaluate context wanted = .ok evaluation) (hid : id ∈ evaluation.results.keys) :
    ∃ first ∈ wanted, Relation.ReflTransGen account.needs first id := by
  obtain ⟨memory, hresolve, rfl⟩ := evaluate_eq_ok_iff.mp h
  obtain ⟨value, hvalue⟩ := Option.isSome_iff_exists.mp (Entries.contains_iff_mem_keys.mpr hid)
  rcases (account.resolveAll_settled account.admits_empty).2 memory hresolve id value hvalue with
    hempty | hneeded
  · cases hempty
  · exact hneeded

/-- Where computations stay within the declared dependencies, an error is an unknown node or a
    cycle among what is required. -/
theorem defect_of_evaluate (hwithin : ∀ id node, graph.find? id = some node →
      (node.compute context).StaysWithin node.deps) {error : GraphError}
    (h : graph.evaluate context wanted = .error error) :
    (∃ id, error = .unknownNode id ∧ graph.Requires wanted id ∧ ¬ graph.contains id) ∨
      ∃ id, error = .cycleDetected id ∧ graph.Requires wanted id ∧
        Relation.TransGen graph.Declares id id := by
  obtain ⟨first, hfirst, hanswer⟩ := answer_of_evaluate (declaredAccount hwithin) h
  cases hanswer error rfl with
  | unknown reached absent =>
    refine .inl ⟨_, rfl, ⟨first, hfirst, reached⟩, fun hcontains => ?_⟩
    obtain ⟨node, hfind⟩ := contains_iff.mp hcontains
    cases absent.symm.trans hfind
  | cycle reached cyclic => exact .inr ⟨_, rfl, ⟨first, hfirst, reached⟩, cyclic⟩

end

/-- Where computations stay within the declared dependencies, an evaluation succeeds just when
    everything required is in the graph and on no cycle, it then computes just that, and otherwise
    it reports a required node that is not in the graph or one that is on a cycle.  Where they
    make up no cycles, every node that is reported to be on a cycle is on one. -/
theorem reports_exact (graph : Graph) (context : Context) (wanted : List NodeId) :
    ((∀ id node, graph.find? id = some node → (node.compute context).StaysWithin node.deps) →
      ((∃ evaluation, graph.evaluate context wanted = .ok evaluation) ↔
        ∀ id, graph.Requires wanted id →
          graph.contains id ∧ ¬ Relation.TransGen graph.Declares id id) ∧
      (∀ evaluation, graph.evaluate context wanted = .ok evaluation →
        ∀ id, id ∈ evaluation.results.keys ↔ graph.Requires wanted id) ∧
      ∀ error, graph.evaluate context wanted = .error error →
        (∃ id, error = .unknownNode id ∧ graph.Requires wanted id ∧ ¬ graph.contains id) ∨
          ∃ id, error = .cycleDetected id ∧ graph.Requires wanted id ∧
            Relation.TransGen graph.Declares id id) ∧
    ((∀ id node, graph.find? id = some node →
        (node.compute context).MakesUpNoCycle fun _ => False) →
      ∀ id, graph.evaluate context wanted = .error (.cycleDetected id) →
        Relation.TransGen (graph.Needs context) id id) := by
  constructor
  · intro hwithin
    refine ⟨⟨?success, ?noDefect⟩, fun evaluation h id => ⟨?needed, ?computed⟩,
      fun error h => defect_of_evaluate hwithin h⟩
    case success => exact fun ⟨evaluation, h⟩ id hrequired => (computed_of_requires h hrequired).2
    case noDefect =>
      intro hsound
      cases h : graph.evaluate context wanted with
      | ok evaluation => exact ⟨evaluation, rfl⟩
      | error error =>
        rcases defect_of_evaluate hwithin h with
          ⟨id, _, hrequired, habsent⟩ | ⟨id, _, hrequired, hcycle⟩
        · exact absurd (hsound id hrequired).1 habsent
        · exact absurd hcycle (hsound id hrequired).2
    case needed => exact needed_of_evaluate (declaredAccount hwithin) h
    case computed => exact fun hrequired => (computed_of_requires h hrequired).1
  · intro hcycles id h
    obtain ⟨_, _, hanswer⟩ := answer_of_evaluate (cycleAccount hcycles) h
    exact hanswer.2 id rfl

end Graph

/-- A graph in which `top` reaches `base` by two ways, and `loop` declares itself. -/
def loopedGraph : Graph where
  nodes := .ofList
    [("base", { compute := fun _ => .done (.text "b") }),
      ("left", { deps := ["base"], compute := fun _ => .get "base" }),
      ("top", { deps := ["left", "base"], compute := fun _ => .get "left" }),
      ("loop", { deps := ["loop"], compute := fun _ => .get "loop" })]

/-- A graph in which `first` recovers from a failure, and then needs itself by way of `second`. -/
def entangledGraph : Graph where
  nodes := .ofList
    [("risky", { compute := fun _ => .fail (.compute "risky" "no data") }),
      ("first", { compute := fun _ => .lookup "risky" fun _ => .get "second" }),
      ("second", { compute := fun _ => .get "first" })]

theorem reports_exact_of_loop :
    (∃ evaluation, loopedGraph.evaluate .empty ["top"] = .ok evaluation ∧
      evaluation.results.keys = ["base", "left", "top"] ∧
      ∀ id, id ∈ evaluation.results.keys ↔ loopedGraph.Requires ["top"] id) ∧
    (∃ id, loopedGraph.Requires ["loop"] id ∧ Relation.TransGen loopedGraph.Declares id id) ∧
    entangledGraph.evaluate .empty ["first"] = .error (.cycleDetected "first") ∧
      Relation.TransGen (entangledGraph.Needs .empty) "first" "first" := by
  have hwithin : ∀ id node, loopedGraph.find? id = some node →
      (node.compute .empty).StaysWithin node.deps := by
    intro id node hfind
    have hmem := Dict.mem_of_find?_ofList hfind
    simp only [List.mem_cons, List.not_mem_nil, Prod.mk.injEq, or_false] at hmem
    rcases hmem with ⟨-, rfl⟩ | ⟨-, rfl⟩ | ⟨-, rfl⟩ | ⟨-, rfl⟩ <;>
      simp [Computation.StaysWithin, Computation.get, Computation.ofExcept]
  have hcycles : ∀ id node, entangledGraph.find? id = some node →
      (node.compute .empty).MakesUpNoCycle fun _ => False := by
    intro id node hfind
    have hmem := Dict.mem_of_find?_ofList hfind
    simp only [List.mem_cons, List.not_mem_nil, Prod.mk.injEq, or_false] at hmem
    rcases hmem with ⟨-, rfl⟩ | ⟨-, rfl⟩ | ⟨-, rfl⟩
    · exact fun _ herror => nomatch herror
    · exact fun _ => Computation.makesUpNoCycle_get _ _
    · exact Computation.makesUpNoCycle_get _ _
  have hfound : (loopedGraph.evaluate .empty ["top"]).map (fun found => found.results.keys) =
      .ok ["base", "left", "top"] := by
    cbv
  have hloop : loopedGraph.evaluate .empty ["loop"] = .error (.cycleDetected "loop") := by
    cbv
  have hentangled :
      entangledGraph.evaluate .empty ["first"] = .error (.cycleDetected "first") := by
    cbv
  obtain ⟨_, hkeys, _⟩ := (Graph.reports_exact loopedGraph .empty ["top"]).1 hwithin
  obtain ⟨_, _, hdefect⟩ := (Graph.reports_exact loopedGraph .empty ["loop"]).1 hwithin
  refine ⟨?_, ?_, hentangled,
    (Graph.reports_exact entangledGraph .empty ["first"]).2 hcycles "first" hentangled⟩
  · cases h : loopedGraph.evaluate .empty ["top"] with
    | error error =>
      rw [h] at hfound
      cases hfound
    | ok evaluation =>
      rw [h] at hfound
      exact ⟨evaluation, rfl, Except.ok.inj hfound, hkeys evaluation h⟩
  · rcases hdefect _ hloop with ⟨id, herror, _⟩ | ⟨id, _, hrequired, hcyclic⟩
    · cases herror
    · exact ⟨id, hrequired, hcyclic⟩

end FactScore
