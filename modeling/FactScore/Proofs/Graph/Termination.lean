import FactScore.Proofs.Graph.Consistency

/-!
# Termination of the loop

Each step makes the counts of `Run.measure` smaller in lexicographic order, whatever the
computations do.  Within a graph the counts are bounded, so they can be read as the digits of one
number (`Run.weight`), and the loop takes no more steps than the graph allows for
(`Run.stepBound`).  In particular a frame that was suspended is on top again after some steps.
-/

namespace FactScore

/-- How many dependencies the nodes of a graph declare in all. -/
def Graph.declaredCount (graph : Graph) : Nat :=
  (graph.nodes.values.flatMap Node.deps).length

namespace Run

/-- The counts of `measure` as the digits of one number. -/
def weight (graph : Graph) (run : Run) (stack : List Frame) : Nat :=
  let counts := measure graph run stack
  (counts.1 * (graph.size + 1) + counts.2.1) * (graph.declaredCount + 1) + counts.2.2

/-- More steps than the loop takes. -/
def stepBound (graph : Graph) : Nat :=
  (graph.size + 1) * (graph.size + 1) * (graph.declaredCount + 1)

/-- Of two numbers the one with the smaller leading part is smaller, as long as the last digit is
    one. -/
theorem leading_lt {high high' low low' base : Nat} (h : high' < high) (hlow : low' ≤ base) :
    high' * (base + 1) + low' < high * (base + 1) + low := by
  have hstep : (high' + 1) * (base + 1) ≤ high * (base + 1) := Nat.mul_le_mul_right _ h
  rw [Nat.add_mul] at hstep
  omega

section

variable {graph : Graph} {run run' : Run} {stack stack' base : List Frame}

theorem idle_le (graph : Graph) (run : Run) (stack : List Frame) :
    (measure graph run stack).2.1 ≤ graph.size := by
  have hlength : graph.ids.length = graph.size := List.length_map ..
  exact hlength ▸ List.countP_le_length

theorem unsettled_le (graph : Graph) (run : Run) (stack : List Frame) :
    (measure graph run stack).1 ≤ graph.size := by
  have hlength : graph.ids.length = graph.size := List.length_map ..
  exact hlength ▸ List.countP_le_length

theorem length_deps_le {id : NodeId} {node : Node} (hfind : graph.find? id = some node) :
    node.deps.length ≤ graph.declaredCount := by
  have hnode : node ∈ graph.nodes.values :=
    List.mem_map.mpr ⟨(id, node), Entries.mem_toList_of_find? hfind, rfl⟩
  exact (List.sublist_flatten_of_mem (List.mem_map_of_mem hnode)).length_le

/-- The top frame has no more dependencies to ask for than the graph declares. -/
theorem Consistent.pending_le (h : Consistent graph none run stack) :
    (measure graph run stack).2.2 ≤ graph.declaredCount := by
  cases stack with
  | nil => exact Nat.zero_le _
  | cons frame rest =>
    have hdeps := length_deps_le (h.node_eq frame List.mem_cons_self)
    cases h.linked.1 with
    | top split _ _ =>
      rw [split, List.length_append] at hdeps
      exact Nat.le_trans (Nat.le_add_left _ _) hdeps

theorem weight_lt_of_less (h : Less (measure graph run' stack') (measure graph run stack))
    (hpending : (measure graph run' stack').2.2 ≤ graph.declaredCount) :
    weight graph run' stack' < weight graph run stack := by
  have hidle := idle_le graph run' stack'
  unfold weight
  generalize measure graph run' stack' = counts' at *
  generalize measure graph run stack = counts at *
  cases h with
  | left _ _ hunsettled => exact leading_lt (leading_lt hunsettled hidle) hpending
  | right _ hrest =>
    cases hrest with
    | left _ _ hidle' => exact leading_lt (Nat.add_lt_add_left hidle' _) hpending
    | right _ hpending' => exact Nat.add_lt_add_left hpending' _

theorem weight_lt_stepBound (h : Consistent graph none run stack) :
    weight graph run stack < stepBound graph := by
  have hunsettled := Nat.lt_succ_of_le (unsettled_le graph run stack)
  have hhigh : _ < (graph.size + 1) * (graph.size + 1) + 0 :=
    leading_lt hunsettled (idle_le graph run stack)
  have hbound : weight graph run stack < _ * (graph.declaredCount + 1) + 0 :=
    leading_lt hhigh h.pending_le
  simpa only [Nat.add_zero, stepBound] using hbound

/-- A step from a consistent state makes the weight smaller. -/
theorem Consistent.weight_step_lt (h : Consistent graph none run stack)
    {compute : Frame → Computation Value}
    (hstep : step graph compute run stack = .next run' stack') :
    Consistent graph none run' stack' ∧ weight graph run' stack' < weight graph run stack := by
  have hkeeps := h.keeps_step compute
  rw [hstep] at hkeeps
  have hkept : Consistent graph none run' stack' := hkeeps
  exact ⟨hkept, weight_lt_of_less (measure_step_lt h.toSound hstep) hkept.pending_le⟩

theorem drive_of_ending {step : Step} {ending : Except GraphError Unit × Run}
    (h : step.ending = some ending) (n : Nat) (computes : Nat → Frame → Computation Value) :
    drive graph n computes step = step := by
  cases step with
  | next => cases h
  | finished => cases n <;> rfl
  | stopped => cases n <;> rfl

/-- The loop comes to an end within as many steps as there is weight. -/
theorem Consistent.exists_ending (h : Consistent graph none run stack) {n : Nat}
    (hweight : weight graph run stack < n) (computes : Nat → Frame → Computation Value) :
    ∃ ending, (drive graph n computes (.next run stack)).ending = some ending := by
  induction n generalizing run stack computes with
  | zero => cases hweight
  | succ n ih =>
    simp only [drive]
    cases hstep : step graph (computes 0) run stack with
    | next run₁ stack₁ =>
      obtain ⟨hkept, hlt⟩ := h.weight_step_lt hstep
      exact ih hkept (by omega) _
    | finished run₁ => exact ⟨_, by rw [drive_of_ending rfl]; rfl⟩
    | stopped error run₁ => exact ⟨_, by rw [drive_of_ending rfl]; rfl⟩

/-- A frame that waits for the node above it is on top again when that node is settled, and not
    earlier. -/
theorem Consistent.exists_resumed {waiter : Frame} {rest : List Frame} {id : NodeId}
    (h : Consistent graph none run stack) (hwaiting : waiter.waitingFor = some id)
    (hover : Over (waiter :: rest) id stack) (computes : Nat → Frame → Computation Value) :
    ∃ n ≤ weight graph run stack, ∃ run',
      drive graph n computes (.next run stack) = .next run' (waiter :: rest) ∧
      run'.settled id = true ∧
      ∀ m < n, ∃ run₁ stack₁, drive graph m computes (.next run stack) = .next run₁ stack₁ ∧
        Over (waiter :: rest) id stack₁ := by
  induction hweight : weight graph run stack using Nat.strongRecOn
    generalizing run stack computes with
  | ind weight₀ ih =>
    subst hweight
    have hresolving : Resolving (waiter :: rest) id (step graph (computes 0) run stack) :=
      resolving_step (by simpa using hwaiting) hover (computes 0)
    have hfirst : ∃ run₁ stack₁, drive graph 0 computes (.next run stack) = .next run₁ stack₁ ∧
        Over (waiter :: rest) id stack₁ := ⟨run, stack, rfl, hover⟩
    cases hstep : step graph (computes 0) run stack with
    | next run₁ stack₁ =>
      rw [hstep] at hresolving
      obtain ⟨hkept, hlt⟩ := h.weight_step_lt hstep
      rcases hresolving with hover₁ | ⟨rfl, hsettled⟩
      · obtain ⟨n, hn, run', hdrive, hsettled, hearlier⟩ :=
          ih _ hlt hkept hover₁ (fun i => computes (i + 1)) rfl
        refine ⟨n + 1, by omega, run', by simpa only [drive, hstep] using hdrive, hsettled, ?_⟩
        intro m hm
        cases m with
        | zero => exact hfirst
        | succ m => simpa only [drive, hstep] using hearlier m (by omega)
      · refine ⟨1, by omega, run₁, by simp only [drive, hstep], ?_, ?_⟩
        · exact settled_iff.mpr (hsettled.imp_right And.right)
        · intro m hm
          obtain rfl : m = 0 := by omega
          exact hfirst
    | finished run₁ =>
      rw [hstep] at hresolving
      exact hresolving.elim
    | stopped error run₁ =>
      rw [hstep] at hresolving
      cases hresolving

/-- The frames above another one are those of other nodes. -/
theorem Sound.ne_of_above {above rest : List Frame} {frame : Frame}
    (h : Sound graph run (above ++ frame :: rest)) : ∀ other ∈ above, other.id ≠ frame.id := by
  have hnodup := h.nodup
  rw [List.map_append, List.nodup_append] at hnodup
  intro other hother
  exact hnodup.2.2 _ (List.mem_map_of_mem hother) _ List.mem_cons_self

/-- The loop takes the steps of the machine. -/
theorem leads_drive (context : Context) (n : Nat) (current : Step) :
    Leads graph context current
      (drive graph n (fun _ frame => frame.node.compute context) current) := by
  induction n generalizing current with
  | zero => exact .refl
  | succ n ih =>
    cases current with
    | next run stack => exact leads_of_step (ih _)
    | finished run => exact .refl
    | stopped error run => exact .refl

end

/-- From any state that a run can come to, and whatever the computations do at each attempt, the
    loop ends within a number of steps that only depends on the graph.  That is how runs of the
    machine end.  When a computation is suspended, this is for a node of the graph that has no
    value and no error and is not in progress.  After some steps its frame is on top again; that
    node then has a value or an error, and up to then the frame stayed below. -/
theorem drive_terminates {graph : Graph} {asked : List NodeId} {run : Run} {stack : List Frame}
    (h : History graph .any asked run stack) :
    (∀ computes, ∃ ending,
      (drive graph (stepBound graph) computes (.next run stack)).ending = some ending) ∧
    (∀ context hsound,
      (drive graph (stepBound graph) (fun _ frame => frame.node.compute context)
        (.next run stack)).ending = some (runStack graph context run stack hsound)) ∧
    ∀ computes frame rest target, stack = frame :: rest → frame.pending = [] →
      run.attempt graph (run.declared frame.node) (computes 0 frame) = .waiting target →
      graph.contains target = true ∧ run.results.contains target = false ∧
        run.failures.contains target = false ∧ run.active.contains target = false ∧
      ∃ n ≤ stepBound graph, ∃ run',
        drive graph (n + 1) computes (.next run stack) =
          .next run' ({ frame with waitingFor := some target } :: rest) ∧
        (run'.results.contains target = true ∨ run'.failures.contains target = true) ∧
        ∀ m < n, ∃ run₁ above, above ≠ [] ∧ (∀ other ∈ above, other.id ≠ frame.id) ∧
          drive graph (m + 1) computes (.next run stack) =
            .next run₁ (above ++ { frame with waitingFor := some target } :: rest) := by
  have hconsistent := h.consistent
  have hends := hconsistent.exists_ending (weight_lt_stepBound hconsistent)
  refine ⟨hends, fun context hsound => ?_, ?_⟩
  · obtain ⟨ending, hending⟩ := hends fun _ frame => frame.node.compute context
    rw [hending, runStack_eq_of_leads hsound (leads_drive context _ _) hending]
  · rintro computes frame rest target rfl hpending hattempt
    obtain ⟨node, hstanding, hdemand⟩ := demand_of_waiting hattempt
      ({ frame with waitingFor := some target } :: rest)
    obtain ⟨hunsettled, hinactive, hfind⟩ := standing_unresolved hstanding
    obtain ⟨hresult, hfailure⟩ := Bool.or_eq_false_iff.mp hunsettled
    refine ⟨Option.isSome_iff_exists.mpr ⟨node, hfind⟩, hresult, hfailure, hinactive, ?_⟩
    have hstep : step graph (computes 0) run (frame :: rest) =
        push run ({ frame with waitingFor := some target } :: rest) target node := by
      simpa only [step, hpending, hattempt] using hdemand
    have hpushed := (hconsistent.weight_step_lt hstep).1
    obtain ⟨n, hn, run', hdrive, hsettled, hearlier⟩ :=
      hpushed.exists_resumed rfl (.of_top _) fun i => computes (i + 1)
    have hdrive_succ (m : Nat) : drive graph (m + 1) computes (.next run (frame :: rest)) =
        drive graph m (fun i => computes (i + 1))
          (push run ({ frame with waitingFor := some target } :: rest) target node) := by
      simp only [drive, hstep]
    have hbound := Nat.le_trans hn (Nat.le_of_lt (weight_lt_stepBound hpushed))
    refine ⟨n, hbound, run', (hdrive_succ n).trans hdrive, settled_iff.mp hsettled, fun m hm => ?_⟩
    obtain ⟨run₁, stack₁, hdrive₁, above, bottom, rfl, -⟩ := hearlier m hm
    rw [List.append_cons] at hdrive₁
    have hdrive₁ := (hdrive_succ m).trans hdrive₁
    have hsound := (h.drive (fun _ _ => trivial) (m + 1) hdrive₁).consistent.toSound
    exact ⟨run₁, above ++ [bottom], by simp, hsound.ne_of_above, hdrive₁⟩

/-- A node that looks up the node that declares it as a dependency. -/
def seekingNode : Node where
  compute := fun _ => .get "b"

def knottedGraph : Graph where
  nodes := .ofList
    [("a", seekingNode),
      ("b", { deps := ["a"], compute := fun _ => .get "a" }),
      ("c", { compute := fun _ => .done (.text "c") })]

/-- Computations that look up another node at each attempt. -/
def fickle (attempt : Nat) (_ : Frame) : Computation Value :=
  .get (if attempt = 0 then "b" else "c")

theorem drive_terminates_knottedGraph :
    ∃ run frame, History knottedGraph .any ["a"] run [frame] ∧
      run.attempt knottedGraph (run.declared frame.node) (fickle 0 frame) = .waiting "b" ∧
      (∃ ending, (drive knottedGraph (stepBound knottedGraph) fickle
        (.next run [frame])).ending = some ending) ∧
      ∃ n ≤ stepBound knottedGraph, ∃ run',
        drive knottedGraph (n + 1) fickle (.next run [frame]) =
          .next run' [{ frame with waitingFor := some "b" }] ∧
        (run'.results.contains "b" = true ∨ run'.failures.contains "b" = true) := by
  have hentered : History knottedGraph .any ["a"] _ _ :=
    History.start.enter (show Run.standing knottedGraph {} "a" = .unresolved seekingNode from rfl)
  obtain ⟨hends, -, hsuspends⟩ := drive_terminates hentered
  have hwaiting : Run.attempt knottedGraph { active := Dict.insert .nil "a" () }
      (Run.declared { active := Dict.insert .nil "a" () } seekingNode) (.get "b") =
        .waiting "b" := rfl
  obtain ⟨-, -, -, -, n, hn, run', hdrive, hsettled, -⟩ :=
    hsuspends fickle _ _ "b" rfl rfl hwaiting
  exact ⟨_, _, hentered, hwaiting, hends fickle, n, hn, run', hdrive, hsettled⟩

end Run

end FactScore
