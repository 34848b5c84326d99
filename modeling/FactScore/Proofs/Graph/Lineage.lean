import FactScore.Proofs.Graph.Coherence
import Mathlib.Logic.Function.Iterate

/-!
# Lineages

An exploration visits one pending node after another (`Trace.visit`).  What it has seen feeds the
node that it started from, and a node that it is done with has all of its inputs seen
(`Trace.Explores`).  Every visit leaves less work (`Trace.work_visit_lt`), so in the end nothing is
pending, and seen are just the nodes that feed the first one, directly or through others.
-/

namespace FactScore

/-- Of two members of a list the one with the smaller index comes first. -/
theorem sublist_of_idxOf_lt {xs : List String} {first second : String} (hsecond : second ∈ xs)
    (h : xs.idxOf first < xs.idxOf second) : [first, second].Sublist xs := by
  induction xs with
  | nil => cases hsecond
  | cons x xs ih =>
    have hne : x ≠ second := by
      rintro rfl
      simp at h
    have hmem : second ∈ xs := (List.mem_cons.mp hsecond).resolve_left hne.symm
    by_cases hfirst : x = first
    · exact hfirst ▸ (List.singleton_sublist.mpr hmem).cons_cons x
    · rw [List.idxOf_cons_ne _ hfirst, List.idxOf_cons_ne _ hne] at h
      exact (ih hmem (Nat.lt_of_succ_lt_succ h)).cons x

namespace Trace

/-- How far an exploration has come. -/
@[ext]
structure Exploration where
  seen : Dict Unit := .nil
  /-- The nodes that are still to be visited. -/
  pending : List NodeId

/-- At first nothing has been seen, and only one node is pending. -/
def Exploration.start (id : NodeId) : Exploration where
  pending := [id]

/-- Visit the first pending node. -/
def visit (trace : Trace) : Exploration → Exploration
  | ⟨seen, []⟩ => ⟨seen, []⟩
  | ⟨seen, id :: rest⟩ =>
    ⟨seen.insertKeys (trace.newInputs seen id) (), trace.newInputs seen id ++ rest⟩

section

variable {trace : Trace} {seen : Dict Unit} {id source : NodeId}

theorem mem_newInputs_iff :
    source ∈ trace.newInputs seen id ↔ trace.Feeds source id ∧ seen.contains source = false := by
  simp only [newInputs, inputsOf, List.mem_filter, List.mem_map, beq_iff_eq, Bool.not_eq_true',
    Feeds]
  constructor
  · rintro ⟨⟨⟨source, target⟩, ⟨hedge, rfl⟩, rfl⟩, hnew⟩
    exact ⟨hedge, hnew⟩
  · rintro ⟨hedge, hnew⟩
    exact ⟨⟨_, ⟨hedge, rfl⟩, rfl⟩, hnew⟩

/-- After a visit, the inputs of the visited node have been seen as well. -/
theorem contains_insertKeys_newInputs :
    (seen.insertKeys (trace.newInputs seen id) ()).contains source = true ↔
      trace.Feeds source id ∨ seen.contains source = true := by
  rw [Dict.contains_insertKeys, Bool.or_eq_true, List.contains_iff_mem, mem_newInputs_iff]
  cases seen.contains source <;> simp

end

theorem explore_nil (trace : Trace) (seen : Dict Unit) : trace.explore seen [] = seen := by
  rw [explore]

/-- A visit does not change what is found in the end. -/
theorem explore_visit (trace : Trace) (exploration : Exploration) :
    trace.explore (trace.visit exploration).seen (trace.visit exploration).pending =
      trace.explore exploration.seen exploration.pending := by
  obtain ⟨seen, pending⟩ := exploration
  cases pending with
  | nil => rfl
  | cons id rest =>
    conv_rhs => rw [explore]
    split
    next hnew =>
      simp only [visit, hnew]
      rfl
    next input inputs hnew => simp only [visit, hnew]

/-- How much an exploration may still have to do: the pending nodes, and the edges from nodes that
    have not been seen, each of which can make a node pending. -/
def Exploration.work (trace : Trace) (exploration : Exploration) : Nat :=
  exploration.pending.length + exploration.seen.missing trace.sources

/-- The inputs that a visit sees are no longer missing. -/
theorem missing_visit_le (trace : Trace) (seen : Dict Unit) (id : NodeId) :
    (trace.newInputs seen id).length +
        (seen.insertKeys (trace.newInputs seen id) ()).missing trace.sources ≤
      seen.missing trace.sources := by
  have hnew : (trace.newInputs seen id).length =
      (trace.edges.filter fun edge => edge.target == id).countP
        fun edge => !seen.contains edge.source := by
    rw [newInputs, inputsOf, ← List.countP_eq_length_filter, List.countP_map]
    rfl
  have hold : (seen.insertKeys (trace.newInputs seen id) ()).missing trace.sources ≤
      (trace.edges.filter fun edge => !(edge.target == id)).countP
        fun edge => !seen.contains edge.source := by
    rw [Dict.missing, sources, List.countP_map, List.countP_filter]
    refine List.countP_mono_left fun edge hedge hmissing => ?_
    rw [Function.comp, Bool.not_eq_true', Bool.eq_false_iff, ne_eq,
      contains_insertKeys_newInputs] at hmissing
    obtain ⟨hfeeds, hseen⟩ := not_or.mp hmissing
    have htarget : edge.target ≠ id := fun heq => hfeeds (heq ▸ hedge)
    simp [htarget, hseen]
  have hall : seen.missing trace.sources =
      trace.edges.countP fun edge => !seen.contains edge.source := by
    rw [Dict.missing, sources, List.countP_map]
    rfl
  rw [hall, List.countP_eq_countP_filter_add _ _ fun edge => edge.target == id, ← hnew]
  exact Nat.add_le_add_left hold _

/-- Every visit leaves less to do. -/
theorem work_visit_lt {trace : Trace} {exploration : Exploration} (h : exploration.pending ≠ []) :
    (trace.visit exploration).work trace < exploration.work trace := by
  obtain ⟨seen, pending⟩ := exploration
  cases pending with
  | nil => exact absurd rfl h
  | cons id rest =>
    have hle := trace.missing_visit_le seen id
    simp only [Exploration.work, visit, List.length_append, List.length_cons]
    omega

theorem visit_of_pending_eq_nil {trace : Trace} {exploration : Exploration}
    (h : exploration.pending = []) : trace.visit exploration = exploration := by
  obtain ⟨seen, pending⟩ := exploration
  obtain rfl : pending = [] := h
  rfl

/-- An exploration is finished after as many visits as it has work. -/
theorem pending_visits {trace : Trace} {count : Nat} {exploration : Exploration}
    (h : exploration.work trace ≤ count) : (trace.visit^[count] exploration).pending = [] := by
  induction count generalizing exploration with
  | zero => exact List.eq_nil_of_length_eq_zero (Nat.add_eq_zero_iff.mp (Nat.le_zero.mp h)).1
  | succ count ih =>
    by_cases hpending : exploration.pending = []
    · rwa [Function.iterate_fixed (visit_of_pending_eq_nil hpending)]
    · rw [Function.iterate_succ_apply]
      exact ih (Nat.le_of_lt_succ (Nat.lt_of_lt_of_le (work_visit_lt hpending) h))

/-- How far an exploration that started from one node can have come. -/
structure Explores (trace : Trace) (id : NodeId) (exploration : Exploration) : Prop where
  /-- What has been seen feeds the first node. -/
  feeds : ∀ source, exploration.seen.contains source = true →
    Relation.TransGen trace.Feeds source id
  /-- What is pending has been seen, unless it is the first node. -/
  pending : ∀ target ∈ exploration.pending,
    target = id ∨ exploration.seen.contains target = true
  /-- Of all other nodes that count, the inputs have been seen. -/
  visited : ∀ target, target = id ∨ exploration.seen.contains target = true →
    target ∉ exploration.pending →
    ∀ source, trace.Feeds source target → exploration.seen.contains source = true

namespace Explores

variable {trace : Trace} {id : NodeId} {exploration : Exploration}

theorem start (trace : Trace) (id : NodeId) : trace.Explores id (.start id) where
  feeds := fun source h => Bool.noConfusion h
  pending := fun target h => .inl (List.mem_singleton.mp h)
  visited := fun target h hpending => by
    rcases h with rfl | h
    · exact absurd List.mem_cons_self hpending
    · exact Bool.noConfusion h

theorem visit (h : trace.Explores id exploration) :
    trace.Explores id (trace.visit exploration) := by
  obtain ⟨seen, pending⟩ := exploration
  cases pending with
  | nil => exact h
  | cons next rest =>
    have hnext := h.pending next List.mem_cons_self
    constructor
    case feeds =>
      intro source hsource
      rcases contains_insertKeys_newInputs.mp hsource with hfeeds | hseen
      · rcases hnext with rfl | hnext
        · exact .single hfeeds
        · exact .head hfeeds (h.feeds next hnext)
      · exact h.feeds source hseen
    case pending =>
      intro target htarget
      rcases List.mem_append.mp htarget with hnew | hrest
      · exact .inr (contains_insertKeys_newInputs.mpr (.inl (mem_newInputs_iff.mp hnew).1))
      · exact (h.pending target (List.mem_cons_of_mem _ hrest)).imp_right fun hseen =>
          contains_insertKeys_newInputs.mpr (.inr hseen)
    case visited =>
      intro target htarget hpending source hfeeds
      obtain ⟨hnew, hrest⟩ := not_or.mp (mt List.mem_append.mpr hpending)
      refine contains_insertKeys_newInputs.mpr ?_
      by_cases hvisited : target = next
      · exact .inl (hvisited ▸ hfeeds)
      · -- an input that is new would be pending now
        have hold : target = id ∨ seen.contains target = true := by
          refine htarget.imp_right fun hseen => ?_
          by_contra hunseen
          rcases contains_insertKeys_newInputs.mp hseen with hinput | hseen
          · exact hnew (mem_newInputs_iff.mpr ⟨hinput, by simpa using hunseen⟩)
          · exact hunseen hseen
        have hwaiting : target ∉ next :: rest := by simp [hvisited, hrest]
        exact .inr (h.visited target hold hwaiting source hfeeds)

theorem visits (h : trace.Explores id exploration) (count : Nat) :
    trace.Explores id (trace.visit^[count] exploration) := by
  induction count with
  | zero => exact h
  | succ count ih =>
    rw [Function.iterate_succ_apply']
    exact ih.visit

/-- When nothing is pending, just the nodes that feed the first one have been seen. -/
theorem contains_iff (h : trace.Explores id exploration) (hdone : exploration.pending = [])
    {source : NodeId} : exploration.seen.contains source = true ↔
      Relation.TransGen trace.Feeds source id := by
  have hvisited (target : NodeId) : target ∉ exploration.pending := by simp [hdone]
  refine ⟨h.feeds source, fun hpath => ?_⟩
  induction hpath using Relation.TransGen.head_induction_on with
  | single hfeeds => exact h.visited id (.inl rfl) (hvisited id) _ hfeeds
  | head hfeeds _ ih => exact h.visited _ (.inr ih) (hvisited _) _ hfeeds

end Explores

theorem work_start (trace : Trace) (id : NodeId) :
    (Exploration.start id).work trace ≤ trace.edges.length + 1 := by
  have hmissing : Dict.missing (.nil : Dict Unit) trace.sources ≤ trace.sources.length :=
    List.countP_le_length
  have hsources : trace.sources.length = trace.edges.length := List.length_map _
  simp only [Exploration.work, Exploration.start, List.length_singleton]
  omega

/-- An exploration from one node is over after one visit for each edge, and one for the node. -/
theorem visits_start (trace : Trace) (id : NodeId) :
    trace.visit^[trace.edges.length + 1] (.start id) = ⟨trace.explore .nil [id], []⟩ := by
  have hseen (count : Nat) : trace.explore (trace.visit^[count] (.start id)).seen
      (trace.visit^[count] (.start id)).pending = trace.explore .nil [id] := by
    induction count with
    | zero => rfl
    | succ count ih => rw [Function.iterate_succ_apply', explore_visit, ih]
  have hdone := pending_visits (trace.work_start id)
  have hlast := hseen (trace.edges.length + 1)
  rw [hdone, explore_nil] at hlast
  exact Exploration.ext hlast hdone

/-- What is found from a node are the nodes that feed it, directly or through others. -/
theorem contains_explore_iff {trace : Trace} {id source : NodeId} :
    (trace.explore .nil [id]).contains source = true ↔
      Relation.TransGen trace.Feeds source id := by
  have hexplores := (Explores.start trace id).visits (trace.edges.length + 1)
  rw [visits_start] at hexplores
  exact hexplores.contains_iff rfl

theorem mem_lineage_iff {trace : Trace} {id source : NodeId} :
    source ∈ trace.lineage id ↔ source ≠ id ∧ Relation.TransGen trace.Feeds source id := by
  rw [lineage, ← Entries.contains_iff_mem_keys, Entries.contains_erase, Bool.and_eq_true,
    bne_iff_ne, contains_explore_iff]

example :
    Trace.lineage { edges := [⟨"a", "a"⟩, ⟨"b", "a"⟩, ⟨"b", "a"⟩, ⟨"a", "b"⟩, ⟨"c", "b"⟩] } "a" =
      ["b", "c"] := by
  cbv

namespace Coherent

variable {graph : Graph} {results : Dict Value} {trace : Trace} {source target id : NodeId}

/-- In a coherent trace, whatever feeds a node has its record before that of the node. -/
theorem precedes_of_path (h : trace.Coherent graph results)
    (hpath : Relation.TransGen trace.Feeds source target) : trace.Precedes source target := by
  have hrecord : target ∈ trace.ids := by
    cases hpath with
    | single hfeeds => exact (h.precedes _ _ hfeeds).mem_right
    | tail _ hfeeds => exact (h.precedes _ _ hfeeds).mem_right
  exact sublist_of_idxOf_lt hrecord (h.idxOf_lt hpath)

/-- In a coherent trace, the lineage of a node has the lineages of its members in it. -/
theorem lineage_subset (h : trace.Coherent graph results) (hsource : source ∈ trace.lineage id) :
    trace.lineage source ⊆ trace.lineage id := by
  intro other hother
  have hpath := (mem_lineage_iff.mp hother).2.trans (mem_lineage_iff.mp hsource).2
  refine mem_lineage_iff.mpr ⟨?_, hpath⟩
  rintro rfl
  exact h.acyclic _ hpath

end Coherent

/-- Whatever cycles and repetitions the edges have, looking for a lineage ends after one visit for
    each edge and one more, and the lineage has, in order and once, just the other nodes from which
    a path leads to the node.  After an evaluation they have their records before that of the node,
    and the lineages of all of them are in its own. -/
theorem lineage_exact (trace : Trace) (id : NodeId) :
    trace.visit^[trace.edges.length + 1] (.start id) = ⟨trace.explore .nil [id], []⟩ ∧
    (trace.lineage id).Pairwise (· < ·) ∧
    (∀ source, source ∈ trace.lineage id ↔
      source ≠ id ∧ Relation.TransGen trace.Feeds source id) ∧
    ∀ (graph : Graph) context wanted evaluation, graph.evaluate context wanted = .ok evaluation →
      ∀ source ∈ evaluation.trace.lineage id,
        evaluation.trace.Precedes source id ∧
        evaluation.trace.lineage source ⊆ evaluation.trace.lineage id := by
  refine ⟨trace.visits_start id, Entries.pairwise_keys _, fun _ => mem_lineage_iff, ?_⟩
  intro graph context wanted evaluation hevaluate source hsource
  obtain ⟨memory, hresolve, rfl⟩ := Graph.evaluate_eq_ok_iff.mp hevaluate
  have hcoherent := (Memory.resolveAll_consistent hresolve).coherent
  exact ⟨hcoherent.precedes_of_path (mem_lineage_iff.mp hsource).2,
    hcoherent.lineage_subset hsource⟩

/-- A graph in which `top` gets to `base` on two ways, and asks for itself on the way. -/
def diamondGraph : Graph where
  nodes := .ofList
    [("base", { compute := fun _ => .done (.text "b") }),
      ("left", { deps := ["base"], compute := fun _ => .done (.text "l") }),
      ("right", { compute := fun _ => .get "base" }),
      ("top", { deps := ["left"], compute := fun _ => .lookup "top" fun _ => .get "right" })]

theorem lineage_diamondGraph :
    ∃ evaluation, diamondGraph.evaluate .empty ["top"] = .ok evaluation ∧
      evaluation.trace.lineage "top" = ["base", "left", "right"] ∧
      evaluation.trace.Precedes "right" "top" ∧
      evaluation.trace.lineage "right" ⊆ evaluation.trace.lineage "top" ∧
      Relation.TransGen evaluation.trace.Feeds "base" "top" := by
  have hlineage : (diamondGraph.evaluate .empty ["top"]).map
      (fun evaluation => evaluation.trace.lineage "top") = .ok ["base", "left", "right"] := by
    cbv
  obtain ⟨evaluation, hevaluate, hlineage⟩ := Graph.exists_evaluation hlineage
  obtain ⟨-, -, hmem, hordered⟩ := lineage_exact evaluation.trace "top"
  obtain ⟨hprecedes, hsubset⟩ :=
    hordered diamondGraph .empty ["top"] evaluation hevaluate "right" (by simp [hlineage])
  obtain ⟨-, hpath⟩ := (hmem "base").mp (by simp [hlineage])
  exact ⟨evaluation, hevaluate, hlineage, hprecedes, hsubset, hpath⟩

end Trace

end FactScore
