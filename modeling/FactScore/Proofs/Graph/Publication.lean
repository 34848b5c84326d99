import FactScore.Graph.Evaluation
import FactScore.Proofs.Context.Writes
import Mathlib.Data.List.Permutation

/-!
# Publication of results

The results of an evaluation are published in the order of their ids, each at the path that its
id is.  Ids can overlap as paths, and then a later result overwrites an earlier one: of the
results that overlap a path the last one decides what is read there
(`Evaluation.lookup_publishIn_of_last`), and where none overlaps it the context is as it was
(`Evaluation.lookup_publishIn_of_apart`).
-/

namespace FactScore

namespace Evaluation

variable {context : Context} {path : FactPath} {id : NodeId} {value : Value}

theorem publish_append (context : Context) (first second : List (NodeId × Value)) :
    publish context (first ++ second) = publish (publish context first) second :=
  List.foldl_append

theorem publish_cons (context : Context) (result : NodeId × Value)
    (rest : List (NodeId × Value)) :
    publish context (result :: rest) = publish (context.set ⟨result.1⟩ result.2) rest :=
  rfl

/-- Results that do not overlap a path leave it alone. -/
theorem lookup_publish_of_apart {results : List (NodeId × Value)}
    (h : ∀ result ∈ results, ¬ (FactPath.mk result.1).Overlaps path) (context : Context) :
    (publish context results).lookup path = context.lookup path := by
  induction results generalizing context with
  | nil => rfl
  | cons result rest ih =>
    have hrest := fun later hlater => h later (List.mem_cons_of_mem result hlater)
    rw [publish_cons, ih hrest, Context.lookup_set_of_not_overlaps _ (h result List.mem_cons_self)]

variable {evaluation : Evaluation}

/-- Where no computed id overlaps a path, publication leaves it alone. -/
theorem lookup_publishIn_of_apart
    (h : ∀ id ∈ evaluation.results.keys, ¬ (FactPath.mk id).Overlaps path) (context : Context) :
    (evaluation.publishIn context).lookup path = context.lookup path :=
  lookup_publish_of_apart (fun _ hresult => h _ (List.mem_map_of_mem hresult)) context

/-- What is read at a path is settled when the last result that overlaps it is written. -/
theorem exists_lookup_publishIn_eq (hfound : evaluation.results.find? id = some value)
    (hlast : ∀ later ∈ evaluation.results.keys, id < later → ¬ (FactPath.mk later).Overlaps path)
    (context : Context) : ∃ before : Context,
      (evaluation.publishIn context).lookup path = (before.set ⟨id⟩ value).lookup path := by
  obtain ⟨first, after, hlist, hafter⟩ := Entries.exists_toList_eq_append hfound
  have happart : ∀ later ∈ after, ¬ (FactPath.mk later.1).Overlaps path := by
    intro later hlater
    refine hlast later.1 (List.mem_map_of_mem ?_) (hafter later hlater)
    rw [hlist]
    exact List.mem_append_right _ (List.mem_cons_of_mem _ hlater)
  refine ⟨publish context first, ?_⟩
  rw [publishIn, hlist, publish_append, publish_cons, lookup_publish_of_apart happart]

/-- The last result that overlaps a path decides what is read there: the value itself or the part
    of it that the path goes on to, or some map if the path only leads up to the result. -/
theorem lookup_publishIn_of_last (hfound : evaluation.results.find? id = some value)
    (hoverlaps : (FactPath.mk id).Overlaps path)
    (hlast : ∀ later ∈ evaluation.results.keys, id < later → ¬ (FactPath.mk later).Overlaps path)
    (context : Context) :
    ((FactPath.mk id).segments <+: path.segments →
      (evaluation.publishIn context).lookup path =
        value.descend (path.segments.drop (FactPath.mk id).segments.length)) ∧
    (¬ (FactPath.mk id).segments <+: path.segments →
      ∃ entries, (evaluation.publishIn context).lookup path = some (.map entries)) := by
  obtain ⟨hid, hpath, halong⟩ := hoverlaps
  obtain ⟨before, hlookup⟩ := exists_lookup_publishIn_eq hfound hlast context
  rw [hlookup]
  refine ⟨fun hbelow => Context.lookup_set_of_prefix before hid hbelow value, fun habove => ?_⟩
  have hne : path.segments ≠ (FactPath.mk id).segments := fun heq =>
    habove (heq ▸ List.prefix_refl _)
  exact Context.lookup_set_of_above before hpath (halong.resolve_left habove) hne value

/-- A result is read back at the path of its id unless a later id overlaps that path.  Otherwise
    the last one that does decides: at the path or above it, by what its own result has there, and
    below it by making a map of what was there. -/
theorem publishIn_reads_back (hfound : evaluation.results.find? id = some value)
    (hpath : (FactPath.mk id).segments ≠ []) (context : Context) :
    ((∀ later ∈ evaluation.results.keys, id < later → ¬ (FactPath.mk later).Overlaps ⟨id⟩) →
      (evaluation.publishIn context).lookup ⟨id⟩ = some value) ∧
    ∀ other result, evaluation.results.find? other = some result →
      (FactPath.mk other).Overlaps ⟨id⟩ →
      (∀ later ∈ evaluation.results.keys, other < later → ¬ (FactPath.mk later).Overlaps ⟨id⟩) →
      ((FactPath.mk other).segments <+: (FactPath.mk id).segments →
        (evaluation.publishIn context).lookup ⟨id⟩ = result.descend
          ((FactPath.mk id).segments.drop (FactPath.mk other).segments.length)) ∧
      (¬ (FactPath.mk other).segments <+: (FactPath.mk id).segments →
        ∃ entries, (evaluation.publishIn context).lookup ⟨id⟩ = some (.map entries)) := by
  refine ⟨fun hlast => ?_, fun other result hother hoverlaps hlast =>
    lookup_publishIn_of_last hother hoverlaps hlast context⟩
  have hself := (lookup_publishIn_of_last hfound (FactPath.overlaps_self hpath) hlast context).1
  rw [hself (List.prefix_refl _), List.drop_length, Value.descend_nil]

end Evaluation

/-- A graph with a node below another one.  The fact that the lower one takes over is not known. -/
def shadowedGraph : Graph where
  nodes := .ofList
    [("day", { compute := fun _ => .done (.text "gap") }), ("day.stem", .ofFact ⟨"birth.stem"⟩)]

theorem segments_shadowedGraph : (FactPath.mk "day").segments = ["day"] ∧
    (FactPath.mk "day.stem").segments = ["day", "stem"] :=
  ⟨by cbv, by cbv⟩

theorem evaluate_shadowedGraph :
    ∃ evaluation, shadowedGraph.evaluate .empty ["day", "day.stem"] = .ok evaluation ∧
      evaluation.results.find? "day" = some (.text "gap") ∧
      evaluation.results.find? "day.stem" = some .missing ∧
      ∀ path, ∀ later ∈ evaluation.results.keys, "day.stem" < later →
        ¬ (FactPath.mk later).Overlaps path := by
  have hrun : (shadowedGraph.evaluate .empty ["day", "day.stem"]).map (fun evaluation =>
      (evaluation.results.keys, evaluation.results.find? "day",
        evaluation.results.find? "day.stem")) =
        .ok (["day", "day.stem"], some (.text "gap"), some .missing) := by
    cbv
  obtain ⟨evaluation, hok, hobserved⟩ := Graph.exists_evaluation hrun
  simp only [Prod.mk.injEq] at hobserved
  obtain ⟨hkeys, hday, hstem⟩ := hobserved
  have hnone : ∀ later ∈ evaluation.results.keys, ¬ "day.stem" < later := by
    rw [hkeys]
    decide
  exact ⟨evaluation, hok, hday, hstem,
    fun _ later hlater hafter => absurd hafter (hnone later hlater)⟩

/-- The result of `day` is lost to a map that the missing result of `day.stem` is put in. -/
theorem publishIn_loses_result :
    ∃ evaluation, shadowedGraph.evaluate .empty ["day", "day.stem"] = .ok evaluation ∧
      evaluation.results.find? "day" = some (.text "gap") ∧
      (FactPath.mk "day").segments = ["day"] ∧
      (evaluation.publishIn .empty).get ⟨"day"⟩ ≠ .text "gap" := by
  obtain ⟨evaluation, hok, hday, hstem, hlast⟩ := evaluate_shadowedGraph
  obtain ⟨hupper, hlower⟩ := segments_shadowedGraph
  have hoverlaps : (FactPath.mk "day.stem").Overlaps ⟨"day"⟩ := by
    simp [FactPath.Overlaps, hupper, hlower]
  obtain ⟨_, habove⟩ := Evaluation.lookup_publishIn_of_last hstem hoverlaps (hlast _) .empty
  obtain ⟨entries, hmap⟩ := habove (by simp [hupper, hlower])
  refine ⟨evaluation, hok, hday, hupper, fun hread => ?_⟩
  rw [Context.get, hmap] at hread
  cases hread

/-- In the same run the lower result is read back, and the upper one has become a map. -/
theorem publishIn_reads_back_shadowedGraph :
    ∃ evaluation, shadowedGraph.evaluate .empty ["day", "day.stem"] = .ok evaluation ∧
      (evaluation.publishIn .empty).lookup ⟨"day.stem"⟩ = some .missing ∧
      ∃ entries, (evaluation.publishIn .empty).lookup ⟨"day"⟩ = some (.map entries) := by
  obtain ⟨evaluation, hok, hday, hstem, hlast⟩ := evaluate_shadowedGraph
  obtain ⟨hupper, hlower⟩ := segments_shadowedGraph
  have hoverlaps : (FactPath.mk "day.stem").Overlaps ⟨"day"⟩ := by
    simp [FactPath.Overlaps, hupper, hlower]
  obtain ⟨_, hbelow⟩ := Evaluation.publishIn_reads_back hday (by simp [hupper]) .empty
  obtain ⟨hself, _⟩ := Evaluation.publishIn_reads_back hstem (by simp [hlower]) .empty
  obtain ⟨_, habove⟩ := hbelow "day.stem" .missing hstem hoverlaps (hlast _)
  exact ⟨evaluation, hok, hself (hlast _), habove (by simp [hupper, hlower])⟩

end FactScore
