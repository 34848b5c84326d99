import FactScore.Proofs.Macro.Explanation
import FactScore.Proofs.Macro.Suppression

/-!
# Penalties

What a penalty takes from its categories is its amount made negative, times a fact if it is scaled,
and what a suppression takes is its weight made negative, times the strength.  Only a negative fact
turns that into a gain (`MacroRecord.gains_need_negative_facts`), but a negative fact does
(`penalties_gain`).
-/

namespace FactScore

variable {context : Context} {category : String} {contribution : Contribution} {ruleSet : RuleSet}

namespace PenalizeWhen

/-- The rule of a penalty. -/
def rule (record : PenalizeWhen) : Rule :=
  Rule.explained .penalizeWhen {
    id := record.id
    when := record.when
    score := Dict.insertKeys .nil record.categories (record.spec.toExpr .empty)
    explain := record.explain
    tags := record.tags }

variable {record : PenalizeWhen}

theorem expand_eq_rule (record : PenalizeWhen) :
    (MacroRecord.penalizeWhen record).expand = [record.rule] := by
  rw [MacroRecord.expand_eq_map_explained, MacroRecord.bareRules, PenalizeWhen.expand_eq]
  rfl

theorem find?_score_rule (record : PenalizeWhen) (category : String) :
    record.rule.score.find? category =
      if category ∈ record.categories then some (record.spec.toExpr .empty) else none :=
  Dict.find?_insertKeys .nil record.categories category _

/-- A penalty takes the same amount from each of its categories. -/
theorem award?_rule (h : record.rule.award? context category = some contribution) :
    record.spec.ComesTo .empty context contribution.amount := by
  obtain ⟨_, expr, hexpr, hnumber⟩ := Rule.score_of_award? h
  rw [find?_score_rule] at hexpr
  obtain ⟨_, hspec⟩ := Option.ite_none_right_eq_some.mp hexpr
  rw [← Option.some_inj.mp hspec] at hnumber
  exact ScoreSpec.number?_toExpr.mp hnumber

section

variable {gate : Value} {amount : Float} (heval : record.when.eval context = .ok gate)
  (hgate : gate.isTruthy = true) (hamount : record.spec.ComesTo .empty context amount)

include heval hgate hamount

theorem verdict_rule_of_comesTo : record.rule.verdict context = .fired := by
  refine Rule.verdict_eq_fired heval hgate fun entry hentry => ?_
  have hfind := Entries.find?_of_mem_toList hentry
  rw [find?_score_rule] at hfind
  obtain ⟨_, hspec⟩ := Option.ite_none_right_eq_some.mp hfind
  rw [← Option.some_inj.mp hspec]
  exact Option.isSome_iff_exists.mpr ⟨amount, ScoreSpec.number?_toExpr.mpr hamount⟩

/-- A penalty whose gate is open takes what it comes to. -/
theorem exists_award?_rule (hlisted : category ∈ record.categories) :
    ∃ contribution, record.rule.award? context category = some contribution ∧
      contribution.amount = amount := by
  have hfired := verdict_rule_of_comesTo heval hgate hamount
  have hcontains : record.rule.score.contains category = true := by
    rw [Entries.contains, find?_score_rule, if_pos hlisted]
    rfl
  obtain ⟨contribution, haward⟩ :=
    Option.isSome_iff_exists.mp (Rule.award?_isSome_iff.mpr ⟨hfired, hcontains⟩)
  have hnumber := ScoreSpec.number?_toExpr.mpr (award?_rule haward)
  rw [ScoreSpec.number?_toExpr.mpr hamount] at hnumber
  exact ⟨contribution, haward, (Option.some_inj.mp hnumber).symm⟩

end

theorem amount_of_contributes (hrules : ruleSet.rules = (MacroRecord.penalizeWhen record).expand)
    (hcommitted : (ruleSet.evaluate context).Contributes category contribution) :
    match record.scaleBy with
    | none => contribution.amount = -record.amount.abs ∧ ¬0 < contribution.amount
    | some path => context.NumberAt ⟨path⟩ fun x =>
        contribution.amount = -record.amount.abs * x ∧
          (0 < contribution.amount → x < 0) ∧ (x < 0 → ¬contribution.amount < 0) := by
  obtain ⟨_, hrule, haward⟩ := (ruleSet.contributes_evaluate_iff context).mp hcommitted
  rw [hrules, expand_eq_rule] at hrule
  obtain rfl := List.mem_singleton.mp hrule
  have hamount := award?_rule haward
  unfold spec at hamount
  cases hscale : record.scaleBy with
  | none =>
    rw [hscale] at hamount
    exact hamount.penalty
  | some path =>
    rw [hscale] at hamount
    have hscaled := hamount.penalty
    simp only [Bindings.fill_empty] at hscaled
    exact hscaled

end PenalizeWhen

namespace Suppression

variable {record : Suppression}

theorem amount_of_contributes (hrules : ruleSet.rules = (MacroRecord.suppression record).expand)
    (hcommitted : (ruleSet.evaluate context).Contributes category contribution) :
    ∃ strength, record.Dominates context strength ∧
      contribution.amount = -record.weight.abs * strength ∧
      (0 < contribution.amount → strength < 0 ∧ record.threshold < 0) ∧
      (strength < 0 → ¬contribution.amount < 0) := by
  obtain ⟨_, hrule, haward⟩ := (ruleSet.contributes_evaluate_iff context).mp hcommitted
  rw [hrules, expand_eq_map_rule] at hrule
  obtain ⟨target, _, rfl⟩ := List.mem_map.mp hrule
  have hopens := (isSome_award?_rule.mp (Option.isSome_iff_exists.mpr ⟨_, haward⟩)).1
  obtain ⟨⟨strength, hlookup, habove⟩, _⟩ := opens_gate_iff.mp hopens
  obtain ⟨hamount, hgain, htaken⟩ :=
    Context.NumberAt.of_lookup (award?_rule haward).2.penalty hlookup
  refine ⟨strength, ⟨hlookup, habove⟩, hamount, fun hpos => ?_, htaken⟩
  exact ⟨hgain hpos, Number.neg_of_lt_of_neg habove (hgain hpos)⟩

end Suppression

/-- A penalty without a fact that scales it is no gain.  A penalty with one is a gain only where
    that fact is negative, and a suppression only where the strength is, so that the threshold is
    negative too.  Where they are negative, nothing is taken. -/
theorem MacroRecord.gains_need_negative_facts
    (hcommitted : (ruleSet.evaluate context).Contributes category contribution) :
    (∀ record : PenalizeWhen, ruleSet.rules = (penalizeWhen record).expand →
      match record.scaleBy with
      | none => contribution.amount = -record.amount.abs ∧ ¬0 < contribution.amount
      | some path => context.NumberAt ⟨path⟩ fun x =>
          contribution.amount = -record.amount.abs * x ∧
            (0 < contribution.amount → x < 0) ∧ (x < 0 → ¬contribution.amount < 0)) ∧
    ∀ record : Suppression, ruleSet.rules = (suppression record).expand →
      ∃ strength, record.Dominates context strength ∧
        contribution.amount = -record.weight.abs * strength ∧
        (0 < contribution.amount → strength < 0 ∧ record.threshold < 0) ∧
        (strength < 0 → ¬contribution.amount < 0) :=
  ⟨fun _ hrules => PenalizeWhen.amount_of_contributes hrules hcommitted,
    fun _ hrules => Suppression.amount_of_contributes hrules hcommitted⟩

/-- A penalty in proportion to a balance. -/
def balancePenalty : PenalizeWhen where
  id := "balance"
  when := .bool true
  categories := ["a"]
  amount := 3
  scaleBy := some "balance"

/-- A suppression from a balance that is above a negative threshold. -/
def balanceSuppression : Suppression where
  idStem := "balance"
  winner := "A"
  strengthPath := "balance"
  threshold := -3
  targets := ["B"]

def debtFacts : Context where
  root := .ofList [("balance", .number (-2))]

theorem contributes_debtFacts :
    (∃ contribution, ((MacroRecord.penalizeWhen balancePenalty).alone.evaluate
        debtFacts).Contributes "a" contribution ∧ contribution.amount = 6) ∧
      ∃ contribution, ((MacroRecord.suppression balanceSuppression).alone.evaluate
        debtFacts).Contributes "B" contribution ∧ contribution.amount = 2 := by
  have hsegments : (FactPath.mk "balance").segments = ["balance"] := by cbv
  have hlookup : debtFacts.lookup ⟨"balance"⟩ = some (.number (-2)) :=
    congrArg debtFacts.lookupAt hsegments
  constructor
  · have hamount : balancePenalty.spec.ComesTo .empty debtFacts 6 := by
      refine ⟨-2, ?_, rfl⟩
      rw [Bindings.fill_empty]
      exact hlookup
    have hmem : balancePenalty.rule ∈ (MacroRecord.penalizeWhen balancePenalty).expand := by
      rw [PenalizeWhen.expand_eq_rule]
      exact List.mem_singleton_self _
    obtain ⟨contribution, haward, hsix⟩ :=
      PenalizeWhen.exists_award?_rule rfl rfl hamount List.mem_cons_self
    exact ⟨contribution, (RuleSet.contributes_evaluate_iff ..).mpr ⟨_, hmem, haward⟩, hsix⟩
  · have hfill : (Bindings.empty.bind "winner" "A").fill "balance" = "balance" := by cbv
    have hstrength : balanceSuppression.strengthAt = ⟨"balance"⟩ := congrArg FactPath.mk hfill
    have hdominates : balanceSuppression.Dominates debtFacts (-2) :=
      ⟨hstrength ▸ hlookup, by decide⟩
    have hloses : balanceSuppression.Loses debtFacts "B" :=
      ⟨by decide, by decide, QualityGate.holds_empty ..⟩
    have hrules : (MacroRecord.suppression balanceSuppression).alone.rules =
        balanceSuppression.losers.map balanceSuppression.rule :=
      balanceSuppression.expand_eq_map_rule
    obtain ⟨explain, htally⟩ :=
      Suppression.get?_evaluate_of_loses hrules (by decide) hdominates hloses
    exact ⟨_, ⟨_, htally, List.mem_singleton_self _⟩, rfl⟩

/-- A penalty is a gain when it is scaled by a balance that is negative, and so is a suppression
    from such a balance. -/
theorem penalties_gain :
    ¬(∀ category contribution, ((MacroRecord.penalizeWhen balancePenalty).alone.evaluate
        debtFacts).Contributes category contribution → ¬0 < contribution.amount) ∧
      ¬∀ category contribution, ((MacroRecord.suppression balanceSuppression).alone.evaluate
        debtFacts).Contributes category contribution → ¬0 < contribution.amount := by
  obtain ⟨⟨penalty, hpenalty, hsix⟩, loss, hloss, htwo⟩ := contributes_debtFacts
  constructor
  · intro h
    exact h _ penalty hpenalty (hsix ▸ by decide)
  · intro h
    exact h _ loss hloss (htwo ▸ by decide)

/-- The gains come from the balance. -/
theorem gains_debtFacts :
    (∃ contribution, ((MacroRecord.penalizeWhen balancePenalty).alone.evaluate
        debtFacts).Contributes "a" contribution ∧
      debtFacts.NumberAt ⟨"balance"⟩ fun x =>
        contribution.amount = -(3 : Float).abs * x ∧ x < 0 ∧ ¬contribution.amount < 0) ∧
      ∃ contribution, ((MacroRecord.suppression balanceSuppression).alone.evaluate
        debtFacts).Contributes "B" contribution ∧
      ∃ strength, contribution.amount = -(1 : Float).abs * strength ∧ strength < 0 ∧
        ¬contribution.amount < 0 := by
  obtain ⟨⟨penalty, hpenalty, hsix⟩, loss, hloss, htwo⟩ := contributes_debtFacts
  constructor
  · obtain ⟨x, hlookup, hamount, hgain, htaken⟩ :=
      (MacroRecord.gains_need_negative_facts hpenalty).1 balancePenalty rfl
    have hx := hgain (hsix ▸ by decide)
    exact ⟨penalty, hpenalty, x, hlookup, hamount, hx, htaken hx⟩
  · obtain ⟨strength, _, hamount, hgain, htaken⟩ :=
      (MacroRecord.gains_need_negative_facts hloss).2 balanceSuppression rfl
    have hstrength := (hgain (htwo ▸ by decide)).1
    exact ⟨loss, hloss, strength, hamount, hstrength, htaken hstrength⟩

end FactScore
