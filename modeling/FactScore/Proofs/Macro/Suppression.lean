import FactScore.Proofs.Macro.Amounts
import FactScore.Proofs.Macro.Gate
import FactScore.Proofs.Scoring.Policies
import FactScore.Proofs.Spec.UniqueIds

/-!
# Suppression

A suppression has one rule for each target that is not the winner, and the rules are accepted just
when no such target is listed twice (`Suppression.accepted_iff`).  No rule fails: the gate of a
rule only opens when the strength is a number, and then the score is one too
(`Suppression.verdict_rule_of_opens`).  So what scoring the rules comes to can be told for each
category by itself (`Suppression.losses_of_accepted`).
-/

namespace FactScore

/-- What rules award that are made one for each target, and that score nothing but their target. -/
theorem awards_map {targets : List String} {rule : String → Rule} {context : Context}
    {category : String} (hnodup : targets.Nodup)
    (hothers : ∀ target, target ≠ category → (rule target).award? context category = none) :
    awards (targets.map rule) context category =
      if category ∈ targets then ((rule category).award? context category).toList else [] := by
  unfold awards
  induction targets with
  | nil => rfl
  | cons target targets ih =>
    obtain ⟨habsent, hrest⟩ := List.nodup_cons.mp hnodup
    rw [List.map_cons, List.filterMap_cons, ih hrest]
    by_cases htarget : target = category
    · subst htarget
      cases (rule target).award? context target <;> simp [habsent]
    · simp [hothers target htarget, Ne.symm htarget]

namespace Suppression

/-- What the path of the strength is filled with. -/
def winnerKeys (record : Suppression) : Bindings :=
  Bindings.empty.bind "winner" record.winner

/-- What the path of the quality facts and the explanation are filled with. -/
def keys (record : Suppression) (target : String) : Bindings :=
  record.winnerKeys.bind "target" target

/-- Where the strength of the winner is. -/
def strengthAt (record : Suppression) : FactPath :=
  ⟨record.winnerKeys.fill record.strengthPath⟩

/-- The winner has a strength above the threshold. -/
def Dominates (record : Suppression) (context : Context) (strength : Float) : Prop :=
  context.lookup record.strengthAt = some (.number strength) ∧ record.threshold < strength

/-- The gate that is declared for the rule of a target. -/
def gate (record : Suppression) (target : String) : DeclaredGate where
  quality := record.quality
  keys := [("winner", record.winner), ("target", target)]
  discriminator := some (.above record.strengthAt record.threshold)

/-- A category loses to a winner that dominates. -/
structure Loses (record : Suppression) (context : Context) (category : String) : Prop where
  listed : category ∈ record.targets
  ne_winner : category ≠ record.winner
  quality : record.quality.Holds context (record.gate category).qualityPath.segments

/-- The loss of a target. -/
def spec (record : Suppression) : ScoreSpec :=
  .penalty (.scaled record.weight record.strengthPath)

/-- The rule of a target. -/
def rule (record : Suppression) (target : String) : Rule :=
  Rule.explained .suppression {
    id := record.idStem ++ "." ++ target
    when := .all (record.quality.clauses (record.keys target) ++
      [.gt (.var record.strengthAt) (.number record.threshold)])
    score := Dict.insert .nil target (record.spec.toExpr record.winnerKeys)
    explain := (record.keys target).fill record.explain
    tags := record.tags }

variable {record : Suppression} {context : Context} {target category : String} {strength : Float}

theorem expand_eq_map_rule (record : Suppression) :
    (MacroRecord.suppression record).expand = record.losers.map record.rule := by
  rw [MacroRecord.expand_eq_map_explained, MacroRecord.bareRules, Suppression.expand, List.map_map]
  rfl

theorem mem_losers_iff :
    target ∈ record.losers ↔ target ∈ record.targets ∧ target ≠ record.winner := by
  simp [losers]

/-- The rules are accepted just when they are for different targets. -/
theorem accepted_iff {rules : List Rule} :
    compileRecords [.suppression record] = .ok rules ↔
      record.losers.Nodup ∧ rules = record.losers.map record.rule := by
  have hids : (record.losers.map record.rule).map Rule.id =
      record.losers.map (record.idStem ++ "." ++ ·) :=
    List.map_map
  have hinjective : Function.Injective (record.idStem ++ "." ++ ·) :=
    fun _ _ => (String.append_right_inj _).mp
  rw [compileRecords_eq_ok_iff, List.flatMap_singleton, expand_eq_map_rule, hids,
    firstRepeat?_eq_none_iff, List.nodup_map_iff hinjective]

theorem opens_gate_iff : (record.gate target).Opens context ↔
    (∃ strength, record.Dominates context strength) ∧
      record.quality.Holds context (record.gate target).qualityPath.segments := by
  constructor
  · intro h
    exact ⟨h.discriminator _ rfl, h.quality⟩
  · rintro ⟨hdominates, hquality⟩
    refine ⟨by simp [gate], hquality, ?_⟩
    rintro _ ⟨⟩
    exact hdominates

/-- The gate of a rule has a value, which is truthy just when the declared gate opens. -/
theorem tells_when_rule (record : Suppression) (target : String) (context : Context) :
    (record.rule target).when.Tells context ((record.gate target).Opens context) := by
  have hgoverns : (record.gate target).Governs context ((record.rule target).when.eval context) :=
    (record.gate target).governs_all (.above record.strengthAt record.threshold) rfl context
  exact hgoverns.exists_ok rfl

/-- A gate that opens tells that the strength is a number, and so is the score. -/
theorem verdict_rule_of_opens (h : (record.gate target).Opens context) :
    (record.rule target).verdict context = .fired := by
  obtain ⟨value, heval, htruthy⟩ := record.tells_when_rule target context
  refine Rule.verdict_eq_fired heval (htruthy.mpr h) ?_
  obtain ⟨⟨strength, hlookup, _⟩, _⟩ := opens_gate_iff.mp h
  have hnumber : ((record.spec.toExpr record.winnerKeys).number? context).isSome = true :=
    Option.isSome_iff_exists.mpr ⟨_, ScoreSpec.number?_toExpr.mpr ⟨strength, hlookup, rfl⟩⟩
  rintro entry hentry
  obtain rfl := List.mem_singleton.mp hentry
  exact hnumber

theorem verdict_rule_of_not_opens (h : ¬(record.gate target).Opens context) :
    (record.rule target).verdict context = .closed := by
  obtain ⟨value, heval, htruthy⟩ := record.tells_when_rule target context
  exact Rule.verdict_eq_closed heval (Bool.eq_false_iff.mpr (mt htruthy.mp h))

theorem diagnostic?_rule : (record.rule target).diagnostic? context = none := by
  unfold Rule.diagnostic?
  by_cases hopens : (record.gate target).Opens context
  · rw [verdict_rule_of_opens hopens]
  · rw [verdict_rule_of_not_opens hopens]

/-- A rule awards something to its own target, once its gate opens, and to nothing else. -/
theorem isSome_award?_rule : ((record.rule target).award? context category).isSome = true ↔
    (record.gate target).Opens context ∧ category = target := by
  have hscores : (record.rule target).score.contains category = true ↔ category = target := by
    change Entries.contains (Dict.insert .nil target _) category = true ↔ _
    rw [Dict.contains_insert]
    simp [Entries.contains]
  rw [Rule.award?_isSome_iff, hscores]
  refine and_congr_left fun _ => ?_
  by_cases hopens : (record.gate target).Opens context
  · simp [hopens, verdict_rule_of_opens]
  · simp [hopens, verdict_rule_of_not_opens]

/-- What a target loses. -/
theorem award?_rule {contribution : Contribution}
    (h : (record.rule target).award? context category = some contribution) :
    contribution.ruleId = record.idStem ++ "." ++ target ∧
      record.spec.ComesTo record.winnerKeys context contribution.amount := by
  have hsome := Option.isSome_iff_exists.mpr ⟨contribution, h⟩
  obtain ⟨_, rfl⟩ := isSome_award?_rule.mp hsome
  obtain ⟨hid, expr, hexpr, hnumber⟩ := Rule.score_of_award? h
  rw [rule, Rule.explained, Dict.find?_insert, if_pos rfl] at hexpr
  cases hexpr
  exact ⟨hid, ScoreSpec.number?_toExpr.mp hnumber⟩

section

variable {ruleSet : RuleSet} (hrules : ruleSet.rules = record.losers.map record.rule)

include hrules

/-- Nothing but the rule of a category counts for it. -/
theorem get?_evaluate (hnodup : record.losers.Nodup) (context : Context) (category : String) :
    (ruleSet.evaluate context).get? category =
      Tally.of? (if category ∈ record.losers then
        ((record.rule category).award? context category).toList else []) := by
  have hothers : ∀ target, target ≠ category →
      (record.rule target).award? context category = none := by
    intro target htarget
    rw [← Option.not_isSome_iff_eq_none, isSome_award?_rule]
    exact fun h => htarget h.2.symm
  rw [Scoreboard.get?, (ruleSet.accounts_evaluate context).find?_eq, hrules,
    awards_map hnodup hothers]

/-- A category that loses has its loss and nothing else. -/
theorem get?_evaluate_of_loses (hnodup : record.losers.Nodup)
    (hdominates : record.Dominates context strength) (hloses : record.Loses context category) :
    ∃ explain, (ruleSet.evaluate context).get? category = some (.ofContributions [{
      ruleId := record.idStem ++ "." ++ category
      amount := -record.weight.abs * strength
      explain := explain }]) := by
  have hlisted : category ∈ record.losers :=
    mem_losers_iff.mpr ⟨hloses.listed, hloses.ne_winner⟩
  have hopens : (record.gate category).Opens context :=
    opens_gate_iff.mpr ⟨⟨strength, hdominates⟩, hloses.quality⟩
  obtain ⟨contribution, haward⟩ :=
    Option.isSome_iff_exists.mp (isSome_award?_rule.mpr ⟨hopens, rfl⟩)
  obtain ⟨hid, hcomes⟩ := award?_rule haward
  have hnumber : context.NumberAt record.strengthAt
      (contribution.amount = -record.weight.abs * ·) := hcomes
  have hamount := hnumber.of_lookup hdominates.1
  refine ⟨contribution.explain, ?_⟩
  rw [get?_evaluate hrules hnodup, if_pos hlisted, haward, ← hid, ← hamount]
  rfl

/-- Only a category that loses to a winner that dominates has anything. -/
theorem get?_evaluate_eq_none (hnodup : record.losers.Nodup)
    (h : ∀ strength, record.Dominates context strength → ¬record.Loses context category) :
    (ruleSet.evaluate context).get? category = none := by
  rw [get?_evaluate hrules hnodup]
  split
  next hlisted =>
    have hnone : (record.rule category).award? context category = none := by
      rw [← Option.not_isSome_iff_eq_none, isSome_award?_rule, opens_gate_iff]
      rintro ⟨⟨⟨strength, hdominates⟩, hquality⟩, -⟩
      obtain ⟨htarget, hwinner⟩ := mem_losers_iff.mp hlisted
      exact h strength hdominates ⟨htarget, hwinner, hquality⟩
    rw [hnone]
    rfl
  next => rfl

theorem diagnostics_evaluate (context : Context) :
    (ruleSet.evaluate context).diagnostics = [] := by
  rw [(ruleSet.accounts_evaluate context).diagnostics_eq, hrules, List.filterMap_eq_nil_iff]
  exact List.forall_mem_map.mpr fun _ _ => diagnostic?_rule

end

/-- Scoring the rules of a suppression comes to scores under every configuration.  Nothing is
    noted, and the winner has nothing.  If the strength is a number above the threshold, the
    categories are the targets other than the winner whose quality facts are as required, and each
    has one contribution, which is the strength times the weight made negative.  Otherwise there is
    no category, whatever else the strength is. -/
theorem losses_of_accepted {ruleSet : RuleSet}
    (haccepted : compileRecords [.suppression record] = .ok ruleSet.rules) (context : Context) :
    let scores := ruleSet.evaluate context
    (∀ config, ruleSet.evaluateWith config context = .ok scores) ∧
    scores.diagnostics = [] ∧
    scores.get? record.winner = none ∧
    (∀ strength, record.Dominates context strength → ∀ category,
      (record.Loses context category →
        ∃ explain, scores.get? category = some (.ofContributions [{
          ruleId := record.idStem ++ "." ++ category
          amount := -record.weight.abs * strength
          explain := explain }])) ∧
      (¬record.Loses context category → scores.get? category = none)) ∧
    ((∀ strength, ¬record.Dominates context strength) → scores.categories = .nil) := by
  obtain ⟨hnodup, hrules⟩ := accepted_iff.mp haccepted
  have hnoted := diagnostics_evaluate hrules context
  refine ⟨ruleSet.evaluateWith_of_diagnostics_eq_nil context hnoted, hnoted, ?_, ?_, ?_⟩
  · exact get?_evaluate_eq_none hrules hnodup fun _ _ hloses => hloses.ne_winner rfl
  · intro strength hdominates category
    refine ⟨get?_evaluate_of_loses hrules hnodup hdominates, fun hloses => ?_⟩
    exact get?_evaluate_eq_none hrules hnodup fun _ _ => hloses
  · intro hnone
    refine Dict.ext fun category => ?_
    exact get?_evaluate_eq_none hrules hnodup fun strength hdominates =>
      absurd hdominates (hnone strength)

end Suppression

/-- A suppression that lists the winner among its targets, and that spares what is broken. -/
def dominance : Suppression where
  idStem := "suppress"
  winner := "A"
  threshold := 0.5
  targets := ["C", "A", "B"]
  weight := 4
  quality := { path := some "patterns.{target}", forbidBroken := true }

def dominanceRules : RuleSet :=
  (MacroRecord.suppression dominance).alone

def dominanceFacts : Context where
  root := .ofList [("patterns", .map (Dict.ofList [
    ("A", .map (Dict.ofList [("strength", .number 0.75)])),
    ("B", .map (Dict.ofList [("broken", .bool false)])),
    ("C", .map (Dict.ofList [("broken", .bool true)]))]))]

theorem lookup_dominanceFacts :
    dominanceFacts.lookup dominance.strengthAt = some (.number 0.75) ∧
      dominanceFacts.lookupAt ((dominance.gate "B").qualityPath.segments ++ ["broken"]) =
        some (.bool false) ∧
      dominanceFacts.lookupAt ((dominance.gate "C").qualityPath.segments ++ ["broken"]) =
        some (.bool true) := by
  let winner := Bindings.empty.bind "winner" "A"
  have hstrength : (FactPath.mk (winner.fill "patterns.{winner}.strength")).segments =
      ["patterns", "A", "strength"] := by cbv
  have hwhole : (FactPath.filled [("winner", "A"), ("target", "B")]
      "patterns.{target}").segments ++ ["broken"] = ["patterns", "B", "broken"] := by cbv
  have hbroken : (FactPath.filled [("winner", "A"), ("target", "C")]
      "patterns.{target}").segments ++ ["broken"] = ["patterns", "C", "broken"] := by cbv
  exact ⟨congrArg dominanceFacts.lookupAt hstrength, congrArg dominanceFacts.lookupAt hwhole,
    congrArg dominanceFacts.lookupAt hbroken⟩

/-- The strength of `A` takes three from `B`, and nothing from `C`, which is broken. -/
theorem losses_dominance :
    let scores := dominanceRules.evaluate dominanceFacts
    scores.diagnostics = [] ∧ scores.get? "A" = none ∧ scores.get? "C" = none ∧
      ∃ explain, scores.get? "B" = some (.ofContributions [⟨"suppress.B", -3, explain⟩]) := by
  have haccepted : compileRecords [.suppression dominance] = .ok dominanceRules.rules :=
    Suppression.accepted_iff.mpr ⟨by decide, dominance.expand_eq_map_rule⟩
  obtain ⟨_, hnoted, hwinner, hlosses, _⟩ :=
    Suppression.losses_of_accepted haccepted dominanceFacts
  obtain ⟨hstrength, hwhole, hbroken⟩ := lookup_dominanceFacts
  have hdominates : dominance.Dominates dominanceFacts 0.75 := ⟨hstrength, by decide⟩
  refine ⟨hnoted, hwinner, (hlosses _ hdominates "C").2 fun hloses => ?_, ?_⟩
  · have hwhole := hloses.quality.unbroken rfl
    rw [hbroken] at hwhole
    cases hwhole
  · have hquality : dominance.quality.Holds dominanceFacts
        (dominance.gate "B").qualityPath.segments := by
      constructor
      case unbroken => exact fun _ => hwhole
      all_goals simp [dominance]
    exact (hlosses _ hdominates "B").1 ⟨by decide, by decide, hquality⟩

end FactScore
