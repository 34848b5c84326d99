import FactScore.Proofs.Scoring.Verdict

/-!
# Accounts of rules

A scoreboard accounts for some rules when each of its tallies is made up of what the rules award
to the category, in their order, and its diagnostics are those of the rules
(`Scoreboard.Accounts`).  Scoring keeps this from rule to rule, and so what it comes to is the sum
of the verdicts (`RuleSet.evaluate_accounts`).
-/

namespace FactScore

/-- What some rules award to a category, in their order. -/
def awards (rules : List Rule) (context : Context) (category : String) : List Contribution :=
  rules.filterMap fun rule => rule.award? context category

namespace Tally

/-- The tally of some contributions: their amounts are added up from the left, starting at zero. -/
def ofContributions (contributions : List Contribution) : Tally where
  total := (contributions.map Contribution.amount).foldl (· + ·) 0
  contributions := contributions

theorem ofContributions_concat (contributions : List Contribution) (last : Contribution) :
    ofContributions (contributions ++ [last]) = (ofContributions contributions).add last := by
  simp [ofContributions, add]

/-- The tally of some contributions, if there are any. -/
def of? : List Contribution → Option Tally
  | [] => none
  | contributions => some (ofContributions contributions)

theorem of?_getD (contributions : List Contribution) :
    (of? contributions).getD {} = ofContributions contributions := by
  cases contributions <;> rfl

theorem of?_concat (contributions : List Contribution) (last : Contribution) :
    of? (contributions ++ [last]) = some (((of? contributions).getD {}).add last) := by
  rw [of?_getD, ← ofContributions_concat]
  cases contributions <;> rfl

theorem of?_eq_some_iff {contributions : List Contribution} {tally : Tally} :
    of? contributions = some tally ↔
      contributions ≠ [] ∧ tally = ofContributions contributions := by
  cases contributions with
  | nil => simp [of?]
  | cons first rest => simp [of?, eq_comm]

end Tally

namespace Scoreboard

/-- A contribution is one of those that a category has. -/
def Contributes (scores : Scoreboard) (category : String) (contribution : Contribution) : Prop :=
  ∃ tally, scores.get? category = some tally ∧ contribution ∈ tally.contributions

/-- The scores are those of some rules, as far as they have been scored. -/
structure Accounts (rules : List Rule) (context : Context) (scores : Scoreboard) : Prop where
  find?_eq : ∀ category, scores.categories.find? category =
    Tally.of? (awards rules context category)
  diagnostics_eq : scores.diagnostics = rules.filterMap fun rule => rule.diagnostic? context

section

variable {rules rest : List Rule} {rule : Rule} {context : Context} {scores scores' : Scoreboard}

theorem diagnostics_addAll (amounts : List (String × Float)) :
    (scores.addAll rule context amounts).diagnostics = scores.diagnostics := by
  unfold addAll
  induction amounts generalizing scores with
  | nil => rfl
  | cons amount amounts ih =>
    rw [List.foldl_cons, ih]
    rfl

/-- Each category gets the amount that its expression is, and no other category changes. -/
theorem find?_addAll {bound : Option String} (entries : Entries Expr bound)
    (scores : Scoreboard) (category : String) :
    (scores.addAll rule context (Rule.numbers context entries.toList)).categories.find? category =
      match (entries.find? category).bind (Expr.number? context) with
      | none => scores.categories.find? category
      | some amount => some (((scores.categories.find? category).getD {}).add
          (rule.contribution category amount context)) := by
  induction entries generalizing scores with
  | nil => rfl
  | cons key above expr rest ih =>
    have habsent : category = key → rest.find? category = none := fun heq =>
      heq ▸ Entries.find?_eq_none_of_le rest (Std.le_refl key)
    rw [Entries.find?_cons, Entries.toList, Rule.numbers, List.filterMap_cons]
    cases hnumber : expr.number? context with
    | none =>
      refine (ih scores).trans ?_
      by_cases hkey : category = key
      · have hnone := habsent hkey
        subst hkey
        simp [hnone, hnumber]
      · simp [hkey]
    | some amount =>
      refine (ih (scores.add key (rule.contribution key amount context))).trans ?_
      by_cases hkey : category = key
      · have hnone := habsent hkey
        subst hkey
        simp [hnone, hnumber, add]
      · simp [hkey, add]

/-- A rule awards the contribution that its score expression calls for. -/
theorem award?_of_fired (h : rule.verdict context = .fired) (category : String) :
    rule.award? context category =
      ((rule.score.find? category).bind (Expr.number? context)).map fun amount =>
        rule.contribution category amount context := by
  simp only [Rule.award?, h, Rule.contribution, Rule.explanationText_eq_wording]

theorem awards_concat (category : String) :
    awards (rules ++ [rule]) context category =
      awards rules context category ++ (rule.award? context category).toList := by
  unfold awards
  rw [List.filterMap_append, List.filterMap_cons, List.filterMap_nil]
  cases rule.award? context category <;> rfl

namespace Accounts

theorem empty (context : Context) : Accounts [] context {} :=
  ⟨fun _ => rfl, rfl⟩

/-- A rule with a closed gate changes nothing. -/
theorem closed (h : Accounts rules context scores) (hverdict : rule.verdict context = .closed) :
    Accounts (rules ++ [rule]) context scores where
  find?_eq := by
    intro category
    rw [awards_concat, h.find?_eq]
    simp [Rule.award?, hverdict]
  diagnostics_eq := by
    rw [h.diagnostics_eq]
    simp [Rule.diagnostic?, hverdict]

/-- A rule that fails leaves nothing but its diagnostic. -/
theorem failed {error : ScoreError} (h : Accounts rules context scores)
    (hverdict : rule.verdict context = .failed error) :
    Accounts (rules ++ [rule]) context (noteSkipped rule error scores) where
  find?_eq := by
    intro category
    rw [awards_concat, noteSkipped, skip, h.find?_eq]
    simp [Rule.award?, hverdict]
  diagnostics_eq := by
    rw [noteSkipped, skip, h.diagnostics_eq]
    simp [Rule.diagnostic?, hverdict]

/-- A rule that fires is added as a whole. -/
theorem fired (h : Accounts rules context scores) (hverdict : rule.verdict context = .fired) :
    Accounts (rules ++ [rule]) context
      (scores.addAll rule context (Rule.numbers context rule.score.toList)) where
  find?_eq := by
    intro category
    rw [awards_concat, award?_of_fired hverdict, find?_addAll, h.find?_eq]
    cases (rule.score.find? category).bind (Expr.number? context) with
    | none => simp
    | some amount => simp [Tally.of?_concat]
  diagnostics_eq := by
    rw [diagnostics_addAll, h.diagnostics_eq]
    simp [Rule.diagnostic?, hverdict]

end Accounts

/-- Scoring some more rules, leaving out those that fail, accounts for them too. -/
theorem Accounts.scoreRules {ε : Type} {onFailure : Rule → ScoreError → Scoreboard →
      Except ε Scoreboard}
    (hskip : ∀ rule error scores, onFailure rule error scores = .ok (noteSkipped rule error scores))
    (h : Accounts rules context scores) :
    ∃ scores', FactScore.scoreRules context onFailure scores rest = .ok scores' ∧
      Accounts (rules ++ rest) context scores' := by
  induction rest generalizing rules scores with
  | nil => exact ⟨scores, rfl, by simpa using h⟩
  | cons rule rest ih =>
    -- whatever the verdict is, the rule leaves scores that account for it
    have hstep : ∀ {scores₁}, Accounts (rules ++ [rule]) context scores₁ →
        ∃ scores', FactScore.scoreRules context onFailure scores₁ rest = .ok scores' ∧
          Accounts (rules ++ rule :: rest) context scores' := by
      intro scores₁ hscores₁
      obtain ⟨scores', hok, haccounts⟩ := ih hscores₁
      rw [List.append_assoc] at haccounts
      exact ⟨scores', hok, haccounts⟩
    unfold FactScore.scoreRules
    rw [Rule.outcome_eq]
    cases hverdict : rule.verdict context with
    | closed => exact hstep (h.closed hverdict)
    | failed error =>
      simp only [hskip]
      exact hstep (h.failed hverdict)
    | fired => exact hstep (h.fired hverdict)

/-- The categories depend only on what is awarded to them. -/
theorem Accounts.categories_eq {rules' : List Rule} (h : Accounts rules context scores)
    (h' : Accounts rules' context scores')
    (hawards : ∀ category, awards rules' context category = awards rules context category) :
    scores'.categories = scores.categories :=
  Dict.ext fun category => by rw [h'.find?_eq, h.find?_eq, hawards]

end

end Scoreboard

section

variable {rules : List Rule} {context : Context} {category : String}

/-- Something is awarded to a category just when a rule that scores it fires. -/
theorem awards_ne_nil_iff : awards rules context category ≠ [] ↔
    ∃ rule ∈ rules, rule.verdict context = .fired ∧ rule.score.contains category = true := by
  simp only [awards, Ne, List.filterMap_eq_nil_iff, ← Rule.award?_isSome_iff,
    Option.isSome_iff_ne_none, Ne, Classical.not_forall, exists_prop]

theorem awards_filter_not_failed :
    awards (rules.filter fun rule => !(rule.verdict context).isFailed) context category =
      awards rules context category := by
  unfold awards
  rw [List.filterMap_filter]
  congr 1
  funext rule
  cases hverdict : rule.verdict context <;> simp [Rule.award?, hverdict, Verdict.isFailed]

end

namespace RuleSet

/-- The rules that do not fail. -/
def withoutFailed (ruleSet : RuleSet) (context : Context) : RuleSet :=
  { ruleSet with rules := ruleSet.rules.filter fun rule => !(rule.verdict context).isFailed }

variable (ruleSet : RuleSet) (context : Context)

theorem accounts_evaluate : (ruleSet.evaluate context).Accounts ruleSet.rules context := by
  have hscored : ∃ scores, scoreRules context
      (fun rule error scores => (.ok (noteSkipped rule error scores) : Except Empty Scoreboard))
      {} ruleSet.rules = .ok scores ∧ scores.Accounts ruleSet.rules context :=
    (Scoreboard.Accounts.empty context).scoreRules fun _ _ _ => rfl
  obtain ⟨scores, hok, haccounts⟩ := hscored
  rw [scoreRules_eq_evaluate] at hok
  cases hok
  exact haccounts

/-- What a category holds after scoring is what the rules award to it. -/
theorem contributes_evaluate_iff {category : String} {contribution : Contribution} :
    (ruleSet.evaluate context).Contributes category contribution ↔
      ∃ rule ∈ ruleSet.rules, rule.award? context category = some contribution := by
  have hfind := (ruleSet.accounts_evaluate context).find?_eq category
  rw [← List.mem_filterMap]
  change _ ↔ contribution ∈ awards ruleSet.rules context category
  unfold Scoreboard.Contributes Scoreboard.get?
  rw [hfind]
  cases awards ruleSet.rules context category <;> simp [Tally.of?, Tally.ofContributions]

theorem evaluate_withoutFailed : (ruleSet.withoutFailed context).evaluate context =
    { ruleSet.evaluate context with diagnostics := [] } := by
  have haccounts := ruleSet.accounts_evaluate context
  have haccounts' := (ruleSet.withoutFailed context).accounts_evaluate context
  have hcategories := haccounts.categories_eq haccounts' fun category => awards_filter_not_failed
  have hdiagnostics : ((ruleSet.withoutFailed context).evaluate context).diagnostics = [] := by
    rw [haccounts'.diagnostics_eq, List.filterMap_eq_nil_iff]
    intro rule hmem
    obtain ⟨_, hverdict⟩ := List.mem_filter.mp hmem
    cases h : rule.verdict context <;> simp_all [Rule.diagnostic?, Verdict.isFailed]
  cases h : (ruleSet.withoutFailed context).evaluate context
  rw [h] at hcategories hdiagnostics
  subst hcategories hdiagnostics
  rfl

/-- Scoring comes to the sum of the verdicts.  The categories are those that a rule scored that
    fired.  A category has the contributions that the rules award to it, in their order, and their
    sum from the left, starting at zero.  A rule awards one contribution to each category it
    scores if it fires, and none at all otherwise.  Each rule that failed is noted, in order.
    Without the rules that failed, the categories are the same and nothing is noted. -/
theorem evaluate_eq_verdicts :
    (∀ category, (ruleSet.evaluate context).categories.contains category = true ↔
      ∃ rule ∈ ruleSet.rules,
        rule.verdict context = .fired ∧ rule.score.contains category = true) ∧
    (∀ category tally, (ruleSet.evaluate context).categories.find? category = some tally →
      tally.contributions = ruleSet.rules.filterMap (fun rule => rule.award? context category) ∧
      tally.total = (tally.contributions.map Contribution.amount).foldl (· + ·) 0) ∧
    (∀ rule ∈ ruleSet.rules, ∀ category, (rule.award? context category).isSome = true ↔
      rule.verdict context = .fired ∧ rule.score.contains category = true) ∧
    (ruleSet.evaluate context).diagnostics =
      ruleSet.rules.filterMap (fun rule => rule.diagnostic? context) ∧
    (ruleSet.withoutFailed context).evaluate context =
      { ruleSet.evaluate context with diagnostics := [] } := by
  have haccounts := ruleSet.accounts_evaluate context
  refine ⟨fun category => ?_, fun category tally htally => ?_,
    fun rule _ category => Rule.award?_isSome_iff, haccounts.diagnostics_eq,
    ruleSet.evaluate_withoutFailed context⟩
  · rw [← awards_ne_nil_iff, Entries.contains, haccounts.find?_eq]
    cases awards ruleSet.rules context category <;> simp [Tally.of?]
  · rw [haccounts.find?_eq, Tally.of?_eq_some_iff] at htally
    obtain ⟨_, rfl⟩ := htally
    exact ⟨rfl, rfl⟩

end RuleSet

/-- A rule that fires. -/
def goodRule : Rule where
  id := "good"
  when := .lit (.bool true)
  score := .ofList [("a", .lit (.number 1))]
  explain := "\x7brule_id\x7d: \x7bamount\x7d for \x7bcategory\x7d, as \x7b=owner\x7d wants"

/-- A rule that fails, but only at its second category. -/
def badRule : Rule where
  id := "bad"
  when := .lit (.bool true)
  score := .ofList [("a", .lit (.number 100)), ("b", .lit (.text "x"))]

def failingRules : RuleSet where
  id := "failing"
  version := "1"
  rules := [goodRule, badRule]

/-- A context with the fact that the explanation of the good rule mentions. -/
def ownedContext : Context :=
  Context.empty.set ⟨"owner"⟩ (.text "ada")

theorem award?_goodRule : goodRule.award? ownedContext "a" =
    some ⟨"good", 1, "good: 1 for a, as ada wants"⟩ := by
  have hexplain : Template.fill (goodRule.wording ownedContext "a" 1) goodRule.explain =
      "good: 1 for a, as ada wants" := by decide +kernel
  rw [← hexplain]
  rfl

/-- The rule that fails leaves a diagnostic, and nothing to the category that it got to first. -/
theorem evaluate_failingRules :
    ∃ tally, (failingRules.evaluate ownedContext).categories.find? "a" = some tally ∧
      tally.contributions = [⟨"good", 1, "good: 1 for a, as ada wants"⟩] ∧
      tally.total = 1 ∧
      (failingRules.evaluate ownedContext).categories.contains "b" = false ∧
      (failingRules.evaluate ownedContext).diagnostics =
        [⟨"bad", "rule 'bad' scored text for 'b', expected a number"⟩] := by
  obtain ⟨hkeys, htallies, _, hdiagnostics, _⟩ := failingRules.evaluate_eq_verdicts ownedContext
  have hfired : goodRule.verdict ownedContext = .fired := rfl
  have hscores : goodRule.score.contains "a" = true := rfl
  have hcontains := (hkeys "a").mpr ⟨goodRule, List.mem_cons_self, hfired, hscores⟩
  obtain ⟨tally, htally⟩ := Option.isSome_iff_exists.mp hcontains
  obtain ⟨hcontributions, htotal⟩ := htallies "a" tally htally
  have hawarded : tally.contributions = [⟨"good", 1, "good: 1 for a, as ada wants"⟩] := by
    rw [hcontributions, ← Option.toList_some, ← award?_goodRule]
    rfl
  refine ⟨tally, htally, hawarded, ?_, ?_, ?_⟩
  · rw [htotal, hawarded]
    rfl
  · refine Bool.eq_false_iff.mpr fun hcontains => ?_
    obtain ⟨rule, hrule, hfired, hscores⟩ := (hkeys "b").mp hcontains
    have hnone : ∀ rule ∈ failingRules.rules, rule.verdict ownedContext = .fired →
        rule.score.contains "b" = false := by decide
    rw [hnone rule hrule hfired] at hscores
    cases hscores
  · rw [hdiagnostics]
    rfl

end FactScore
