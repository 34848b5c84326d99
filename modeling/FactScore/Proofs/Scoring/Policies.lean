import FactScore.Proofs.Scoring.Accounts

/-!
# Error policies

Scoring under a configuration either leaves out the rules that fail or stops at the first of them.
Leaving them out is scoring without a configuration (`RuleSet.evaluateWith_skip`).  Stopping comes
to the same scores when no rule fails, and otherwise to the first failure, which is also the first
that is noted when the rules are left out (`RuleSet.evaluateWith_abort`,
`RuleSet.head?_diagnostics`).
-/

namespace FactScore

variable {context : Context}

/-- The note that is made of a failure. -/
def ScoreError.diagnostic (error : ScoreError) : Diagnostic where
  ruleId := error.ruleId
  message := error.message

namespace Rule

/-- Why a rule cannot be scored, if it cannot. -/
def failure? (rule : Rule) (context : Context) : Option ScoreError :=
  match rule.outcome context with
  | .error error => some error
  | .ok _ => none

variable {rule : Rule} {error : ScoreError}

theorem failure?_eq_some_iff :
    rule.failure? context = some error ↔ rule.outcome context = .error error := by
  unfold failure?
  cases rule.outcome context <;> simp

theorem failure?_eq_none_iff :
    rule.failure? context = none ↔ ∃ amounts, rule.outcome context = .ok amounts := by
  unfold failure?
  cases rule.outcome context <;> simp

/-- The reason why a score expression is no number names the rule. -/
theorem ruleId_of_scoreFailure? {ruleId : String} {entry : String × Expr}
    (h : scoreFailure? ruleId context entry = some error) : error.ruleId = ruleId := by
  unfold scoreFailure? at h
  split at h
  next =>
    cases h
    rfl
  next => cases h
  next =>
    cases h
    rfl

theorem ruleId_of_failed (h : rule.verdict context = .failed error) : error.ruleId = rule.id := by
  unfold verdict at h
  split at h
  next =>
    cases h
    rfl
  next gate _ =>
    split at h
    next =>
      split at h
      next error' hfirst =>
        cases h
        obtain ⟨entry, _, hentry⟩ := List.exists_of_findSome?_eq_some hfirst
        exact ruleId_of_scoreFailure? hentry
      next => cases h
    next => cases h

/-- A rule is noted just when it fails, and the failure has all that is noted. -/
theorem diagnostic?_eq (rule : Rule) (context : Context) :
    rule.diagnostic? context = (rule.failure? context).map ScoreError.diagnostic := by
  unfold diagnostic? failure?
  rw [outcome_eq]
  cases hverdict : rule.verdict context with
  | closed => rfl
  | failed error =>
    rw [← ruleId_of_failed hverdict]
    rfl
  | fired => rfl

/-- A failure names the rule that fails. -/
theorem ruleId_of_outcome (h : rule.outcome context = .error error) : error.ruleId = rule.id := by
  rw [outcome_eq] at h
  split at h
  next => cases h
  next error' hverdict =>
    cases h
    exact ruleId_of_failed hverdict
  next => cases h

end Rule

/-- The scores after one more rule, which is left out and noted if it fails. -/
def Scoreboard.score (context : Context) (scores : Scoreboard) (rule : Rule) : Scoreboard :=
  match rule.outcome context with
  | .ok none => scores
  | .ok (some amounts) => scores.addAll rule context amounts
  | .error error => noteSkipped rule error scores

section

variable {ε : Type} {rules : List Rule}

/-- A policy that leaves out the rules that fail scores one rule after another. -/
theorem scoreRules_of_skipping {onFailure : Rule → ScoreError → Scoreboard → Except ε Scoreboard}
    (hskip : ∀ rule error scores, onFailure rule error scores = .ok (noteSkipped rule error scores))
    (scores : Scoreboard) :
    scoreRules context onFailure scores rules =
      .ok (rules.foldl (Scoreboard.score context) scores) := by
  induction rules generalizing scores with
  | nil => rfl
  | cons rule rest ih =>
    rw [List.foldl_cons, ← ih, scoreRules, Scoreboard.score]
    cases rule.outcome context with
    | error error =>
      simp only [hskip]
      rfl
    | ok amounts => cases amounts <;> rfl

/-- A policy that stops at a failure does the same up to the first rule that fails. -/
theorem scoreRules_of_aborting
    {onFailure : Rule → ScoreError → Scoreboard → Except ScoreError Scoreboard}
    (habort : ∀ rule error scores, onFailure rule error scores = .error error)
    (scores : Scoreboard) :
    scoreRules context onFailure scores rules =
      match rules.findSome? (Rule.failure? · context) with
      | some error => .error error
      | none => .ok (rules.foldl (Scoreboard.score context) scores) := by
  induction rules generalizing scores with
  | nil => rfl
  | cons rule rest ih =>
    rw [List.findSome?_cons, List.foldl_cons, Rule.failure?, scoreRules, Scoreboard.score]
    cases rule.outcome context with
    | error error =>
      simp only [habort]
      rfl
    | ok amounts =>
      cases amounts with
      | none => exact ih scores
      | some amounts => exact ih (scores.addAll rule context amounts)

end

namespace RuleSet

/-- The failure of the first rule that fails. -/
def firstFailure? (ruleSet : RuleSet) (context : Context) : Option ScoreError :=
  ruleSet.rules.findSome? (Rule.failure? · context)

variable (ruleSet : RuleSet) (context : Context)

theorem evaluate_eq_foldl :
    ruleSet.evaluate context = ruleSet.rules.foldl (Scoreboard.score context) {} := by
  have hscored := ruleSet.scoreRules_eq_evaluate context
  rw [scoreRules_of_skipping fun _ _ _ => rfl] at hscored
  exact (Except.ok.inj hscored).symm

theorem evaluateWith_skip :
    ruleSet.evaluateWith { errorPolicy := .skip } context = .ok (ruleSet.evaluate context) := by
  rw [evaluateWith, scoreRules_of_skipping fun _ _ _ => rfl, evaluate_eq_foldl]

theorem evaluateWith_abort :
    ruleSet.evaluateWith { errorPolicy := .abort } context =
      match ruleSet.firstFailure? context with
      | some error => .error error
      | none => .ok (ruleSet.evaluate context) := by
  rw [evaluateWith, scoreRules_of_aborting fun _ _ _ => rfl, evaluate_eq_foldl, firstFailure?]

theorem head?_diagnostics :
    (ruleSet.evaluate context).diagnostics.head? =
      (ruleSet.firstFailure? context).map ScoreError.diagnostic := by
  rw [(ruleSet.accounts_evaluate context).diagnostics_eq, List.head?_filterMap, firstFailure?,
    List.map_findSome?]
  simp only [Rule.diagnostic?_eq]
  rfl

/-- The first failure tells the rules apart into those before it, which do not fail, the one that
    fails, and the others. -/
theorem firstFailure?_eq_some_iff {error : ScoreError} :
    ruleSet.firstFailure? context = some error ↔
      ∃ before rule after, ruleSet.rules = before ++ rule :: after ∧
        (∀ earlier ∈ before, ∃ amounts, earlier.outcome context = .ok amounts) ∧
        rule.outcome context = .error error := by
  simp only [firstFailure?, List.findSome?_eq_some_iff, Rule.failure?_eq_some_iff,
    Rule.failure?_eq_none_iff]
  constructor
  · rintro ⟨before, rule, after, hrules, hfails, hbefore⟩
    exact ⟨before, rule, after, hrules, hbefore, hfails⟩
  · rintro ⟨before, rule, after, hrules, hbefore, hfails⟩
    exact ⟨before, rule, after, hrules, hfails, hbefore⟩

theorem diagnostics_eq_nil_iff :
    (ruleSet.evaluate context).diagnostics = [] ↔ ruleSet.firstFailure? context = none := by
  rw [← List.head?_eq_none_iff, head?_diagnostics, Option.map_eq_none_iff]

/-- Where nothing is noted, the configuration makes no difference. -/
theorem evaluateWith_of_diagnostics_eq_nil
    (h : (ruleSet.evaluate context).diagnostics = []) (config : ScoringConfig) :
    ruleSet.evaluateWith config context = .ok (ruleSet.evaluate context) := by
  obtain ⟨_ | _⟩ := config
  · exact ruleSet.evaluateWith_skip context
  · rw [evaluateWith_abort, (ruleSet.diagnostics_eq_nil_iff context).mp h]

/-- Leaving out the rules that fail is scoring without a configuration.  Stopping gives scores
    just when nothing is noted that way, and then the same ones.  It ends with an error just when
    some rule fails that no rule before it does, and then with the failure of that rule.  That
    failure names the rule, it is what is noted first when the rules are left out, and whatever
    rules come later make no difference. -/
theorem policies_agree :
    ruleSet.evaluateWith { errorPolicy := .skip } context = .ok (ruleSet.evaluate context) ∧
    (∀ scores, ruleSet.evaluateWith { errorPolicy := .abort } context = .ok scores ↔
      (ruleSet.evaluate context).diagnostics = [] ∧ scores = ruleSet.evaluate context) ∧
    (∀ error, ruleSet.evaluateWith { errorPolicy := .abort } context = .error error ↔
      ∃ before rule after, ruleSet.rules = before ++ rule :: after ∧
        (∀ earlier ∈ before, ∃ amounts, earlier.outcome context = .ok amounts) ∧
        rule.outcome context = .error error) ∧
    (∀ before rule after error, ruleSet.rules = before ++ rule :: after →
      (∀ earlier ∈ before, ∃ amounts, earlier.outcome context = .ok amounts) →
      rule.outcome context = .error error →
      error.ruleId = rule.id ∧
      (ruleSet.evaluate context).diagnostics.head? =
        some { ruleId := rule.id, message := error.message } ∧
      ∀ later, { ruleSet with rules := before ++ rule :: later }.evaluateWith
        { errorPolicy := .abort } context = .error error) := by
  refine ⟨ruleSet.evaluateWith_skip context, fun scores => ?_, fun error => ?_, ?_⟩
  · rw [evaluateWith_abort, diagnostics_eq_nil_iff]
    cases ruleSet.firstFailure? context with
    | some error => simp
    | none => simp [eq_comm]
  · rw [evaluateWith_abort, ← firstFailure?_eq_some_iff]
    cases ruleSet.firstFailure? context with
    | some error' => simp
    | none => simp
  · intro before rule after error hrules hbefore hfails
    have hid := Rule.ruleId_of_outcome hfails
    refine ⟨hid, ?_, fun later => ?_⟩
    · have hfirst := (ruleSet.firstFailure?_eq_some_iff context).mpr
        ⟨before, rule, after, hrules, hbefore, hfails⟩
      rw [head?_diagnostics, hfirst, Option.map_some, ScoreError.diagnostic, hid]
    · have hfirst := (firstFailure?_eq_some_iff
        { ruleSet with rules := before ++ rule :: later } context).mpr
        ⟨before, rule, later, rfl, hbefore, hfails⟩
      rw [evaluateWith_abort, hfirst]

end RuleSet

/-- Of the two rules the second one fails, and stopping ends with its failure. -/
theorem policies_failingRules :
    ∃ error, failingRules.evaluateWith { errorPolicy := .abort } .empty = .error error ∧
      error.ruleId = "bad" ∧
      (failingRules.evaluate .empty).diagnostics.head? = some ⟨"bad", error.message⟩ := by
  obtain ⟨_, _, habort, hfirst⟩ := failingRules.policies_agree .empty
  have hgood : ∀ earlier ∈ [goodRule], ∃ amounts, earlier.outcome .empty = .ok amounts :=
    List.forall_mem_singleton.mpr ⟨_, rfl⟩
  have hbad : badRule.outcome .empty = .error (.nonNumeric "bad" "b" "text") := rfl
  obtain ⟨hid, hnoted, _⟩ := hfirst [goodRule] badRule [] _ rfl hgood hbad
  exact ⟨_, (habort _).mpr ⟨[goodRule], badRule, [], rfl, hgood, hbad⟩, hid, hnoted⟩

end FactScore
