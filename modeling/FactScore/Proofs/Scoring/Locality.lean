import FactScore.Proofs.Scoring.Verdict

/-!
# Locality of scoring

Scoring reads a context at the paths that the expressions of the rules refer to, and explanations
at the paths that their placeholders mention, and nowhere else (`RuleSet.evaluate_local`).  That
explanations are all that the mentioned paths have to do with is seen by taking them out: scoring
rules without explanations comes to the scores without explanations (`scoreRules_unexplained`).
-/

namespace FactScore

variable {context context' : Context}

namespace Context

/-- Two contexts read the same value at each of some paths. -/
def AgreeOn (context context' : Context) (paths : List String) : Prop :=
  ∀ path ∈ paths, context.get ⟨path⟩ = context'.get ⟨path⟩

/-- What a fact is shown as only depends on what is read at its path. -/
theorem filter_lookup (context : Context) (path : FactPath) :
    (context.lookup path).filter (fun value => !value.isMissing) =
      (some (context.get path)).filter fun value => !value.isMissing := by
  unfold get
  cases context.lookup path <;> rfl

end Context

namespace Expr

mutual

/-- The value of an expression only depends on the facts that it refers to. -/
theorem eval_congr (e : Expr) (h : ∀ path ∈ e.references, context.get path = context'.get path) :
    e.eval context = e.eval context' := by
  cases e with
  | lit value => rfl
  | var path => exact congrArg Except.ok (h path List.mem_cons_self)
  | apply op args => exact congrArg op.applyTo (evalAll_congr args h)

theorem evalAll_congr (args : List Expr)
    (h : ∀ path ∈ referencesOf args, context.get path = context'.get path) :
    evalAll context args = evalAll context' args := by
  cases args with
  | nil => rfl
  | cons arg rest =>
    have harg := eval_congr arg fun path hpath => h path (List.mem_append_left _ hpath)
    have hrest := evalAll_congr rest fun path hpath => h path (List.mem_append_right _ hpath)
    rw [evalAll, evalAll, harg, hrest]

end

end Expr

namespace Template

/-- A template only asks for the names of its placeholders. -/
theorem fill_congr {lookup lookup' : String → Option String} {template : String}
    (h : ∀ name ∈ names template, lookup name = lookup' name) :
    fill lookup template = fill lookup' template := by
  have hpieces : ∀ piece ∈ pieces template.toList, piece.fill lookup = piece.fill lookup' := by
    intro piece hpiece
    cases piece with
    | literal cs => rfl
    | placeholder name =>
      have hname : String.ofList name ∈ names template :=
        List.mem_filterMap.mpr ⟨.placeholder name, hpiece, rfl⟩
      simp only [Piece.fill, h _ hname]
    | unclosed cs => rfl
  unfold fill
  rw [List.flatMap_def, List.flatMap_def, List.map_congr_left hpieces]

/-- The path that a placeholder names that has `=` in front. -/
def mentionedPath? (name : String) : Option String :=
  match name.toList with
  | '=' :: path => some (String.ofList path)
  | _ => none

end Template

namespace Rule

/-- The paths that the placeholders of the explanation mention. -/
def mentions (rule : Rule) : List String :=
  (Template.names rule.explain).filterMap Template.mentionedPath?

/-- The rule with nothing to say about what it contributes. -/
def unexplained (rule : Rule) : Rule :=
  { rule with explain := "" }

section

variable {rule : Rule}

theorem amounts_congr {ruleId : String} {entries : List (String × Expr)}
    (h : ∀ entry ∈ entries, entry.2.eval context = entry.2.eval context') :
    amounts ruleId context entries = amounts ruleId context' entries := by
  induction entries with
  | nil => rfl
  | cons entry rest ih =>
    have hrest := ih fun other hother => h other (List.mem_cons_of_mem _ hother)
    simp only [amounts, h entry List.mem_cons_self, hrest]

/-- What a rule comes to only depends on the facts that it refers to. -/
theorem outcome_congr (h : ∀ path ∈ rule.references, context.get path = context'.get path) :
    rule.outcome context = rule.outcome context' := by
  have hgate : rule.when.eval context = rule.when.eval context' :=
    rule.when.eval_congr fun path hpath => h path (List.mem_append_left _ hpath)
  have hscore : ∀ entry ∈ rule.score.toList, entry.2.eval context = entry.2.eval context' := by
    intro entry hentry
    refine entry.2.eval_congr fun path hpath => h path (List.mem_append_right _ ?_)
    exact List.mem_flatMap.mpr ⟨entry.2, List.mem_map_of_mem hentry, hpath⟩
  simp only [outcome, hgate, amounts_congr hscore]

theorem factText_congr {name : String}
    (h : ∀ path, Template.mentionedPath? name = some path →
      context.get ⟨path⟩ = context'.get ⟨path⟩) :
    context.factText name = context'.factText name := by
  unfold Template.mentionedPath? at h
  unfold Context.factText
  split
  next path hname =>
    simp only [hname] at h
    rw [Context.filter_lookup, Context.filter_lookup, h _ rfl]
  next => rfl

/-- What a rule has to say about a contribution only depends on the facts that its placeholders
    mention. -/
theorem contribution_congr (h : context.AgreeOn context' rule.mentions) (category : String)
    (amount : Float) :
    rule.contribution category amount context = rule.contribution category amount context' := by
  have hfill : Template.fill (rule.explanationText category amount context) rule.explain =
      Template.fill (rule.explanationText category amount context') rule.explain := by
    refine Template.fill_congr fun name hname => ?_
    rw [explanationText_eq_wording, explanationText_eq_wording, wording, wording,
      factText_congr fun path hpath => h path (List.mem_filterMap.mpr ⟨name, hname, hpath⟩)]
  simp only [contribution, hfill]

end

end Rule

namespace RuleSet

/-- The paths that the explanations of some rule mention. -/
def mentions (ruleSet : RuleSet) : List String :=
  ruleSet.rules.flatMap Rule.mentions

/-- The rule set without explanations. -/
def unexplained (ruleSet : RuleSet) : RuleSet :=
  { ruleSet with rules := ruleSet.rules.map Rule.unexplained }

end RuleSet

/-- The contribution without its explanation. -/
def Contribution.unexplained (contribution : Contribution) : Contribution :=
  { contribution with explain := "" }

/-- The tally with no explanation for any contribution. -/
def Tally.unexplained (tally : Tally) : Tally :=
  { tally with contributions := tally.contributions.map Contribution.unexplained }

/-- The scores with no explanation for any contribution. -/
def Scoreboard.unexplained (scores : Scoreboard) : Scoreboard :=
  { scores with categories := scores.categories.map Tally.unexplained }

section

variable {ε : Type} {onFailure : Rule → ScoreError → Scoreboard → Except ε Scoreboard}
variable {rules : List Rule} {rule : Rule} {scores : Scoreboard}

/-- The scores only depend on what the rules come to and on what they say about it. -/
theorem scoreRules_congr
    (houtcome : ∀ rule ∈ rules, rule.outcome context = rule.outcome context')
    (hcontribution : ∀ rule ∈ rules, ∀ category amount,
      rule.contribution category amount context = rule.contribution category amount context') :
    scoreRules context onFailure scores rules = scoreRules context' onFailure scores rules := by
  induction rules generalizing scores with
  | nil => rfl
  | cons rule rest ih =>
    have hadd (amounts : List (String × Float)) :
        scores.addAll rule context amounts = scores.addAll rule context' amounts := by
      simp only [Scoreboard.addAll, hcontribution rule List.mem_cons_self]
    have hrest (scores : Scoreboard) :
        scoreRules context onFailure scores rest = scoreRules context' onFailure scores rest :=
      ih (fun other hother => houtcome other (List.mem_cons_of_mem _ hother))
        fun other hother => hcontribution other (List.mem_cons_of_mem _ hother)
    simp only [scoreRules, houtcome rule List.mem_cons_self, hadd, hrest]

theorem Scoreboard.unexplained_add (category : String) (contribution : Contribution) :
    (scores.add category contribution).unexplained =
      scores.unexplained.add category contribution.unexplained := by
  have hcategories : (scores.add category contribution).unexplained.categories =
      (scores.unexplained.add category contribution.unexplained).categories := by
    refine Dict.ext fun other => ?_
    simp only [add, unexplained, Entries.find?_map, Dict.find?_insert]
    by_cases hother : other = category
    · cases scores.categories.find? category with
      | none => simp [hother, Tally.unexplained, Tally.add, Contribution.unexplained]
      | some tally => simp [hother, Tally.unexplained, Tally.add, Contribution.unexplained]
    · simp [hother]
  exact congrArg (Scoreboard.mk · scores.diagnostics) hcategories

theorem Rule.unexplained_contribution (category : String) (amount : Float) :
    (rule.contribution category amount context).unexplained =
      rule.unexplained.contribution category amount context := by
  simp [Rule.contribution, Rule.unexplained, Contribution.unexplained, Template.fill,
    Template.pieces]

theorem Scoreboard.unexplained_addAll (amounts : List (String × Float)) :
    (scores.addAll rule context amounts).unexplained =
      scores.unexplained.addAll rule.unexplained context amounts := by
  unfold addAll
  induction amounts generalizing scores with
  | nil => rfl
  | cons amount rest ih =>
    rw [List.foldl_cons, List.foldl_cons, ih, unexplained_add, Rule.unexplained_contribution]

/-- Scoring without explanations comes to the scores without explanations. -/
theorem scoreRules_unexplained (scores : Scoreboard)
    (honFailure : ∀ rule error scores, onFailure (Rule.unexplained rule) error
      (Scoreboard.unexplained scores) = (onFailure rule error scores).map Scoreboard.unexplained) :
    scoreRules context onFailure scores.unexplained (rules.map Rule.unexplained) =
      (scoreRules context onFailure scores rules).map Scoreboard.unexplained := by
  induction rules generalizing scores with
  | nil => rfl
  | cons rule rest ih =>
    have houtcome : rule.unexplained.outcome context = rule.outcome context := rfl
    rw [List.map_cons, scoreRules, scoreRules, houtcome]
    cases rule.outcome context with
    | ok amounts =>
      cases amounts with
      | none => exact ih scores
      | some amounts =>
        simp only [← Scoreboard.unexplained_addAll]
        exact ih (scores.addAll rule context amounts)
    | error error =>
      simp only [honFailure]
      cases onFailure rule error scores with
      | ok scores' => exact ih scores'
      | error failure => rfl

end

namespace RuleSet

variable {ruleSet : RuleSet}

theorem paths_unexplained (ruleSet : RuleSet) : ruleSet.unexplained.paths = ruleSet.paths := by
  simp only [paths, unexplained, List.flatMap_map]
  rfl

theorem mentions_unexplained (ruleSet : RuleSet) : ruleSet.unexplained.mentions = [] := by
  simp [mentions, unexplained, Rule.mentions, Rule.unexplained, Template.names, Template.pieces]

theorem unexplained_evaluate (ruleSet : RuleSet) (context : Context) :
    ruleSet.unexplained.evaluate context = (ruleSet.evaluate context).unexplained := by
  have hscored : (.ok (ruleSet.unexplained.evaluate context) : Except Empty Scoreboard) =
      (.ok (ruleSet.evaluate context) : Except Empty Scoreboard).map Scoreboard.unexplained := by
    rw [← scoreRules_eq_evaluate, ← scoreRules_eq_evaluate]
    exact scoreRules_unexplained {} fun _ _ _ => rfl
  exact Except.ok.inj hscored

theorem unexplained_evaluateWith (config : ScoringConfig) (ruleSet : RuleSet)
    (context : Context) :
    ruleSet.unexplained.evaluateWith config context =
      (ruleSet.evaluateWith config context).map Scoreboard.unexplained := by
  unfold evaluateWith
  refine scoreRules_unexplained {} fun rule error scores => ?_
  cases config.errorPolicy <;> rfl

/-- The scores only depend on the facts that the rules refer to and mention. -/
theorem evaluate_congr (hpaths : context.AgreeOn context' ruleSet.paths)
    (hmentions : context.AgreeOn context' ruleSet.mentions) :
    ruleSet.evaluate context = ruleSet.evaluate context' ∧
      ∀ config, ruleSet.evaluateWith config context = ruleSet.evaluateWith config context' := by
  have houtcome : ∀ rule ∈ ruleSet.rules, rule.outcome context = rule.outcome context' := by
    intro rule hrule
    refine Rule.outcome_congr fun path hpath => hpaths path.text ?_
    refine mem_sortDistinct.mpr (List.mem_map_of_mem ?_)
    exact List.mem_flatMap.mpr ⟨rule, hrule, hpath⟩
  have hcontribution : ∀ rule ∈ ruleSet.rules, ∀ category amount,
      rule.contribution category amount context = rule.contribution category amount context' := by
    intro rule hrule category amount
    refine Rule.contribution_congr (fun path hpath => hmentions path ?_) category amount
    exact List.mem_flatMap.mpr ⟨rule, hrule, hpath⟩
  refine ⟨?_, fun config => scoreRules_congr houtcome hcontribution⟩
  have hscored := ruleSet.scoreRules_eq_evaluate context
  rw [scoreRules_congr houtcome hcontribution, scoreRules_eq_evaluate] at hscored
  exact (Except.ok.inj hscored).symm

/-- Contexts that read alike at the paths that the expressions of the rules refer to give the same
    scores but for the explanations of contributions, and under each policy the same success or
    the same error.  If they also read alike at the paths that the explanations mention, the
    scores are equal. -/
theorem evaluate_local (hpaths : context.AgreeOn context' ruleSet.paths) :
    (ruleSet.evaluate context).unexplained = (ruleSet.evaluate context').unexplained ∧
    (∀ config, (ruleSet.evaluateWith config context).map Scoreboard.unexplained =
      (ruleSet.evaluateWith config context').map Scoreboard.unexplained) ∧
    (context.AgreeOn context' ruleSet.mentions →
      ruleSet.evaluate context = ruleSet.evaluate context' ∧
      ∀ config, ruleSet.evaluateWith config context = ruleSet.evaluateWith config context') := by
  have hunmentioned : context.AgreeOn context' ruleSet.unexplained.mentions := by
    rw [mentions_unexplained]
    exact fun path hpath => absurd hpath List.not_mem_nil
  rw [← paths_unexplained] at hpaths
  obtain ⟨hevaluate, hevaluateWith⟩ := evaluate_congr hpaths hunmentioned
  simp only [unexplained_evaluate, unexplained_evaluateWith] at hevaluate hevaluateWith
  rw [paths_unexplained] at hpaths
  exact ⟨hevaluate, hevaluateWith, evaluate_congr hpaths⟩

end RuleSet

/-- A rule that scores a count and mentions a note. -/
def notingRule : Rule where
  id := "noting"
  when := .gt (.fact "x.count") (.number 0)
  score := .ofList [("a", .fact "x.count")]
  explain := "count: {=x.note}"

def notingRules : RuleSet where
  id := "notes"
  version := "1"
  rules := [notingRule]

/-- A count with a note, and a fact that no rule refers to. -/
def notedContext (note : String) (other : Float) : Context :=
  Context.empty.set ⟨"x.count"⟩ (.number 2) |>.set ⟨"x.note"⟩ (.text note)
    |>.set ⟨"y"⟩ (.number other)

theorem evaluate_notingRules :
    (notingRules.evaluate (notedContext "one" 1)).unexplained =
      (notingRules.evaluate (notedContext "two" 2)).unexplained ∧
    notingRules.evaluate (notedContext "one" 1) = notingRules.evaluate (notedContext "one" 2) := by
  have hpaths : notingRules.paths = ["x.count"] := rfl
  have hmentions : notingRules.mentions = ["x.note"] := by decide +kernel
  have hcount (note note' : String) : (notedContext note 1).AgreeOn (notedContext note' 2)
      notingRules.paths := by
    rw [hpaths]
    rintro path hpath
    obtain rfl := List.mem_singleton.mp hpath
    cbv
  have hnote : (notedContext "one" 1).AgreeOn (notedContext "one" 2) notingRules.mentions := by
    rw [hmentions]
    rintro path hpath
    obtain rfl := List.mem_singleton.mp hpath
    cbv
  refine ⟨(RuleSet.evaluate_local (hcount "one" "two")).1, ?_⟩
  exact ((RuleSet.evaluate_local (hcount "one" "one")).2.2 hnote).1

end FactScore
