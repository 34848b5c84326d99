import FactScore.Dict.Lemmas
import FactScore.Scoring

/-!
# Verdicts on rules

What a rule comes to is settled before anything is added to a score: its gate is closed, or it
fails, or it fires (`Rule.verdict`).  A rule that fires awards one contribution to each of its
categories (`Rule.award?`), and any other rule awards none.  `Rule.outcome` is the verdict together
with the amounts (`Rule.outcome_eq`).
-/

namespace FactScore

/-- What a rule comes to. -/
inductive Verdict where
  /-- The gate is not truthy. -/
  | closed
  /-- The gate has no value, or it is truthy and a score expression is no number. -/
  | failed (error : ScoreError)
  /-- The gate is truthy and every score expression is a number. -/
  | fired
  deriving DecidableEq

def Verdict.isFailed : Verdict → Bool
  | failed _ => true
  | _ => false

/-- The number that an expression is. -/
def Expr.number? (context : Context) (expr : Expr) : Option Float :=
  match expr.eval context with
  | .ok (.number amount) => some amount
  | _ => none

/-- The text of the fact that a name with `=` in front gives the path of. -/
def Context.factText (context : Context) (name : String) : Option String :=
  match name.toList with
  | '=' :: path =>
    ((context.lookup ⟨String.ofList path⟩).filter fun value => !value.isMissing).map Value.display
  | _ => none

theorem Context.factText_eq (context : Context) (name : String) :
    context.factText name =
      match name.toList with
      | '=' :: path =>
        match context.lookup ⟨String.ofList path⟩ with
        | none => none
        | some value => if value.isMissing then none else some value.display
      | _ => none := by
  unfold factText
  split
  next path _ =>
    cases context.lookup ⟨String.ofList path⟩ with
    | none => rfl
    | some value => cases hmissing : value.isMissing <;> simp [Option.filter, hmissing]
  next => rfl

namespace Rule

/-- Why the score expression of a category is no number. -/
def scoreFailure? (ruleId : String) (context : Context) (entry : String × Expr) :
    Option ScoreError :=
  match entry.2.eval context with
  | .error source => some (.eval ruleId source)
  | .ok (.number _) => none
  | .ok value => some (.nonNumeric ruleId entry.1 value.kindName)

/-- The verdict on a rule.  The first score expression in key order that fails fails the rule. -/
def verdict (rule : Rule) (context : Context) : Verdict :=
  match rule.when.eval context with
  | .error source => .failed (.eval rule.id source)
  | .ok gate =>
    if gate.isTruthy then
      match rule.score.toList.findSome? (scoreFailure? rule.id context) with
      | some error => .failed error
      | none => .fired
    else .closed

/-- What the placeholders of an explanation stand for. -/
def wording (rule : Rule) (context : Context) (category : String) (amount : Float)
    (name : String) : Option String :=
  let bindings := Bindings.empty.bind "amount" (NumberNotation.plain.render amount)
    |>.bind "category" category
    |>.bind "rule_id" rule.id
  (bindings.find? name).or (context.factText name)

/-- The contribution that a rule awards to a category. -/
def award? (rule : Rule) (context : Context) (category : String) : Option Contribution :=
  match rule.verdict context with
  | .fired =>
    ((rule.score.find? category).bind (Expr.number? context)).map fun amount =>
      { ruleId := rule.id
        amount := amount
        explain := Template.fill (rule.wording context category amount) rule.explain }
  | _ => none

/-- The diagnostic that a rule gives rise to. -/
def diagnostic? (rule : Rule) (context : Context) : Option Diagnostic :=
  match rule.verdict context with
  | .failed error => some { ruleId := rule.id, message := error.message }
  | _ => none

/-- The amounts of some score expressions that are numbers. -/
def numbers (context : Context) (entries : List (String × Expr)) : List (String × Float) :=
  entries.filterMap fun entry => (entry.2.number? context).map fun amount => (entry.1, amount)

section

variable {rule : Rule} {context : Context} {category : String}

theorem number?_isSome_iff {ruleId : String} {entry : String × Expr} :
    (entry.2.number? context).isSome = true ↔ scoreFailure? ruleId context entry = none := by
  unfold Expr.number? scoreFailure?
  cases entry.2.eval context with
  | error source => simp
  | ok value => cases value <;> simp

/-- The amounts are all there, or the first failure in order is. -/
theorem amounts_eq (ruleId : String) (context : Context) (entries : List (String × Expr)) :
    amounts ruleId context entries =
      match entries.findSome? (scoreFailure? ruleId context) with
      | some error => .error error
      | none => .ok (numbers context entries) := by
  induction entries with
  | nil => rfl
  | cons entry rest ih =>
    obtain ⟨category, expr⟩ := entry
    unfold amounts
    rw [List.findSome?_cons, ih]
    cases heval : expr.eval context with
    | error source =>
      have hfailure : scoreFailure? ruleId context (category, expr) =
          some (.eval ruleId source) := by
        simp [scoreFailure?, heval]
      rw [hfailure]
      rfl
    | ok value =>
      cases value with
      | number amount =>
        have hfailure : scoreFailure? ruleId context (category, expr) = none := by
          simp [scoreFailure?, heval]
        have hnumber : expr.number? context = some amount := by
          simp [Expr.number?, heval]
        simp only [hfailure, numbers, List.filterMap_cons, hnumber, Option.map_some]
        cases rest.findSome? (scoreFailure? ruleId context) <;> rfl
      | _ =>
        simp only [scoreFailure?, heval]
        rfl

theorem outcome_eq (rule : Rule) (context : Context) :
    rule.outcome context =
      match rule.verdict context with
      | .closed => .ok none
      | .failed error => .error error
      | .fired => .ok (some (numbers context rule.score.toList)) := by
  unfold outcome verdict
  cases rule.when.eval context with
  | error source => rfl
  | ok gate =>
    have hgate : (Except.ok gate : Outcome).mapError (ScoreError.eval rule.id) = .ok gate := rfl
    by_cases hopen : gate.isTruthy = true
    · simp only [hgate, hopen, if_true, amounts_eq]
      cases rule.score.toList.findSome? (scoreFailure? rule.id context) with
      | some error => simp [bind, Except.bind, hopen]
      | none => simp [bind, Except.bind, pure, Except.pure, hopen]
    · simp [hgate, bind, Except.bind, pure, Except.pure, hopen]

theorem explanationText_eq_wording (rule : Rule) (category : String) (amount : Float)
    (context : Context) :
    rule.explanationText category amount context = rule.wording context category amount := by
  funext name
  unfold explanationText wording
  simp only [Bindings.find?, Bindings.bind, Bindings.empty, List.nil_append, List.cons_append,
    List.lookup_cons, List.lookup_nil]
  by_cases hamount : name = "amount"
  · simp [hamount]
  · by_cases hcategory : name = "category"
    · simp [hcategory]
    · by_cases hid : name = "rule_id"
      · simp [hid]
      · have hnames : (name == "amount") = false ∧ (name == "category") = false ∧
            (name == "rule_id") = false := by simp [hamount, hcategory, hid]
        simp only [hamount, hcategory, hid, hnames, if_false, Option.none_or]
        exact (context.factText_eq name).symm

theorem number?_isSome_of_no_failure {bound : Option String} {entries : Entries Expr bound}
    {expr : Expr} {ruleId : String}
    (h : entries.toList.findSome? (scoreFailure? ruleId context) = none)
    (hfind : entries.find? category = some expr) : (expr.number? context).isSome = true := by
  induction entries with
  | nil => simp at hfind
  | cons key above value rest ih =>
    rw [Entries.toList, List.findSome?_cons] at h
    rw [Entries.find?_cons] at hfind
    cases hfailure : scoreFailure? ruleId context (key, value) with
    | some error => simp [hfailure] at h
    | none =>
      simp only [hfailure] at h
      split at hfind
      next =>
        cases hfind
        exact number?_isSome_iff.mpr hfailure
      next => exact ih h hfind

/-- A rule that fires scores a number for each of its categories. -/
theorem number?_of_fired {expr : Expr} (h : rule.verdict context = .fired)
    (hfind : rule.score.find? category = some expr) :
    ∃ amount, expr.number? context = some amount := by
  unfold verdict at h
  split at h
  next => cases h
  next gate =>
    split at h
    next =>
      split at h
      next => cases h
      next hnone => exact Option.isSome_iff_exists.mp (number?_isSome_of_no_failure hnone hfind)
    next => cases h

theorem verdict_eq_closed {gate : Value} (heval : rule.when.eval context = .ok gate)
    (hgate : gate.isTruthy = false) : rule.verdict context = .closed := by
  simp [verdict, heval, hgate]

theorem verdict_eq_fired {gate : Value} (heval : rule.when.eval context = .ok gate)
    (hgate : gate.isTruthy = true)
    (hscores : ∀ entry ∈ rule.score.toList, (entry.2.number? context).isSome = true) :
    rule.verdict context = .fired := by
  have hnone : rule.score.toList.findSome? (scoreFailure? rule.id context) = none :=
    List.findSome?_eq_none_iff.mpr fun entry hentry => number?_isSome_iff.mp (hscores entry hentry)
  simp [verdict, heval, hgate, hnone]

/-- What is awarded comes from the rule that awards it, and from the score of the category. -/
theorem score_of_award? {contribution : Contribution}
    (h : rule.award? context category = some contribution) :
    contribution.ruleId = rule.id ∧ ∃ expr, rule.score.find? category = some expr ∧
      expr.number? context = some contribution.amount := by
  unfold award? at h
  split at h
  next =>
    obtain ⟨amount, hamount, rfl⟩ := Option.map_eq_some_iff.mp h
    obtain ⟨expr, hexpr, hnumber⟩ := Option.bind_eq_some_iff.mp hamount
    exact ⟨rfl, expr, hexpr, hnumber⟩
  next => cases h

/-- Exactly the rules that fire award something, and exactly to their categories. -/
theorem award?_isSome_iff : (rule.award? context category).isSome = true ↔
    rule.verdict context = .fired ∧ rule.score.contains category = true := by
  unfold award? Entries.contains
  cases hverdict : rule.verdict context with
  | closed => simp
  | failed error => simp
  | fired =>
    cases hfind : rule.score.find? category with
    | none => simp
    | some expr =>
      obtain ⟨amount, hnumber⟩ := number?_of_fired hverdict hfind
      simp [hnumber]

end

end Rule

end FactScore
