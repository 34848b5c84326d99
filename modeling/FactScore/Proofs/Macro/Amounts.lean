import FactScore.Macro.Expand
import FactScore.Proofs.Number.Products
import FactScore.Proofs.Scoring.Accounts

/-!
# Amounts of generated rules

A score specification comes to its amount, or to the product of its amount and a fact, and to
nothing where that fact is no number (`ScoreSpec.ComesTo`).  The expression of a specification is
the number that it comes to (`ScoreSpec.number?_toExpr`).  What a penalty comes to is no gain,
unless it is scaled by a fact that is negative (`ScoreSpec.ComesTo.penalty`).

The rules of a record that gives no explanation are the same apart from the one that they get
(`MacroRecord.expand_eq_map_explained`).
-/

namespace FactScore

variable {context : Context} {bindings : Bindings} {amount : Float}

/-- A fact times a literal is a number just when the fact is one. -/
theorem Expr.number?_mul_var {base : Float} {path : FactPath} :
    (Expr.mul [.number base, .var path]).number? context = some amount ↔
      context.NumberAt path (amount = base * ·) := by
  have heval : (Expr.mul [.number base, .var path]).eval context =
      Outcome.arithmetic .mul [.ok (.number base), .ok (context.get path)]
        fun xs => xs.foldl (· * ·) 1 := rfl
  unfold Expr.number? Context.NumberAt
  rw [heval]
  cases hget : context.get path with
  | number x =>
    have hlookup := (Context.get_eq_iff (by simp)).mp hget
    have hproduct : Outcome.arithmetic .mul [.ok (.number base), .ok (.number x)]
        (fun xs => xs.foldl (· * ·) 1) = .ok (.number (base * x)) := by
      change Except.ok (Value.number (1 * base * x)) = _
      rw [Number.one_mul]
    simp [hproduct, hlookup, eq_comm]
  | missing | bool | text | list | map =>
    have hnumber : ∀ x, context.lookup path ≠ some (.number x) := by
      intro x hlookup
      rw [(Context.get_eq_iff (by simp)).mpr hlookup] at hget
      cases hget
    simp only [hnumber, false_and, exists_false, iff_false]
    intro hamount
    cases hamount

namespace ScoreSpec

/-- A specification comes to an amount over the facts. -/
def ComesTo (spec : ScoreSpec) (bindings : Bindings) (context : Context) (amount : Float) : Prop :=
  match spec with
  | constant base => amount = base
  | scaled base scaleBy => context.NumberAt ⟨bindings.fill scaleBy⟩ (amount = base * ·)

theorem number?_toExpr {spec : ScoreSpec} :
    (spec.toExpr bindings).number? context = some amount ↔
      spec.ComesTo bindings context amount := by
  cases spec with
  | constant base => exact Option.some_inj.trans eq_comm
  | scaled base scaleBy => exact Expr.number?_mul_var

/-- A penalty that is not scaled is no gain.  One that is scaled is a gain only where the fact is
    negative, and there it takes nothing. -/
theorem ComesTo.penalty {spec : ScoreSpec} (h : spec.penalty.ComesTo bindings context amount) :
    match spec with
    | constant base => amount = -base.abs ∧ ¬0 < amount
    | scaled base scaleBy => context.NumberAt ⟨bindings.fill scaleBy⟩ fun x =>
        amount = -base.abs * x ∧ (0 < amount → x < 0) ∧ (x < 0 → ¬amount < 0) := by
  cases spec with
  | constant base =>
    obtain rfl : amount = -base.abs := h
    exact ⟨rfl, Number.not_pos_penalty base⟩
  | scaled base scaleBy =>
    obtain ⟨x, hlookup, rfl⟩ := h
    exact ⟨x, hlookup, rfl, Number.neg_of_pos_penalty, Number.not_neg_penalty⟩

end ScoreSpec

/-- A rule with the explanation of its kind of record, if it has none of its own. -/
def Rule.explained (kind : MacroKind) (rule : Rule) : Rule :=
  { rule with explain := if rule.explain = "" then kind.defaultExplanation else rule.explain }

theorem MacroRecord.expand_eq_map_explained (record : MacroRecord) :
    record.expand = record.bareRules.map (Rule.explained record.kind) := by
  refine List.map_congr_left fun rule _ => ?_
  unfold Rule.explained
  split <;> rfl

/-- The rules of a record by themselves. -/
def MacroRecord.alone (record : MacroRecord) : RuleSet where
  id := "alone"
  version := "1"
  rules := record.expand

end FactScore
