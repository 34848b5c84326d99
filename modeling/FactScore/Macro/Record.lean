import FactScore.Quality
import FactScore.Rule
import FactScore.ScoreSpec

/-!
# Macro records

A macro record declares a family of rules as plain data tagged by its kind.  Most kinds range over
a taxonomy and generate one rule for each of its members; the texts documented as templates may
use the member as a placeholder.
-/

namespace FactScore

/-- The kinds of macro records. -/
inductive MacroKind where
  | patternScore
  | elementMatch
  | roleElement
  | tenGodPresence
  | gradeTable
  | suppression
  | penalizeWhen
  | rule
  deriving DecidableEq, Repr

instance : Taxonomy MacroKind where
  members :=
    [.patternScore, .elementMatch, .roleElement, .tenGodPresence, .gradeTable, .suppression,
      .penalizeWhen, .rule]
  name
    | .patternScore => "pattern_score"
    | .elementMatch => "element_match"
    | .roleElement => "role_element"
    | .tenGodPresence => "ten_god_presence"
    | .gradeTable => "grade_table"
    | .suppression => "suppression"
    | .penalizeWhen => "penalize_when"
    | .rule => "rule"

/-- What the records that score the members of a taxonomy have in common. -/
structure ScoredFamily where
  /-- The stem of the rule ids. -/
  idStem : String
  /-- The category of the score, a template. -/
  category : String
  score : ScoreSpec
  quality : QualityGate := {}
  /-- A precondition. -/
  when : Option Expr := none
  /-- The explanation, a template. -/
  explain : String := ""
  tags : List String := []
  deriving Inhabited

/-- Score every pattern when it is the observed one. -/
structure PatternScore extends ScoredFamily where
  category := "{pattern}"
  patternPath : String := "month.gyeok.pattern"
  /-- The patterns to range over; all of them when empty. -/
  patterns : List Pattern := []
  deriving Inhabited

/-- Score every element when it is the observed one. -/
structure ElementMatch extends ScoredFamily where
  category := "element.{element}"
  elementPath : String := "month.gyeok.element"
  /-- The elements to range over; all of them when empty. -/
  elements : List Element := []
  deriving Inhabited

/-- Score every pair of a role and an element when the element carries the role. -/
structure RoleElement extends ScoredFamily where
  category := "{role}.{element}"
  /-- The path of the element that carries a role, a template. -/
  rolePath : String := "roles.{role}"
  /-- The roles to range over; all of them when empty. -/
  roles : List Role := []
  /-- The elements to range over; all of them when empty. -/
  elements : List Element := []
  deriving Inhabited

/-- Score every ten god whose measure is above a minimum. -/
structure TenGodPresence extends ScoredFamily where
  category := "{ten_god}"
  /-- The path of the measure, a template. -/
  path : String := "ten_gods.{ten_god}.count"
  min : Float := 0
  /-- The ten gods to range over; all of them when empty. -/
  tenGods : List TenGod := []
  deriving Inhabited

/-- A fixed amount for each grade. -/
structure GradeTable where
  /-- The stem of the rule ids. -/
  idStem : String
  gradePath : String := "month.gyeok.quality.grade"
  /-- The category of the score, a template. -/
  category : String
  /-- The amount for a grade; a grade without one generates no rule. -/
  amounts : Grade → Option Float
  when : Option Expr := none
  /-- The explanation, a template. -/
  explain : String := ""
  tags : List String := []
  deriving Inhabited

/-- Once the winner's strength is above a threshold, every other target loses in proportion to
    that strength. -/
structure Suppression where
  /-- The stem of the rule ids. -/
  idStem : String
  /-- The category that dominates. -/
  winner : String
  /-- The path of the winner's strength, a template. -/
  strengthPath : String := "patterns.{winner}.strength"
  threshold : Float
  /-- The categories that lose; the winner itself is passed over. -/
  targets : List String
  weight : Float := 1
  quality : QualityGate := {}
  /-- The explanation, a template. -/
  explain : String := ""
  tags : List String := []
  deriving Inhabited

/-- A penalty behind a gate of its own. -/
structure PenalizeWhen where
  id : String
  when : Expr
  categories : List String
  /-- The size of the penalty, which always counts as negative. -/
  amount : Float
  /-- The path of a fact that the penalty is multiplied by. -/
  scaleBy : Option String := none
  explain : String := ""
  tags : List String := []
  deriving Inhabited

/-- A macro record of any kind. -/
inductive MacroRecord where
  | patternScore (record : PatternScore)
  | elementMatch (record : ElementMatch)
  | roleElement (record : RoleElement)
  | tenGodPresence (record : TenGodPresence)
  | gradeTable (record : GradeTable)
  | suppression (record : Suppression)
  | penalizeWhen (record : PenalizeWhen)
  /-- A rule given in full. -/
  | rule (record : Rule)
  deriving Inhabited

/-- The kind of a record. -/
def MacroRecord.kind : MacroRecord → MacroKind
  | patternScore _ => .patternScore
  | elementMatch _ => .elementMatch
  | roleElement _ => .roleElement
  | tenGodPresence _ => .tenGodPresence
  | gradeTable _ => .gradeTable
  | suppression _ => .suppression
  | penalizeWhen _ => .penalizeWhen
  | rule _ => .rule

end FactScore
