import FactScore.Spec

/-!
# The built-in rules

The rule set that compositions start from unless they say otherwise.  Its categories are the names
of patterns, `element.` followed by an element, and `quality`.
-/

namespace FactScore

namespace Builtin

/-- An established pattern of the month, scaled by the quality multiplier. -/
def established : MacroRecord := .patternScore {
  idStem := "gyeok.base"
  score := .scaled 10 "month.gyeok.quality.multiplier"
  quality := { minConfidence := some 0.3 }
  explain := "{pattern} gyeok established in the month pillar (+{amount})"
  tags := ["gyeok"] }

/-- A bonus for a clear, unbroken pattern. -/
def clear : MacroRecord := .patternScore {
  idStem := "gyeok.clear"
  score := .constant 4
  quality := { minClarity := some 0.6, forbidBroken := true }
  explain := "{pattern} gyeok is clear and intact (+{amount})"
  tags := ["gyeok", "quality"] }

/-- Every visible ten god supports the pattern of the same name. -/
def visible : MacroRecord := .tenGodPresence {
  idStem := "tengod"
  score := .scaled 1.5 "ten_gods.{ten_god}.count"
  explain := "{ten_god} is visible in the chart (+{amount})"
  tags := ["ten_god"] }

/-- Favourable roles reward the element that carries them. -/
def favourable : MacroRecord := .roleElement {
  idStem := "role"
  roles := [.yongsin, .huisin]
  category := "element.{element}"
  score := .constant 3
  explain := "{element} serves as {role} (+{amount})"
  tags := ["role"] }

/-- The element of the pattern. -/
def patternElement : MacroRecord := .elementMatch {
  idStem := "element.gyeok"
  score := .constant 2
  explain := "{element} is the gyeok element (+{amount})"
  tags := ["element"] }

/-- The grade of the pattern. -/
def graded : MacroRecord := .gradeTable {
  idStem := "gyeok.grade"
  category := "quality"
  amounts := fun
    | .top => some 6
    | .high => some 4
    | .mid => some 2
    | .low => some (-2)
  explain := "gyeok quality graded {grade} ({amount})"
  tags := ["quality"] }

/-- The names of the regular patterns. -/
def regularPatterns : List String :=
  ((Taxonomy.members : List Pattern).filter fun pattern => !pattern.isSpecial).map Taxonomy.name

/-- A strong following pattern absorbs the regular ones. -/
def following : MacroRecord := .suppression {
  idStem := "suppress.jongwang"
  winner := "jongwang"
  threshold := 0.6
  weight := 8
  targets := regularPatterns
  explain := "{winner} dominates, {target} is suppressed ({amount})"
  tags := ["suppression"] }

/-- A strong transformation pattern absorbs the regular ones. -/
def transformation : MacroRecord := .suppression {
  idStem := "suppress.hwagi"
  winner := "hwagi"
  threshold := 0.7
  weight := 6
  targets := regularPatterns
  explain := "{winner} transformation holds, {target} is suppressed ({amount})"
  tags := ["suppression"] }

/-- A broken pattern. -/
def broken : MacroRecord := .penalizeWhen {
  id := "penalty.broken"
  when := .eq (.fact "month.gyeok.quality.broken") (.bool true)
  categories := ["quality"]
  amount := 5
  explain := "gyeok is broken ({amount})"
  tags := ["penalty"] }

/-- A mixed pattern, in proportion to how mixed it is. -/
def mixed : MacroRecord := .penalizeWhen {
  id := "penalty.mixed"
  when := .eq (.fact "month.gyeok.quality.mixed") (.bool true)
  categories := ["quality"]
  amount := 3
  scaleBy := some "month.gyeok.quality.mixed_ratio"
  explain := "gyeok is mixed ({amount})"
  tags := ["penalty"] }

/-- The spec of the built-in rules. -/
def spec : RuleSpec where
  id := some "default"
  version := some "1.0.0"
  description := some "Built-in gyeok pattern scoring"
  base := some .empty
  mode := .replace
  records :=
    [established, clear, visible, favourable, patternElement, graded, following, transformation,
      broken, mixed]

/-- The built-in rules. -/
def ruleSet : Except CompileError RuleSet :=
  RuleSpec.composeOnto .empty [spec]

end Builtin

/-- The rule set that a base selector names. -/
def BaseRules.ruleSet : BaseRules → Except CompileError RuleSet
  | .builtin => Builtin.ruleSet
  | .empty => .ok .empty

/-- The rule set that a sequence of specs makes up.  The empty sequence gives the built-in
    rules. -/
def RuleSpec.compose (specs : List RuleSpec) : Except CompileError RuleSet :=
  match specs with
  | [] => Builtin.ruleSet
  | first :: _ => do composeOnto (← (first.base.getD .builtin).ruleSet) specs

end FactScore
