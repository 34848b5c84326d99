import FactScore.Macro.Expand
import FactScore.Proofs.Context.Writes
import FactScore.Proofs.Expr.Conjunction
import Mathlib.Data.List.Forall2

/-!
# Gates of generated rules

A macro record declares a gate for each rule that it expands to (`MacroRecord.gates`): a
precondition, a quality gate, and the fact that tells the member the rule is for.  The paths of
these facts are templates, filled with the keys of the rule (`FactPath.filled`).  The gate
expression of the rule is a flattened conjunction of all that.  It fails only where the
precondition itself fails, and it is truthy just when the facts open the declared gate
(`MacroRecord.gates_govern_expand`).
-/

namespace FactScore

/-- Every condition that a quality gate gives holds of the facts right below the end of some
    segments.  How a name is put behind the text of a path is no part of this. -/
structure QualityGate.Holds (gate : QualityGate) (context : Context) (base : List String) :
    Prop where
  confidence : ∀ least, gate.minConfidence = some least →
    ∃ x, context.lookupAt (base ++ ["confidence"]) = some (.number x) ∧ least ≤ x
  clarity : ∀ least, gate.minClarity = some least →
    ∃ x, context.lookupAt (base ++ ["clarity"]) = some (.number x) ∧ least ≤ x
  integrity : ∀ least, gate.minIntegrity = some least →
    ∃ x, context.lookupAt (base ++ ["integrity"]) = some (.number x) ∧ least ≤ x
  unbroken : gate.forbidBroken = true →
    context.lookupAt (base ++ ["broken"]) = some (.bool false)
  unmixed : gate.forbidMixed = true →
    context.lookupAt (base ++ ["mixed"]) = some (.bool false)
  grade : ∀ grade, gate.requiredGrade = some grade →
    context.lookupAt (base ++ ["grade"]) = some (.text (Taxonomy.name grade))

/-- The fact that tells the member a rule is for. -/
inductive Discriminator where
  /-- The fact is exactly a text. -/
  | exactly (path : FactPath) (text : String)
  /-- The fact is a number above a bound. -/
  | above (path : FactPath) (bound : Float)

namespace Discriminator

def Holds (context : Context) : Discriminator → Prop
  | exactly path text => context.lookup path = some (.text text)
  | above path bound => context.NumberAt path (bound < ·)

/-- The condition as an expression. -/
def toExpr : Discriminator → Expr
  | exactly path text => .eq (.var path) (.text text)
  | above path bound => .gt (.var path) (.number bound)

theorem tells (discriminator : Discriminator) (context : Context) :
    discriminator.toExpr.Tells context (discriminator.Holds context) := by
  cases discriminator with
  | exactly path text => exact Expr.tells_eq_text text
  | above path bound => exact Expr.tells_gt bound

end Discriminator

/-- The path that a template stands for, once its names stand for texts. -/
def FactPath.filled (keys : List (String × String)) (template : String) : FactPath :=
  ⟨Template.fill (fun name => keys.lookup name) template⟩

/-- What a record declares about the gate of one of its rules. -/
structure DeclaredGate where
  precondition : Option Expr := none
  quality : QualityGate := {}
  /-- What the names in the template of the quality path stand for. -/
  keys : List (String × String) := []
  discriminator : Option Discriminator := none

namespace DeclaredGate

/-- The path that the quality facts are under. -/
def qualityPath (gate : DeclaredGate) : FactPath :=
  match gate.quality.path with
  | some template => .filled gate.keys template
  | none => ⟨"month.gyeok.quality"⟩

/-- The facts open a gate. -/
structure Opens (gate : DeclaredGate) (context : Context) : Prop where
  precondition : ∀ expr, gate.precondition = some expr →
    ∃ value, expr.eval context = .ok value ∧ value.isTruthy = true
  quality : gate.quality.Holds context gate.qualityPath.segments
  discriminator : ∀ condition, gate.discriminator = some condition → condition.Holds context

/-- An outcome fails only with the precondition, and is truthy just when the gate opens. -/
structure Governs (gate : DeclaredGate) (context : Context) (outcome : Outcome) : Prop where
  fails_iff : ∀ error, outcome = .error error ↔
    ∃ expr, gate.precondition = some expr ∧ expr.eval context = .error error
  truthy_iff : ∀ value, outcome = .ok value → (value.isTruthy = true ↔ gate.Opens context)

end DeclaredGate

/-- The gate that a family declares for the member that the keys tell. -/
def ScoredFamily.gate (family : ScoredFamily) (keys : List (String × String))
    (discriminator : Discriminator) : DeclaredGate where
  precondition := family.when
  quality := family.quality
  keys := keys
  discriminator := some discriminator

/-- The gates that a record declares, in the order of its rules. -/
def MacroRecord.gates : MacroRecord → List DeclaredGate
  | patternScore record => (selectedOrAll record.patterns).map fun pattern =>
    let key := Taxonomy.name pattern
    record.gate [("pattern", key)] (.exactly ⟨record.patternPath⟩ key)
  | elementMatch record => (selectedOrAll record.elements).map fun element =>
    let key := Taxonomy.name element
    record.gate [("element", key)] (.exactly ⟨record.elementPath⟩ key)
  | roleElement record => (selectedOrAll record.roles).flatMap fun role =>
    (selectedOrAll record.elements).map fun element =>
      let key := Taxonomy.name element
      let keys := [("role", Taxonomy.name role), ("element", key)]
      record.gate keys (.exactly (.filled keys record.rolePath) key)
  | tenGodPresence record => (selectedOrAll record.tenGods).map fun tenGod =>
    let keys := [("ten_god", Taxonomy.name tenGod)]
    record.gate keys (.above (.filled keys record.path) record.min)
  | gradeTable record => record.rows.map fun (grade, _) =>
    let key := Taxonomy.name grade
    { precondition := record.when
      keys := [("grade", key)]
      discriminator := some (.exactly ⟨record.gradePath⟩ key) }
  | suppression record => record.losers.map fun target =>
    let winner := ("winner", record.winner)
    { quality := record.quality
      keys := [winner, ("target", target)]
      discriminator := some (.above (.filled [winner] record.strengthPath) record.threshold) }
  | penalizeWhen record => [{ precondition := some record.when }]
  | rule record => [{ precondition := some record.when }]

namespace QualityGate

/-- A quality gate without conditions always holds. -/
theorem holds_empty (context : Context) (base : List String) :
    ({} : QualityGate).Holds context base := by
  constructor <;> simp

section

variable (context : Context) (base : FactPath) (name : String)
  (hname : (FactPath.mk name).segments = [name])

include hname

theorem allTell_minimumClause (least : Option Float) :
    Expr.AllTell context (minimumClause base name least)
      (∀ bound, least = some bound →
        ∃ x, context.lookupAt (base.segments ++ [name]) = some (.number x) ∧ bound ≤ x) := by
  rw [← base.segments_join hname]
  cases least with
  | none => exact Expr.AllTell.nil.congr (by simp)
  | some bound =>
    refine (Expr.AllTell.singleton (Expr.tells_gte bound)).congr ?_
    simp [Context.NumberAt, Context.lookup]

theorem allTell_forbidClause (forbidden : Bool) :
    Expr.AllTell context (forbidClause base name forbidden)
      (forbidden = true →
        context.lookupAt (base.segments ++ [name]) = some (.bool false)) := by
  rw [← base.segments_join hname]
  cases forbidden with
  | false => exact Expr.AllTell.nil.congr (by simp)
  | true =>
    exact (Expr.AllTell.singleton (Expr.tells_eq_bool false)).congr (by simp [Context.lookup])

end

theorem allTell_gradeClause (context : Context) (base : FactPath) (grade : Option Grade) :
    Expr.AllTell context (gradeClause base grade)
      (∀ g, grade = some g → context.lookupAt (base.segments ++ ["grade"]) =
        some (.text (Taxonomy.name g))) := by
  have hgrade : (base.join "grade").segments = base.segments ++ ["grade"] := base.segments_join rfl
  rw [← hgrade]
  cases grade with
  | none => exact Expr.AllTell.nil.congr (by simp)
  | some g =>
    exact (Expr.AllTell.singleton (Expr.tells_eq_text _)).congr (by simp [Context.lookup])

/-- The clauses of a quality gate never fail, and they tell whether its conditions hold. -/
theorem allTell_clauses (gate : QualityGate) (context : Context) (bindings : Bindings) :
    Expr.AllTell context (gate.clauses bindings)
      (gate.Holds context (gate.base bindings).segments) := by
  have hminimum := allTell_minimumClause context (gate.base bindings)
  have hforbid := allTell_forbidClause context (gate.base bindings)
  have hminimums := ((hminimum "confidence" rfl gate.minConfidence).append
    (hminimum "clarity" rfl gate.minClarity)).append (hminimum "integrity" rfl gate.minIntegrity)
  have hforbidden := (hminimums.append (hforbid "broken" rfl gate.forbidBroken)).append
    (hforbid "mixed" rfl gate.forbidMixed)
  have hall := hforbidden.append
    (allTell_gradeClause context (gate.base bindings) gate.requiredGrade)
  refine hall.congr ⟨?_, fun h => ?_⟩
  · rintro ⟨⟨⟨⟨⟨hconfidence, hclarity⟩, hintegrity⟩, hbroken⟩, hmixed⟩, hgrade⟩
    exact ⟨hconfidence, hclarity, hintegrity, hbroken, hmixed, hgrade⟩
  · exact ⟨⟨⟨⟨⟨h.confidence, h.clarity⟩, h.integrity⟩, h.unbroken⟩, h.unmixed⟩, h.grade⟩

end QualityGate

namespace DeclaredGate

variable {gate : DeclaredGate} {context : Context} {outcome : Outcome}

/-- Without a precondition the outcome is a value. -/
theorem Governs.exists_ok (h : gate.Governs context outcome) (hnone : gate.precondition = none) :
    ∃ value, outcome = .ok value ∧ (value.isTruthy = true ↔ gate.Opens context) := by
  cases outcome with
  | error error =>
    obtain ⟨expr, hexpr, _⟩ := (h.fails_iff error).mp rfl
    rw [hnone] at hexpr
    cases hexpr
  | ok value => exact ⟨value, rfl, h.truthy_iff value rfl⟩

/-- An outcome that is a value is governed by a gate whose precondition is one too. -/
theorem governs_of_ok {open? : Bool} (htruth : Outcome.truth outcome = .ok open?)
    (hopens : open? = true ↔ gate.Opens context)
    (hprecondition : ∀ expr, gate.precondition = some expr →
      ∃ value, expr.eval context = .ok value) : gate.Governs context outcome := by
  obtain ⟨value, rfl, rfl⟩ := Outcome.truth_eq_ok_iff.mp htruth
  constructor
  · intro error
    simp only [reduceCtorEq, false_iff]
    rintro ⟨expr, hexpr, herror⟩
    obtain ⟨value', hvalue'⟩ := hprecondition expr hexpr
    rw [hvalue'] at herror
    cases herror
  · intro value' hvalue'
    cases hvalue'
    exact hopens

/-- The quality facts are looked for at the path that is declared. -/
theorem base_keys (gate : DeclaredGate) : gate.quality.base ⟨gate.keys⟩ = gate.qualityPath := by
  unfold QualityGate.base qualityPath
  cases gate.quality.path with
  | some template => rfl
  | none => rfl

/-- A gate governs an outcome whose truth is that of its precondition followed by clauses that
    tell the rest. -/
theorem governs_of_conjoined {clauses : List Expr}
    (hclauses : Expr.AllTell context clauses
      (gate.quality.Holds context gate.qualityPath.segments ∧
        ∀ condition, gate.discriminator = some condition → condition.Holds context))
    (htruth : Outcome.truth outcome =
      Expr.conjoined context (gate.precondition.toList ++ clauses)) :
    gate.Governs context outcome := by
  obtain ⟨open?, hconjoined, hopen⟩ := hclauses
  cases hprecondition : gate.precondition with
  | none =>
    rw [hprecondition, Option.toList_none, List.nil_append, hconjoined] at htruth
    refine governs_of_ok htruth (hopen.trans ⟨fun h => ?_, fun h => ?_⟩) (by simp [hprecondition])
    · exact ⟨by simp [hprecondition], h.1, h.2⟩
    · exact ⟨h.quality, h.discriminator⟩
  | some expr =>
    rw [hprecondition, Option.toList_some, List.singleton_append, Expr.conjoined_cons,
      hconjoined] at htruth
    cases heval : expr.eval context with
    | error error =>
      rw [heval] at htruth
      have houtcome : outcome = .error error := Outcome.truth_eq_error_iff.mp htruth
      subst houtcome
      constructor
      · intro error'
        simp [hprecondition, heval]
      · intro value hvalue
        cases hvalue
    | ok value =>
      rw [heval] at htruth
      have htruth' : Outcome.truth outcome = .ok (value.isTruthy && open?) := by
        rw [htruth]
        simp only [Outcome.truth, Except.map, Except.bind]
        cases value.isTruthy <;> rfl
      refine governs_of_ok htruth' ?_ (by simp [hprecondition, heval])
      rw [Bool.and_eq_true, hopen]
      constructor
      · rintro ⟨hvalue, hquality, hdiscriminator⟩
        exact ⟨by simp [hprecondition, heval, hvalue], hquality, hdiscriminator⟩
      · intro h
        obtain ⟨value', hvalue', htruthy⟩ := h.precondition expr hprecondition
        rw [heval] at hvalue'
        cases hvalue'
        exact ⟨htruthy, h.quality, h.discriminator⟩

/-- A declared gate governs the flattened conjunction of its parts. -/
theorem governs_all (gate : DeclaredGate) (discriminator : Discriminator)
    (hdiscriminator : gate.discriminator = some discriminator) (context : Context) :
    gate.Governs context ((Expr.all (gate.precondition.toList ++
      gate.quality.clauses ⟨gate.keys⟩ ++ [discriminator.toExpr])).eval context) := by
  have hclauses := (gate.quality.allTell_clauses context ⟨gate.keys⟩).append
    (.singleton (discriminator.tells context))
  refine governs_of_conjoined (hclauses.congr ?_) ?_
  · simp [base_keys, hdiscriminator]
  · rw [← List.append_assoc]
    exact Expr.truth_all context _

/-- A rule that is given in full has its precondition for a gate. -/
theorem governs_precondition (context : Context) (expr : Expr) :
    Governs { precondition := some expr } context (expr.eval context) := by
  refine governs_of_conjoined (Expr.AllTell.nil.congr ?_) ?_
  · simpa using QualityGate.holds_empty context _
  · simp [Expr.conjoined_singleton]

end DeclaredGate

theorem ScoredFamily.gate_governs_rule (family : ScoredFamily) (context : Context)
    (keys : List (String × String)) (discriminator : Discriminator) :
    (family.gate keys discriminator).Governs context
      ((family.rule ⟨keys⟩ discriminator.toExpr).when.eval context) :=
  (family.gate keys discriminator).governs_all discriminator rfl context

namespace MacroRecord

theorem gates_govern_bareRules (record : MacroRecord) (context : Context) :
    List.Forall₂ (fun gate rule => gate.Governs context (rule.when.eval context))
      record.gates record.bareRules := by
  cases record with
  | patternScore record =>
    rw [gates, bareRules, PatternScore.expand, List.forall₂_map_left_iff,
      List.forall₂_map_right_iff, List.forall₂_same]
    exact fun pattern _ => record.gate_governs_rule context _
      (.exactly ⟨record.patternPath⟩ (Taxonomy.name pattern))
  | elementMatch record =>
    rw [gates, bareRules, ElementMatch.expand, List.forall₂_map_left_iff,
      List.forall₂_map_right_iff, List.forall₂_same]
    exact fun element _ => record.gate_governs_rule context _
      (.exactly ⟨record.elementPath⟩ (Taxonomy.name element))
  | roleElement record =>
    refine List.rel_flatMap (List.forall₂_same.mpr fun _ _ => rfl) fun role _ hrole => ?_
    subst hrole
    rw [List.forall₂_map_left_iff, List.forall₂_map_right_iff, List.forall₂_same]
    exact fun element _ => record.gate_governs_rule context _
      (.exactly (.filled _ record.rolePath) (Taxonomy.name element))
  | tenGodPresence record =>
    rw [gates, bareRules, TenGodPresence.expand, List.forall₂_map_left_iff,
      List.forall₂_map_right_iff, List.forall₂_same]
    exact fun tenGod _ => record.gate_governs_rule context _
      (.above (.filled _ record.path) record.min)
  | gradeTable record =>
    rw [gates, bareRules, GradeTable.expand, List.forall₂_map_left_iff,
      List.forall₂_map_right_iff, List.forall₂_same]
    exact fun row _ => DeclaredGate.governs_all _
      (.exactly ⟨record.gradePath⟩ (Taxonomy.name row.1)) rfl context
  | suppression record =>
    rw [gates, bareRules, Suppression.expand, List.forall₂_map_left_iff,
      List.forall₂_map_right_iff, List.forall₂_same]
    exact fun target _ => DeclaredGate.governs_all _
      (.above (.filled _ record.strengthPath) record.threshold) rfl context
  | penalizeWhen record =>
    rw [gates, bareRules, PenalizeWhen.expand_eq]
    refine .cons ?_ .nil
    exact DeclaredGate.governs_precondition context record.when
  | rule record => exact .cons (DeclaredGate.governs_precondition context record.when) .nil

/-- The gate expression of every rule that a record expands to is governed by the gate that the
    record declares for it: it fails just when the precondition of the record does, and with the
    same error, and where it has a value, the value is truthy just when the facts open the gate. -/
theorem gates_govern_expand (record : MacroRecord) (context : Context) :
    List.Forall₂ (fun gate rule => gate.Governs context (rule.when.eval context))
      record.gates record.expand := by
  rw [expand, List.forall₂_map_right_iff]
  refine (record.gates_govern_bareRules context).imp fun gate rule hgoverns => ?_
  split
  · exact hgoverns
  · exact hgoverns

end MacroRecord

/-- A record of one pair, with templates for the paths of its quality facts and of its role. -/
def carriedRole : RoleElement where
  idStem := "carried"
  score := .constant 1
  quality := { path := some "quality.\x7belement\x7d", minConfidence := some 0.5 }
  rolePath := "roles.\x7brole\x7d.element"
  roles := [.yongsin]
  elements := [.wood]

/-- The gate that is declared for the pair. -/
def carriedGate : DeclaredGate where
  quality := carriedRole.quality
  keys := [("role", "yongsin"), ("element", "wood")]
  discriminator := some (.exactly ⟨"roles.yongsin.element"⟩ "wood")

/-- Facts of which the pair holds, with some confidence in the element. -/
def carriedFacts (confidence : Float) : Context :=
  (Context.empty.set ⟨"quality.wood.confidence"⟩ (.number confidence)).set
    ⟨"roles.yongsin.element"⟩ (.text "wood")

theorem qualityPath_carriedGate : carriedGate.qualityPath = ⟨"quality.wood"⟩ := by
  decide +kernel

theorem lookup_carriedFacts (confidence : Float) :
    (carriedFacts confidence).lookupAt ((FactPath.mk "quality.wood").segments ++ ["confidence"]) =
        some (.number confidence) ∧
      (carriedFacts confidence).lookup ⟨"roles.yongsin.element"⟩ = some (.text "wood") := by
  constructor
  · cbv
  · cbv

theorem opens_carriedGate_iff {confidence : Float} :
    carriedGate.Opens (carriedFacts confidence) ↔ 0.5 ≤ confidence := by
  obtain ⟨hconfidence, hrole⟩ := lookup_carriedFacts confidence
  rw [← qualityPath_carriedGate] at hconfidence
  constructor
  · intro hopens
    obtain ⟨x, hx, hle⟩ := hopens.quality.confidence 0.5 rfl
    cases hconfidence.symm.trans hx
    exact hle
  · intro hle
    have hquality : carriedGate.quality.Holds (carriedFacts confidence)
        carriedGate.qualityPath.segments := by
      constructor
      case confidence =>
        rintro _ ⟨⟩
        exact ⟨confidence, hconfidence, hle⟩
      all_goals simp [carriedGate, carriedRole]
    refine ⟨by simp [carriedGate], hquality, ?_⟩
    rintro _ ⟨⟩
    exact hrole

/-- The pair fills both paths, and the gate of its rule asks for the facts that are there. -/
theorem gates_carriedRole :
    carriedGate.qualityPath = ⟨"quality.wood"⟩ ∧
      (MacroRecord.roleElement carriedRole).gates = [carriedGate] ∧
      ∃ rule, (MacroRecord.roleElement carriedRole).expand = [rule] ∧
        ∀ confidence, ∃ value, rule.when.eval (carriedFacts confidence) = .ok value ∧
          (value.isTruthy = true ↔ 0.5 ≤ confidence) := by
  have hrole : FactPath.filled [("role", "yongsin"), ("element", "wood")]
      "roles.\x7brole\x7d.element" = ⟨"roles.yongsin.element"⟩ := by decide +kernel
  have hgates : (MacroRecord.roleElement carriedRole).gates = [carriedGate] :=
    congrArg (fun path => [carriedRole.gate carriedGate.keys (.exactly path "wood")]) hrole
  refine ⟨qualityPath_carriedGate, hgates, _, rfl, fun confidence => ?_⟩
  have hgoverns :=
    (MacroRecord.roleElement carriedRole).gates_govern_expand (carriedFacts confidence)
  rw [hgates] at hgoverns
  obtain ⟨value, hvalue, hopens⟩ := (List.forall₂_cons.mp hgoverns).1.exists_ok rfl
  exact ⟨value, hvalue, hopens.trans opens_carriedGate_iff⟩

end FactScore
