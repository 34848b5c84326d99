import FactScore.Proofs.Format.Expressions
import FactScore.Rule

/-!
# The data form of rules

Rules and rule sets whose numbers are all finite are read back from their data forms.  A rule also
stands in macro records, where its kind is written beside its own members and where the payload of
a name may be left out in more ways, so what is said of a rule holds for any of this.
-/

namespace FactScore

open Data

namespace Rule

/-- Whether the numbers of a rule are finite. -/
def isFinite (rule : Rule) : Bool :=
  rule.when.isFinite && rule.score.values.all Expr.isFinite

/-- A rule is read back from its members, also when its kind is written beside them. -/
theorem ofData_ofFields {rule : Rule} (payload : Payload) (kind : Option Data)
    (h : rule.isFinite) :
    ofData payload (.ofFields (member "kind" kind ++ rule.members)) = .ok rule := by
  obtain ⟨hwhenFinite, hscoreFinite⟩ := Bool.and_eq_true_iff.mp h
  let fields := Fields.of (.ofFields (member "kind" kind ++ rule.members))
  have hid : fields.Gives ⟨"id", asText⟩ none rule.id := .ofText (by simp [fields, members])
  have hgate : fields.Gives ⟨"when", Expr.ofData payload⟩ none rule.when :=
    .present (by simp [fields, members]) (Expr.ofData_toData hwhenFinite)
  have hscore : fields.Gives ⟨"score", asDict (Expr.ofData payload)⟩ (some .nil) rule.score :=
    .ofDict (by simp [fields, members]) fun e he =>
      Expr.ofData_toData (List.all_eq_true.mp hscoreFinite e he)
  have hexplain : fields.Gives ⟨"explain", asText⟩ (some "") rule.explain :=
    .ofText (by simp [fields, members])
  have htags : fields.Gives ⟨"tags", asList asText⟩ (some []) rule.tags :=
    .ofTexts (by simp [fields, members])
  refine bind_eq_of_ok (record_of_passes (?passes : ∀ check ∈ _, fields.Passes check)) ?values
  case passes =>
    simp only [List.forall_mem_cons]
    exact ⟨hid.passes, hgate.passes, hscore.passes, hexplain.passes, htags.passes,
      List.forall_mem_nil _⟩
  case values =>
    exact bind_eq_of_ok hid.required <| bind_eq_of_ok hgate.required <|
      bind_eq_of_ok hscore.withDefault <| bind_eq_of_ok hexplain.withDefault <|
      bind_eq_of_ok htags.withDefault rfl

theorem ofData_toData {rule : Rule} (payload : Payload) (h : rule.isFinite) :
    ofData payload rule.toData = .ok rule :=
  ofData_ofFields payload none h

end Rule

namespace RuleSet

/-- Whether the numbers of a rule set are finite. -/
def isFinite (ruleSet : RuleSet) : Bool :=
  ruleSet.rules.all Rule.isFinite

theorem ofData_toData {ruleSet : RuleSet} (h : ruleSet.isFinite) :
    ofData ruleSet.toData = .ok ruleSet := by
  let fields := Fields.of ruleSet.toData
  have hid : fields.Gives ⟨"id", asText⟩ none ruleSet.id := .ofText (by simp [fields, toData])
  have hversion : fields.Gives ⟨"version", asText⟩ none ruleSet.version :=
    .ofText (by simp [fields, toData])
  have hdescription : fields.Gives ⟨"description", orNull asText⟩ (some none)
      ruleSet.description :=
    .ofTextOption (by simp [fields, toData])
  have hrules : fields.Gives ⟨"rules", asList (Rule.ofData .null)⟩ none ruleSet.rules :=
    .ofList (by simp [fields, toData]) fun rule hrule =>
      Rule.ofData_toData .null (List.all_eq_true.mp h rule hrule)
  refine bind_eq_of_ok (record_of_passes (?passes : ∀ check ∈ _, fields.Passes check)) ?values
  case passes =>
    simp only [List.forall_mem_cons]
    exact ⟨hid.passes, hversion.passes, hdescription.passes, hrules.passes, List.forall_mem_nil _⟩
  case values =>
    exact bind_eq_of_ok hid.required <| bind_eq_of_ok hversion.required <|
      bind_eq_of_ok hdescription.withDefault <| bind_eq_of_ok hrules.required rfl

end RuleSet

end FactScore
