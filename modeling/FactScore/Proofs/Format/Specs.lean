import FactScore.Proofs.Format.Records
import FactScore.Spec.Builtin
import FactScore.Spec.Format

/-!
# The data form of rule specs

A spec is written in one step and read in two, first as a document with untyped records and then
record by record.  Put together with what holds of records and rules, every declaration whose
numbers are all finite is read back from its data form (`data_forms_read_back`).
-/

namespace FactScore

open Data

instance : LawfulTaxonomy MergeMode where
  mem_members mode := by cases mode <;> decide
  nodup_names := by decide

instance : LawfulTaxonomy BaseRules where
  mem_members base := by cases base <;> decide
  nodup_names := by decide

namespace RuleSpec

/-- Whether the numbers of a spec are finite. -/
def isFinite (spec : RuleSpec) : Bool :=
  spec.records.all MacroRecord.isFinite

/-- The document that a spec is written as. -/
def document (spec : RuleSpec) : SpecDocument where
  id := spec.id
  version := spec.version
  description := spec.description
  base := spec.base
  mode := spec.mode
  records := spec.records.map MacroRecord.toData

variable {spec : RuleSpec}

theorem document_ofData_toData (payload : Payload) :
    SpecDocument.ofData payload spec.toData = .ok spec.document := by
  let fields := Fields.of spec.toData
  have hid : fields.Gives ⟨"id", orNull asText⟩ (some none) spec.id :=
    .ofTextOption (by simp [fields, toData])
  have hversion : fields.Gives ⟨"version", orNull asText⟩ (some none) spec.version :=
    .ofTextOption (by simp [fields, toData])
  have hdescription : fields.Gives ⟨"description", orNull asText⟩ (some none) spec.description :=
    .ofTextOption (by simp [fields, toData])
  have hbase : fields.Gives ⟨"base", orNull (Taxonomy.ofData payload)⟩ (some none) spec.base :=
    .ofOption (by simp [fields, toData]) (fun base _ => Taxonomy.ofData_name payload base)
      fun _ _ => rfl
  have hmode : fields.Gives ⟨"mode", Taxonomy.ofData payload⟩ (some .append) spec.mode :=
    .present (by simp [fields, toData]) (Taxonomy.ofData_name payload spec.mode)
  have hrecords : fields.Gives ⟨"macros", asList .ok⟩ (some []) spec.document.records :=
    .ofList (by simp [fields, toData, document]) fun _ _ => rfl
  refine bind_eq_of_ok (record_of_passes (?passes : ∀ check ∈ _, fields.Passes check)) ?values
  case passes =>
    simp only [List.forall_mem_cons]
    exact ⟨hid.passes, hversion.passes, hdescription.passes, hbase.passes, hmode.passes,
      hrecords.passes, List.forall_mem_nil _⟩
  case values =>
    exact bind_eq_of_ok hid.withDefault <| bind_eq_of_ok hversion.withDefault <|
      bind_eq_of_ok hdescription.withDefault <| bind_eq_of_ok hbase.withDefault <|
      bind_eq_of_ok hmode.withDefault <| bind_eq_of_ok hrecords.withDefault rfl

theorem mapM_ofData_toData {records : List MacroRecord} (h : ∀ record ∈ records, record.isFinite) :
    (records.map MacroRecord.toData).mapM MacroRecord.ofData = .ok records := by
  induction records with
  | nil => rfl
  | cons record records ih =>
    obtain ⟨hrecord, hrecords⟩ := List.forall_mem_cons.mp h
    rw [List.map_cons, List.mapM_cons, MacroRecord.ofData_toData hrecord, ih hrecords]
    rfl

theorem ofData_toData (h : spec.isFinite) : ofData spec.toData = .ok spec := by
  have hspec : spec.document.toSpec = .ok spec :=
    bind_eq_of_ok (mapM_ofData_toData (List.all_eq_true.mp h)) rfl
  rw [ofData, ofDocument, document_ofData_toData]
  exact congrArg (Except.mapError CompileError.badRecord) hspec

end RuleSpec

/-- Specs, macro records, rules and rule sets whose numbers are all finite are read back from
    their data forms, and the data form of a macro record names its kind. -/
theorem data_forms_read_back :
    (∀ spec : RuleSpec, spec.isFinite → RuleSpec.ofData spec.toData = .ok spec) ∧
    (∀ record : MacroRecord, record.isFinite →
      MacroRecord.ofData record.toData = .ok record ∧
        record.toData.field? "kind" = some (.text (Taxonomy.name record.kind))) ∧
    (∀ (rule : Rule) (payload : Payload), rule.isFinite →
      Rule.ofData payload rule.toData = .ok rule) ∧
    ∀ ruleSet : RuleSet, ruleSet.isFinite → RuleSet.ofData ruleSet.toData = .ok ruleSet :=
  ⟨fun _ h => RuleSpec.ofData_toData h,
    fun record h => ⟨MacroRecord.ofData_toData h, record.field?_kind_toData⟩,
    fun _ payload h => Rule.ofData_toData payload h, fun _ h => RuleSet.ofData_toData h⟩

theorem data_forms_read_back_builtin :
    let rule : Rule := { id := "any", when := .gt (.fact "a") (.number 1) }
    let ruleSet : RuleSet := { RuleSet.empty with rules := [rule] }
    RuleSpec.ofData Builtin.spec.toData = .ok Builtin.spec ∧
      MacroRecord.ofData Builtin.broken.toData = .ok Builtin.broken ∧
      Rule.ofData .null rule.toData = .ok rule ∧ RuleSet.ofData ruleSet.toData = .ok ruleSet := by
  intro rule ruleSet
  obtain ⟨hspec, hrecord, hrule, hruleSet⟩ := data_forms_read_back
  exact ⟨hspec _ (by decide +kernel), (hrecord _ (by decide +kernel)).1,
    hrule rule .null (by decide +kernel), hruleSet ruleSet (by decide +kernel)⟩

end FactScore
