import FactScore.Macro.Format
import FactScore.Proofs.Format.Rules

/-!
# The data form of macro records

A macro record whose numbers are all finite is read back from its data form, by way of the kind
that stands in it (`MacroRecord.ofData_toData`).  Each kind is a list of fields, and for each field
it is said once under which name it is written and what it then gives; the kinds that score a
taxonomy share the fields of `ScoredFamily`.
-/

namespace FactScore

open Data

instance : LawfulTaxonomy Element where
  mem_members element := by cases element <;> decide
  nodup_names := by decide

instance : LawfulTaxonomy TenGod where
  mem_members tenGod := by cases tenGod <;> decide
  nodup_names := by decide

instance : LawfulTaxonomy Role where
  mem_members role := by cases role <;> decide
  nodup_names := by decide

instance : LawfulTaxonomy Pattern where
  mem_members pattern := by cases pattern <;> decide
  nodup_names := by decide

instance : LawfulTaxonomy Grade where
  mem_members grade := by cases grade <;> decide
  nodup_names := by decide

instance : LawfulTaxonomy MacroKind where
  mem_members kind := by cases kind <;> decide
  nodup_names := by decide

namespace ScoreSpec

/-- Whether the amount of a score is finite. -/
def isFinite : ScoreSpec → Bool
  | .constant amount => amount.isFinite
  | .scaled base _ => base.isFinite

theorem ofData_toData {spec : ScoreSpec} (h : spec.isFinite) : ofData spec.toData = .ok spec := by
  cases spec with
  | constant amount =>
    rw [isFinite] at h
    rw [toData, Value.numberData_of_isFinite h]
    rfl
  | scaled base scaleBy =>
    rw [isFinite] at h
    simp [toData, ofFields, ofData, asNumber_numberData h]
    rfl

end ScoreSpec

namespace QualityGate

/-- Whether the minimums of a gate are finite. -/
def isFinite (gate : QualityGate) : Bool :=
  gate.minConfidence.all Float.isFinite && gate.minClarity.all Float.isFinite &&
    gate.minIntegrity.all Float.isFinite

theorem ofData_toData {gate : QualityGate} (payload : Payload) (h : gate.isFinite) :
    ofData payload gate.toData = .ok gate := by
  simp only [isFinite, Bool.and_eq_true, Option.all_eq_true] at h
  obtain ⟨⟨hconfidence, hclarity⟩, hintegrity⟩ := h
  let fields := Fields.of gate.toData
  have hpath : fields.Gives ⟨"path", orNull asText⟩ (some none) gate.path :=
    .ofTextOption (by simp [fields, toData])
  have hconfidence : fields.Gives ⟨"min_confidence", orNull asNumber⟩ (some none)
      gate.minConfidence :=
    .ofNumberOption (by simp [fields, toData]) hconfidence
  have hclarity : fields.Gives ⟨"min_clarity", orNull asNumber⟩ (some none) gate.minClarity :=
    .ofNumberOption (by simp [fields, toData]) hclarity
  have hintegrity : fields.Gives ⟨"min_integrity", orNull asNumber⟩ (some none)
      gate.minIntegrity :=
    .ofNumberOption (by simp [fields, toData]) hintegrity
  have hbroken : fields.Gives ⟨"forbid_broken", asBool⟩ (some false) gate.forbidBroken :=
    .ofBool (by simp [fields, toData])
  have hmixed : fields.Gives ⟨"forbid_mixed", asBool⟩ (some false) gate.forbidMixed :=
    .ofBool (by simp [fields, toData])
  have hgrade : fields.Gives ⟨"required_grade", orNull (Taxonomy.ofData payload)⟩ (some none)
      gate.requiredGrade :=
    .ofOption (by simp [fields, toData]) (fun grade _ => Taxonomy.ofData_name payload grade)
      fun _ _ => rfl
  refine bind_eq_of_ok (record_of_passes (?passes : ∀ check ∈ _, fields.Passes check)) ?values
  case passes =>
    simp only [List.forall_mem_cons]
    exact ⟨hpath.passes, hconfidence.passes, hclarity.passes, hintegrity.passes, hbroken.passes,
      hmixed.passes, hgrade.passes, List.forall_mem_nil _⟩
  case values =>
    exact bind_eq_of_ok hpath.withDefault <| bind_eq_of_ok hconfidence.withDefault <|
      bind_eq_of_ok hclarity.withDefault <| bind_eq_of_ok hintegrity.withDefault <|
      bind_eq_of_ok hbroken.withDefault <| bind_eq_of_ok hmixed.withDefault <|
      bind_eq_of_ok hgrade.withDefault rfl

end QualityGate

namespace ScoredFamily

/-- Whether the numbers of a family are finite. -/
def isFinite (family : ScoredFamily) : Bool :=
  family.score.isFinite && family.quality.isFinite && family.when.all Expr.isFinite

/-- Fields with the members of a family, whatever else they have, give the family back. -/
theorem ofFields_of_members {fields : Fields} {family : ScoredFamily} (category : String)
    (h : family.isFinite)
    (hfind : ∀ name ∈ checks.map Check.name,
      fields.find? name = (Dict.ofList family.members).find? name) :
    (∀ check ∈ checks, fields.Passes check) ∧ ofFields fields category = .ok family := by
  simp only [isFinite, Bool.and_eq_true, Option.all_eq_true] at h
  obtain ⟨⟨hscoreFinite, hqualityFinite⟩, hwhenFinite⟩ := h
  simp [checks, members, RecordField.check] at hfind
  obtain ⟨hid, hcategory, hscore, hquality, hwhen, hexplain, htags⟩ := hfind
  let names : FamilyFields := {}
  have hid : fields.Gives names.idStem none family.idStem := .ofText hid
  have hcategory : fields.Gives names.category (some category) family.category :=
    .ofText hcategory
  have hscore : fields.Gives names.score none family.score :=
    .present hscore (ScoreSpec.ofData_toData hscoreFinite)
  have hquality : fields.Gives names.quality (some {}) family.quality :=
    .present hquality (QualityGate.ofData_toData _ hqualityFinite)
  have hwhen : fields.Gives names.when (some none) family.when :=
    .ofOption hwhen (fun e he => Expr.ofData_toData (hwhenFinite e he)) fun e _ => e.isNull_toData
  have hexplain : fields.Gives names.explain (some "") family.explain := .ofText hexplain
  have htags : fields.Gives names.tags (some []) family.tags := .ofTexts htags
  constructor
  · simp only [checks, List.forall_mem_cons]
    exact ⟨hid.passes, hcategory.passes, hscore.passes, hquality.passes, hwhen.passes,
      hexplain.passes, htags.passes, List.forall_mem_nil _⟩
  · exact bind_eq_of_ok hid.required <| bind_eq_of_ok hcategory.withDefault <|
      bind_eq_of_ok hscore.required <| bind_eq_of_ok hquality.withDefault <|
      bind_eq_of_ok hwhen.withDefault <| bind_eq_of_ok hexplain.withDefault <|
      bind_eq_of_ok htags.withDefault rfl

end ScoredFamily

/-- A list of members of a taxonomy that is only written when it is not empty. -/
theorem Data.Fields.Gives.ofMembers {α : Type} [Taxonomy α] [LawfulTaxonomy α] {fields : Fields}
    {name : String} {members : List α} (hfind : fields.find? name = membersData members) :
    fields.Gives ⟨name, asMembers⟩ (some []) members :=
  .ofItems hfind fun member _ => Taxonomy.ofData_name _ member

/-! ## Each kind

Beside its own members a record has its kind, which none of its fields asks for. -/

namespace PatternScore

theorem ofData_ofFields {record : PatternScore} (kind : Data) (h : record.isFinite) :
    ofData (.ofFields (("kind", kind) :: record.members)) = .ok record := by
  let fields := Fields.of (.ofFields (("kind", kind) :: record.members))
  -- no other member has the name of a field of the family
  have hfind : ∀ name ∈ ScoredFamily.checks.map Check.name,
      fields.find? name = (Dict.ofList record.toScoredFamily.members).find? name := by
    simp [fields, members, ScoredFamily.checks, RecordField.check]
  obtain ⟨hfamilyPasses, hfamily⟩ := ScoredFamily.ofFields_of_members "{pattern}" h hfind
  have hpath : fields.Gives ⟨"pattern_path", asText⟩ (some "month.gyeok.pattern")
      record.patternPath :=
    .ofText (by simp [fields, members, ScoredFamily.members])
  have hpatterns : fields.Gives ⟨"patterns", asMembers⟩ (some []) record.patterns :=
    .ofMembers (by simp [fields, members, ScoredFamily.members])
  refine bind_eq_of_ok (record_of_passes (?passes : ∀ check ∈ _, fields.Passes check)) ?values
  case passes =>
    simp only [List.forall_mem_append, List.forall_mem_cons]
    exact ⟨hfamilyPasses, hpath.passes, hpatterns.passes, List.forall_mem_nil _⟩
  case values =>
    exact bind_eq_of_ok hfamily <| bind_eq_of_ok hpath.withDefault <|
      bind_eq_of_ok hpatterns.withDefault rfl

end PatternScore

namespace ElementMatch

theorem ofData_ofFields {record : ElementMatch} (kind : Data) (h : record.isFinite) :
    ofData (.ofFields (("kind", kind) :: record.members)) = .ok record := by
  let fields := Fields.of (.ofFields (("kind", kind) :: record.members))
  have hfind : ∀ name ∈ ScoredFamily.checks.map Check.name,
      fields.find? name = (Dict.ofList record.toScoredFamily.members).find? name := by
    simp [fields, members, ScoredFamily.checks, RecordField.check]
  obtain ⟨hfamilyPasses, hfamily⟩ := ScoredFamily.ofFields_of_members "element.{element}" h hfind
  have hpath : fields.Gives ⟨"element_path", asText⟩ (some "month.gyeok.element")
      record.elementPath :=
    .ofText (by simp [fields, members, ScoredFamily.members])
  have helements : fields.Gives ⟨"elements", asMembers⟩ (some []) record.elements :=
    .ofMembers (by simp [fields, members, ScoredFamily.members])
  refine bind_eq_of_ok (record_of_passes (?passes : ∀ check ∈ _, fields.Passes check)) ?values
  case passes =>
    simp only [List.forall_mem_append, List.forall_mem_cons]
    exact ⟨hfamilyPasses, hpath.passes, helements.passes, List.forall_mem_nil _⟩
  case values =>
    exact bind_eq_of_ok hfamily <| bind_eq_of_ok hpath.withDefault <|
      bind_eq_of_ok helements.withDefault rfl

end ElementMatch

namespace RoleElement

theorem ofData_ofFields {record : RoleElement} (kind : Data) (h : record.isFinite) :
    ofData (.ofFields (("kind", kind) :: record.members)) = .ok record := by
  let fields := Fields.of (.ofFields (("kind", kind) :: record.members))
  have hfind : ∀ name ∈ ScoredFamily.checks.map Check.name,
      fields.find? name = (Dict.ofList record.toScoredFamily.members).find? name := by
    simp [fields, members, ScoredFamily.checks, RecordField.check]
  obtain ⟨hfamilyPasses, hfamily⟩ := ScoredFamily.ofFields_of_members "{role}.{element}" h hfind
  have hpath : fields.Gives ⟨"role_path", asText⟩ (some "roles.{role}") record.rolePath :=
    .ofText (by simp [fields, members, ScoredFamily.members])
  have hroles : fields.Gives ⟨"roles", asMembers⟩ (some []) record.roles :=
    .ofMembers (by simp [fields, members, ScoredFamily.members])
  have helements : fields.Gives ⟨"elements", asMembers⟩ (some []) record.elements :=
    .ofMembers (by simp [fields, members, ScoredFamily.members])
  refine bind_eq_of_ok (record_of_passes (?passes : ∀ check ∈ _, fields.Passes check)) ?values
  case passes =>
    simp only [List.forall_mem_append, List.forall_mem_cons]
    exact ⟨hfamilyPasses, hpath.passes, hroles.passes, helements.passes, List.forall_mem_nil _⟩
  case values =>
    exact bind_eq_of_ok hfamily <| bind_eq_of_ok hpath.withDefault <|
      bind_eq_of_ok hroles.withDefault <| bind_eq_of_ok helements.withDefault rfl

end RoleElement

namespace TenGodPresence

/-- Whether the numbers of a record are finite. -/
def isFinite (record : TenGodPresence) : Bool :=
  record.toScoredFamily.isFinite && record.min.isFinite

theorem ofData_ofFields {record : TenGodPresence} (kind : Data) (h : record.isFinite) :
    ofData (.ofFields (("kind", kind) :: record.members)) = .ok record := by
  obtain ⟨hfamilyFinite, hminFinite⟩ := Bool.and_eq_true_iff.mp h
  let fields := Fields.of (.ofFields (("kind", kind) :: record.members))
  have hfind : ∀ name ∈ ScoredFamily.checks.map Check.name,
      fields.find? name = (Dict.ofList record.toScoredFamily.members).find? name := by
    simp [fields, members, ScoredFamily.checks, RecordField.check]
  obtain ⟨hfamilyPasses, hfamily⟩ :=
    ScoredFamily.ofFields_of_members "{ten_god}" hfamilyFinite hfind
  have hpath : fields.Gives ⟨"path", asText⟩ (some "ten_gods.{ten_god}.count") record.path :=
    .ofText (by simp [fields, members, ScoredFamily.members])
  have hmin : fields.Gives ⟨"min", asNumber⟩ (some 0) record.min :=
    .ofNumber (by simp [fields, members, ScoredFamily.members]) hminFinite
  have htenGods : fields.Gives ⟨"ten_gods", asMembers⟩ (some []) record.tenGods :=
    .ofMembers (by simp [fields, members, ScoredFamily.members])
  refine bind_eq_of_ok (record_of_passes (?passes : ∀ check ∈ _, fields.Passes check)) ?values
  case passes =>
    simp only [List.forall_mem_append, List.forall_mem_cons]
    exact ⟨hfamilyPasses, hpath.passes, hmin.passes, htenGods.passes, List.forall_mem_nil _⟩
  case values =>
    exact bind_eq_of_ok hfamily <| bind_eq_of_ok hpath.withDefault <|
      bind_eq_of_ok hmin.withDefault <| bind_eq_of_ok htenGods.withDefault rfl

end TenGodPresence

namespace GradeTable

/-- Whether the numbers of a table are finite. -/
def isFinite (record : GradeTable) : Bool :=
  (Taxonomy.members : List Grade).all (fun grade => (record.amounts grade).all Float.isFinite) &&
    record.when.all Expr.isFinite

/-- Amounts by the names of the grades that have one. -/
def amountPairs (amounts : Grade → Option Float) : List (String × Float) :=
  (Taxonomy.members : List Grade).filterMap fun grade =>
    (amounts grade).map fun amount => (Taxonomy.name grade, amount)

theorem amountsData_eq (amounts : Grade → Option Float) :
    amountsData amounts = .map ((Dict.ofList (amountPairs amounts)).map Value.numberData) := by
  rw [amountsData, Data.ofFields, ← Dict.ofList_map, amountPairs, List.map_filterMap]
  simp [Option.map_map, Function.comp_def]

theorem find?_amountPairs (amounts : Grade → Option Float) (grade : Grade) :
    (Dict.ofList (amountPairs amounts)).find? (Taxonomy.name grade) = amounts grade :=
  Taxonomy.find?_ofList_filterMap amounts (LawfulTaxonomy.mem_members grade)

theorem asAmounts_amountsData {amounts : Grade → Option Float}
    (h : ∀ grade, ∀ amount ∈ amounts grade, amount.isFinite) :
    asAmounts (amountsData amounts) = .ok amounts := by
  have hpair : ∀ pair ∈ (Dict.ofList (amountPairs amounts)).toList,
      pair.1 ∈ Taxonomy.names Grade ∧ pair.2.isFinite := by
    rintro ⟨key, amount⟩ hentry
    have hlisted := Dict.mem_of_find?_ofList (Entries.find?_of_mem_toList hentry)
    obtain ⟨grade, hgrade, hamount⟩ := List.mem_filterMap.mp hlisted
    obtain ⟨amount', hamount', heq⟩ := Option.map_eq_some_iff.mp hamount
    cases heq
    exact ⟨List.mem_map_of_mem hgrade, h grade amount hamount'⟩
  have hread : asDict asNumber (amountsData amounts) = .ok (Dict.ofList (amountPairs amounts)) := by
    rw [amountsData_eq]
    refine readEntries_map fun amount hamount => asNumber_numberData ?_
    obtain ⟨pair, hmem, rfl⟩ := List.mem_map.mp hamount
    exact (hpair pair hmem).2
  have hkeys : (Dict.ofList (amountPairs amounts)).keys.all
      (fun key => (Taxonomy.names Grade).contains key) = true := by
    rw [List.all_eq_true]
    intro key hkey
    obtain ⟨pair, hmem, rfl⟩ := List.mem_map.mp hkey
    exact List.contains_iff_mem.mpr (hpair pair hmem).1
  refine bind_eq_of_ok hread ?_
  rw [if_pos hkeys]
  exact congrArg _ (funext (find?_amountPairs amounts))

theorem ofData_ofFields {record : GradeTable} (kind : Data) (h : record.isFinite) :
    ofData (.ofFields (("kind", kind) :: record.members)) = .ok record := by
  simp only [isFinite, Bool.and_eq_true, List.all_eq_true, Option.all_eq_true] at h
  obtain ⟨hamountsFinite, hwhenFinite⟩ := h
  let fields := Fields.of (.ofFields (("kind", kind) :: record.members))
  let names : FamilyFields := {}
  have hid : fields.Gives names.idStem none record.idStem :=
    .ofText (by simp [fields, members])
  have hpath : fields.Gives ⟨"grade_path", asText⟩ (some "month.gyeok.quality.grade")
      record.gradePath :=
    .ofText (by simp [fields, members])
  have hcategory : fields.Gives names.category none record.category :=
    .ofText (by simp [fields, members])
  have hamounts : fields.Gives ⟨"amounts", asAmounts⟩ none record.amounts :=
    .present (by simp [fields, members]) <| asAmounts_amountsData fun grade =>
      hamountsFinite grade (LawfulTaxonomy.mem_members grade)
  have hwhen : fields.Gives names.when (some none) record.when :=
    .ofOption (by simp [fields, members]) (fun e he => Expr.ofData_toData (hwhenFinite e he))
      fun e _ => e.isNull_toData
  have hexplain : fields.Gives names.explain (some "") record.explain :=
    .ofText (by simp [fields, members])
  have htags : fields.Gives names.tags (some []) record.tags :=
    .ofTexts (by simp [fields, members])
  refine bind_eq_of_ok (record_of_passes (?passes : ∀ check ∈ _, fields.Passes check)) ?values
  case passes =>
    simp only [List.forall_mem_cons]
    exact ⟨hid.passes, hpath.passes, hcategory.passes, hamounts.passes, hwhen.passes,
      hexplain.passes, htags.passes, List.forall_mem_nil _⟩
  case values =>
    exact bind_eq_of_ok hid.required <| bind_eq_of_ok hpath.withDefault <|
      bind_eq_of_ok hcategory.required <| bind_eq_of_ok hamounts.required <|
      bind_eq_of_ok hwhen.withDefault <| bind_eq_of_ok hexplain.withDefault <|
      bind_eq_of_ok htags.withDefault rfl

end GradeTable

namespace Suppression

/-- Whether the numbers of a record are finite. -/
def isFinite (record : Suppression) : Bool :=
  record.threshold.isFinite && record.weight.isFinite && record.quality.isFinite

theorem ofData_ofFields {record : Suppression} (kind : Data) (h : record.isFinite) :
    ofData (.ofFields (("kind", kind) :: record.members)) = .ok record := by
  simp only [isFinite, Bool.and_eq_true] at h
  obtain ⟨⟨hthresholdFinite, hweightFinite⟩, hqualityFinite⟩ := h
  let fields := Fields.of (.ofFields (("kind", kind) :: record.members))
  let names : FamilyFields := {}
  have hid : fields.Gives names.idStem none record.idStem :=
    .ofText (by simp [fields, members])
  have hwinner : fields.Gives ⟨"winner", asText⟩ none record.winner :=
    .ofText (by simp [fields, members])
  have hpath : fields.Gives ⟨"strength_path", asText⟩ (some "patterns.{winner}.strength")
      record.strengthPath :=
    .ofText (by simp [fields, members])
  have hthreshold : fields.Gives ⟨"threshold", asNumber⟩ none record.threshold :=
    .ofNumber (by simp [fields, members]) hthresholdFinite
  have htargets : fields.Gives ⟨"targets", asList asText⟩ none record.targets :=
    .ofTextList (by simp [fields, members])
  have hweight : fields.Gives ⟨"weight", asNumber⟩ (some 1) record.weight :=
    .ofNumber (by simp [fields, members]) hweightFinite
  have hquality : fields.Gives names.quality (some {}) record.quality :=
    .present (by simp [fields, names, members]) (QualityGate.ofData_toData _ hqualityFinite)
  have hexplain : fields.Gives names.explain (some "") record.explain :=
    .ofText (by simp [fields, members])
  have htags : fields.Gives names.tags (some []) record.tags :=
    .ofTexts (by simp [fields, members])
  refine bind_eq_of_ok (record_of_passes (?passes : ∀ check ∈ _, fields.Passes check)) ?values
  case passes =>
    simp only [List.forall_mem_cons]
    exact ⟨hid.passes, hwinner.passes, hpath.passes, hthreshold.passes, htargets.passes,
      hweight.passes, hquality.passes, hexplain.passes, htags.passes, List.forall_mem_nil _⟩
  case values =>
    exact bind_eq_of_ok hid.required <| bind_eq_of_ok hwinner.required <|
      bind_eq_of_ok hpath.withDefault <| bind_eq_of_ok hthreshold.required <|
      bind_eq_of_ok htargets.required <| bind_eq_of_ok hweight.withDefault <|
      bind_eq_of_ok hquality.withDefault <| bind_eq_of_ok hexplain.withDefault <|
      bind_eq_of_ok htags.withDefault rfl

end Suppression

namespace PenalizeWhen

/-- Whether the numbers of a record are finite. -/
def isFinite (record : PenalizeWhen) : Bool :=
  record.when.isFinite && record.amount.isFinite

theorem ofData_ofFields {record : PenalizeWhen} (kind : Data) (h : record.isFinite) :
    ofData (.ofFields (("kind", kind) :: record.members)) = .ok record := by
  obtain ⟨hwhenFinite, hamountFinite⟩ := Bool.and_eq_true_iff.mp h
  let fields := Fields.of (.ofFields (("kind", kind) :: record.members))
  let names : FamilyFields := {}
  have hid : fields.Gives ⟨"id", asText⟩ none record.id :=
    .ofText (by simp [fields, members])
  have hgate : fields.Gives ⟨"when", Expr.ofData .nullOrEmpty⟩ none record.when :=
    .present (by simp [fields, members]) (Expr.ofData_toData hwhenFinite)
  have hcategories : fields.Gives ⟨"categories", asList asText⟩ none record.categories :=
    .ofTextList (by simp [fields, members])
  have hamount : fields.Gives ⟨"amount", asNumber⟩ none record.amount :=
    .ofNumber (by simp [fields, members]) hamountFinite
  have hscaleBy : fields.Gives ⟨"scale_by", orNull asText⟩ (some none) record.scaleBy :=
    .ofTextOption (by simp [fields, members])
  have hexplain : fields.Gives names.explain (some "") record.explain :=
    .ofText (by simp [fields, members])
  have htags : fields.Gives names.tags (some []) record.tags :=
    .ofTexts (by simp [fields, members])
  refine bind_eq_of_ok (record_of_passes (?passes : ∀ check ∈ _, fields.Passes check)) ?values
  case passes =>
    simp only [List.forall_mem_cons]
    exact ⟨hid.passes, hgate.passes, hcategories.passes, hamount.passes, hscaleBy.passes,
      hexplain.passes, htags.passes, List.forall_mem_nil _⟩
  case values =>
    exact bind_eq_of_ok hid.required <| bind_eq_of_ok hgate.required <|
      bind_eq_of_ok hcategories.required <| bind_eq_of_ok hamount.required <|
      bind_eq_of_ok hscaleBy.withDefault <| bind_eq_of_ok hexplain.withDefault <|
      bind_eq_of_ok htags.withDefault rfl

end PenalizeWhen

namespace MacroRecord

/-- Whether the numbers of a record are finite. -/
def isFinite : MacroRecord → Bool
  | patternScore record => record.isFinite
  | elementMatch record => record.isFinite
  | roleElement record => record.isFinite
  | tenGodPresence record => record.isFinite
  | gradeTable record => record.isFinite
  | suppression record => record.isFinite
  | penalizeWhen record => record.isFinite
  | rule record => record.isFinite

/-- The only member that is called `kind` names the kind. -/
theorem field?_kind_toData (record : MacroRecord) :
    record.toData.field? "kind" = some (.text (Taxonomy.name record.kind)) := by
  have hmembers : (Dict.ofList record.members).find? "kind" = none := by
    cases record with
    | patternScore record =>
      simp [members, PatternScore.members, ScoredFamily.members]
    | elementMatch record =>
      simp [members, ElementMatch.members, ScoredFamily.members]
    | roleElement record =>
      simp [members, RoleElement.members, ScoredFamily.members]
    | tenGodPresence record =>
      simp [members, TenGodPresence.members, ScoredFamily.members]
    | gradeTable record => simp [members, GradeTable.members]
    | suppression record => simp [members, Suppression.members]
    | penalizeWhen record => simp [members, PenalizeWhen.members]
    | rule record => simp [members, Rule.members]
  change (Dict.ofList (("kind", Data.text (Taxonomy.name record.kind)) :: record.members)).find?
    "kind" = _
  rw [Dict.find?_ofList_cons, hmembers]
  rfl

theorem ofKind_toData {record : MacroRecord} (h : record.isFinite) :
    ofKind record.toData record.kind = .ok record := by
  cases record with
  | patternScore record => exact bind_eq_of_ok (PatternScore.ofData_ofFields _ h) rfl
  | elementMatch record => exact bind_eq_of_ok (ElementMatch.ofData_ofFields _ h) rfl
  | roleElement record => exact bind_eq_of_ok (RoleElement.ofData_ofFields _ h) rfl
  | tenGodPresence record => exact bind_eq_of_ok (TenGodPresence.ofData_ofFields _ h) rfl
  | gradeTable record => exact bind_eq_of_ok (GradeTable.ofData_ofFields _ h) rfl
  | suppression record => exact bind_eq_of_ok (Suppression.ofData_ofFields _ h) rfl
  | penalizeWhen record => exact bind_eq_of_ok (PenalizeWhen.ofData_ofFields _ h) rfl
  | rule record => exact bind_eq_of_ok (Rule.ofData_ofFields _ (some _) h) rfl

theorem ofData_toData {record : MacroRecord} (h : record.isFinite) :
    ofData record.toData = .ok record := by
  rw [ofData, field?_kind_toData]
  simp only [Taxonomy.ofName?_name, ofKind_toData h]
  rfl

end MacroRecord

end FactScore
