import FactScore.Proofs.Format.Records
import FactScore.Proofs.Macro.Amounts
import FactScore.Proofs.Spec.UniqueIds

/-!
# The rules that a record enumerates

A record has one rule for each of its keys, and the id of the rule tells the key
(`MacroRecord.ids`).  An id can be taken apart again: the stem is the same for all rules of a
record, and no name of a taxonomy has a dot.  So two rules of a record have one id just when a key
is listed twice (`MacroRecord.Unrepeated`), and just then the record alone is refused
(`MacroRecord.expand_enumerates`).
-/

namespace FactScore

/-- The names of the listed members of a taxonomy, or of all its members when none is listed. -/
def Taxonomy.listedNames {α : Type} [Taxonomy α] (listed : List α) : List String :=
  if listed.isEmpty then Taxonomy.names α else listed.map Taxonomy.name

namespace MacroRecord

/-- The ids of the rules of a record, in order. -/
def ids : MacroRecord → List String
  | patternScore record =>
    (Taxonomy.listedNames record.patterns).map (record.idStem ++ "." ++ ·)
  | elementMatch record =>
    (Taxonomy.listedNames record.elements).map (record.idStem ++ "." ++ ·)
  | roleElement record =>
    (Taxonomy.listedNames record.roles).flatMap fun role =>
      (Taxonomy.listedNames record.elements).map fun element =>
        record.idStem ++ "." ++ role ++ "." ++ element
  | tenGodPresence record =>
    (Taxonomy.listedNames record.tenGods).map (record.idStem ++ "." ++ ·)
  | gradeTable record =>
    ((Taxonomy.members : List Grade).filter fun grade => (record.amounts grade).isSome).map
      fun grade => record.idStem ++ "." ++ Taxonomy.name grade
  | suppression record =>
    (record.targets.filter fun target => target != record.winner).map
      (record.idStem ++ "." ++ ·)
  | penalizeWhen record => [record.id]
  | rule record => [record.id]

/-- No key is listed twice among those that a record selects. -/
def Unrepeated : MacroRecord → Prop
  | patternScore record => record.patterns.Nodup
  | elementMatch record => record.elements.Nodup
  | roleElement record => record.roles.Nodup ∧ record.elements.Nodup
  | tenGodPresence record => record.tenGods.Nodup
  | gradeTable _ => True
  | suppression record => (record.targets.filter fun target => target != record.winner).Nodup
  | penalizeWhen _ => True
  | rule _ => True

end MacroRecord

/-- Whether a kind of record has one rule for each of some keys. -/
def MacroKind.enumerates : MacroKind → Bool
  | .penalizeWhen | .rule => false
  | _ => true

namespace Taxonomy

variable {α : Type} [Taxonomy α]

theorem map_name_selectedOrAll (listed : List α) :
    (selectedOrAll listed).map name = listedNames listed := by
  cases listed <;> rfl

theorem listedNames_ne_nil {listed : List α} (h : (members : List α) ≠ []) :
    listedNames listed ≠ [] := by
  cases listed with
  | nil => exact fun hnames => h (List.map_eq_nil_iff.mp hnames)
  | cons member listed => exact List.cons_ne_nil _ _

theorem forall_mem_listedNames {p : String → Prop} (h : ∀ member : α, p (name member))
    (listed : List α) : ∀ text ∈ listedNames listed, p text := by
  rw [← map_name_selectedOrAll]
  exact List.forall_mem_map.mpr fun member _ => h member

theorem nodup_listedNames_iff [LawfulTaxonomy α] {listed : List α} :
    (listedNames listed).Nodup ↔ listed.Nodup := by
  cases listed with
  | nil => simp [listedNames, LawfulTaxonomy.nodup_names]
  | cons member listed => exact List.nodup_map_iff name_injective

end Taxonomy

/-- What is made of pairs, and tells them apart, is repeated just when a part of them is. -/
theorem nodup_flatMap_map_iff {α β γ : Type} {firsts : List α} {seconds : List β}
    {f : α → β → γ} (hfirsts : firsts ≠ []) (hseconds : seconds ≠ [])
    (hf : ∀ a ∈ firsts, ∀ b ∈ seconds, ∀ a' ∈ firsts, ∀ b' ∈ seconds,
      f a b = f a' b' → a = a' ∧ b = b') :
    (firsts.flatMap fun a => seconds.map (f a)).Nodup ↔ firsts.Nodup ∧ seconds.Nodup := by
  obtain ⟨a, ha⟩ := List.exists_mem_of_ne_nil firsts hfirsts
  obtain ⟨b, hb⟩ := List.exists_mem_of_ne_nil seconds hseconds
  rw [List.nodup_flatMap]
  constructor
  · rintro ⟨hrows, hapart⟩
    refine ⟨hapart.imp fun {x y} hdisjoint hxy => ?_, (hrows a ha).of_map⟩
    have hmem : ∀ z, f z b ∈ seconds.map (f z) := fun z => List.mem_map_of_mem hb
    exact hdisjoint (hmem x) (hxy ▸ hmem x)
  · rintro ⟨hnodup, hnodup'⟩
    refine ⟨fun x hx => hnodup'.map_on fun y hy z hz h => (hf x hx y hy x hx z hz h).2, ?_⟩
    refine hnodup.imp_of_mem fun {x y} hx hy hxy text hmem hmem' => ?_
    obtain ⟨z, hz, rfl⟩ := List.mem_map.mp hmem
    obtain ⟨z', hz', heq⟩ := List.mem_map.mp hmem'
    exact hxy (hf x hx z hz y hy z' hz' heq.symm).1

/-- Two parts without dots can be told from an id with a dot between them. -/
theorem parts_of_id_eq {stem first second first' second' : String} (hfirst : '.' ∉ first.toList)
    (hsecond : '.' ∉ second.toList)
    (h : stem ++ "." ++ first ++ "." ++ second = stem ++ "." ++ first' ++ "." ++ second') :
    first = first' ∧ second = second' := by
  have hchars : first.toList ++ '.' :: second.toList = first'.toList ++ '.' :: second'.toList := by
    simpa [String.append_assoc, ← String.toList_inj] using h
  obtain ⟨hfirst, -, hsecond⟩ := (List.append_cons_inj_of_notMem hfirst hsecond).mp hchars
  exact ⟨String.toList_inj.mp hfirst, String.toList_inj.mp hsecond⟩

theorem dotless_name_role (role : Role) : '.' ∉ (Taxonomy.name role).toList := by
  cases role <;> decide

theorem dotless_name_element (element : Element) : '.' ∉ (Taxonomy.name element).toList := by
  cases element <;> decide

/-- The grades of the rows of a table are those that it has amounts for. -/
theorem GradeTable.map_fst_rows (record : GradeTable) :
    record.rows.map Prod.fst =
      (Taxonomy.members : List Grade).filter fun grade => (record.amounts grade).isSome := by
  unfold rows
  induction (Taxonomy.members : List Grade) with
  | nil => rfl
  | cons grade grades ih =>
    cases hamount : record.amounts grade <;> simp [hamount, ih]

namespace MacroRecord

variable {record : MacroRecord}

theorem map_id_bareRules (record : MacroRecord) : record.bareRules.map Rule.id = record.ids := by
  cases record with
  | patternScore record | elementMatch record | tenGodPresence record =>
    rw [ids, ← Taxonomy.map_name_selectedOrAll, List.map_map]
    exact List.map_map
  | roleElement record =>
    rw [ids, ← Taxonomy.map_name_selectedOrAll, ← Taxonomy.map_name_selectedOrAll,
      List.flatMap_map, bareRules, RoleElement.expand, List.map_flatMap]
    refine congrArg (List.flatMap · _) (funext fun role => ?_)
    rw [List.map_map, List.map_map]
    rfl
  | gradeTable record =>
    rw [ids, ← GradeTable.map_fst_rows, List.map_map]
    exact List.map_map
  | suppression record => exact List.map_map
  | penalizeWhen record =>
    rw [bareRules, PenalizeWhen.expand_eq]
    rfl
  | rule record => rfl

theorem nodup_ids_iff : record.ids.Nodup ↔ record.Unrepeated := by
  have hstem : ∀ stem : String, Function.Injective (stem ++ "." ++ ·) :=
    fun _ _ _ => (String.append_right_inj _).mp
  cases record with
  | patternScore record | elementMatch record | tenGodPresence record =>
    exact (List.nodup_map_iff (hstem record.idStem)).trans Taxonomy.nodup_listedNames_iff
  | roleElement record =>
    have hroles : ∀ role ∈ Taxonomy.listedNames record.roles, '.' ∉ role.toList :=
      Taxonomy.forall_mem_listedNames dotless_name_role _
    have helements : ∀ element ∈ Taxonomy.listedNames record.elements, '.' ∉ element.toList :=
      Taxonomy.forall_mem_listedNames dotless_name_element _
    refine (nodup_flatMap_map_iff (Taxonomy.listedNames_ne_nil (List.cons_ne_nil _ _))
      (Taxonomy.listedNames_ne_nil (List.cons_ne_nil _ _)) ?_).trans
        (and_congr Taxonomy.nodup_listedNames_iff Taxonomy.nodup_listedNames_iff)
    intro role hrole element helement _ _ _ _
    exact parts_of_id_eq (hroles role hrole) (helements element helement)
  | gradeTable record =>
    have hgrades : (Taxonomy.members : List Grade).Nodup := by decide
    have hid : Function.Injective fun grade : Grade =>
        record.idStem ++ "." ++ Taxonomy.name grade :=
      (hstem record.idStem).comp Taxonomy.name_injective
    exact iff_of_true ((hgrades.filter _).map hid) trivial
  | suppression record => exact List.nodup_map_iff (hstem record.idStem)
  | penalizeWhen record => exact iff_of_true (List.nodup_singleton _) trivial
  | rule record => exact iff_of_true (List.nodup_singleton _) trivial

theorem map_id_expand (record : MacroRecord) : record.expand.map Rule.id = record.ids := by
  rw [ids_expand, map_id_bareRules]

/-- A rule that is made for a key scores one category. -/
theorem score_of_mem_bareRules (hkind : record.kind.enumerates) {rule : Rule}
    (h : rule ∈ record.bareRules) :
    ∃ category score, rule.score = Dict.insert .nil category score := by
  cases record with
  | patternScore record | elementMatch record | tenGodPresence record | gradeTable record
  | suppression record =>
    obtain ⟨_, _, rfl⟩ := List.mem_map.mp h
    exact ⟨_, _, rfl⟩
  | roleElement record =>
    obtain ⟨role, _, hrow⟩ := List.mem_flatMap.mp h
    obtain ⟨_, _, rfl⟩ := List.mem_map.mp hrow
    exact ⟨_, _, rfl⟩
  | penalizeWhen record => cases hkind
  | rule record => cases hkind

theorem defaultExplanation_ne_empty (kind : MacroKind) : kind.defaultExplanation ≠ "" := by
  cases kind <;> decide

theorem explain_explained_ne_empty (kind : MacroKind) (rule : Rule) :
    (Rule.explained kind rule).explain ≠ "" := by
  unfold Rule.explained
  split
  next => exact defaultExplanation_ne_empty kind
  next hexplain => exact hexplain

theorem compileRecords_alone_eq_ok_iff {rules : List Rule} :
    compileRecords [record] = .ok rules ↔ record.Unrepeated ∧ rules = record.expand := by
  rw [compileRecords_eq_ok_iff, List.flatMap_singleton, map_id_expand, firstRepeat?_eq_none_iff,
    nodup_ids_iff]

theorem compileRecords_alone_eq_error_iff {error : CompileError} :
    compileRecords [record] = .error error ↔
      ∃ id, error = .duplicateRuleId id ∧ RepeatsFirst id record.ids := by
  simp only [← firstRepeat?_eq_some_iff, compileRecords, List.flatMap_singleton, map_id_expand]
  cases firstRepeat? record.ids <;> simp [eq_comm]

/-- The rules of a record have the ids that its keys make, in the order of the keys.  The ids are
    all different just when no key is listed twice, and just then the record alone compiles, to all
    of its rules; else it is refused with the id that is the first to come a second time.  A rule
    that is made for a key scores exactly one category, and no rule is left without an
    explanation. -/
theorem expand_enumerates (record : MacroRecord) :
    record.expand.map Rule.id = record.ids ∧
    (record.ids.Nodup ↔ record.Unrepeated) ∧
    (∀ rules, compileRecords [record] = .ok rules ↔
      record.Unrepeated ∧ rules = record.expand) ∧
    (∀ error, compileRecords [record] = .error error ↔
      ∃ id, error = .duplicateRuleId id ∧ RepeatsFirst id record.ids) ∧
    (record.kind.enumerates → ∀ rule ∈ record.expand, ∃ category, rule.score.keys = [category]) ∧
    ∀ rule ∈ record.expand, rule.explain ≠ "" := by
  refine ⟨map_id_expand record, nodup_ids_iff, fun _ => compileRecords_alone_eq_ok_iff,
    fun _ => compileRecords_alone_eq_error_iff, fun hkind => ?_, ?_⟩
  · rw [expand_eq_map_explained]
    refine List.forall_mem_map.mpr fun rule hrule => ?_
    obtain ⟨category, score, hscore⟩ := score_of_mem_bareRules hkind hrule
    refine ⟨category, ?_⟩
    change rule.score.keys = [category]
    rw [hscore]
    rfl
  · rw [expand_eq_map_explained]
    exact List.forall_mem_map.mpr fun rule _ => explain_explained_ne_empty record.kind rule

end MacroRecord

/-- A record that ranges over one role and two elements, the first of which is listed again. -/
def repeatingRecord : MacroRecord := .roleElement {
  idStem := "role.v1"
  score := .constant 2
  roles := [.yongsin]
  elements := [.wood, .fire, .wood] }

/-- The rules are all there, each scores one category, and the record is refused for the rule that
    comes a second time. -/
theorem expand_enumerates_repeatingRecord :
    repeatingRecord.expand.map Rule.id =
      ["role.v1.yongsin.wood", "role.v1.yongsin.fire", "role.v1.yongsin.wood"] ∧
    compileRecords [repeatingRecord] = .error (.duplicateRuleId "role.v1.yongsin.wood") ∧
    ∀ rule ∈ repeatingRecord.expand, ∃ category, rule.score.keys = [category] := by
  obtain ⟨hids, _, _, herror, hscore, _⟩ := MacroRecord.expand_enumerates repeatingRecord
  have hlisted : repeatingRecord.ids =
      ["role.v1.yongsin.wood", "role.v1.yongsin.fire", "role.v1.yongsin.wood"] := by
    decide
  refine ⟨hids.trans hlisted, (herror _).mpr ⟨_, rfl, ?_⟩, hscore rfl⟩
  rw [hlisted]
  exact ⟨["role.v1.yongsin.wood", "role.v1.yongsin.fire"], [], rfl, by decide, by decide⟩

end FactScore
