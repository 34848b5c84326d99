import FactScore.Spec.Builtin
import Mathlib.Data.List.Induction

/-!
# Composition of rule specs

What a sequence of specs folds to, said at once instead of spec by spec (`RuleSpec.Layered`).  The
last spec that replaces, or else the base, is the core of the rules.  What is prepended later
stands before the core, the last first, and what is appended later stands after it.  Ids and
versions are the last that are given, and descriptions are joined line by line
(`RuleSpec.layered_of_compose`).
-/

namespace FactScore

/-- Texts joined line by line, if there are any. -/
def joinLines? : List String → Option String
  | [] => none
  | lines => some ("\n".intercalate lines)

theorem joinLines?_concat (lines : List String) (last : String) :
    joinLines? (lines ++ [last]) =
      match joinLines? lines with
      | some before => some (before ++ "\n" ++ last)
      | none => some last := by
  cases lines with
  | nil => simp [joinLines?]
  | cons line lines =>
    have happend : "\n".intercalate (line :: lines ++ [last]) =
        "\n".intercalate (line :: lines) ++ "\n" ++ "\n".intercalate [last] :=
      String.intercalate_append_of_ne_nil (by simp) (by simp)
    rw [String.intercalate_singleton] at happend
    exact congrArg some happend

theorem compileRecords_eq_ok_iff {records : List MacroRecord} {rules : List Rule} :
    compileRecords records = .ok rules ↔
      firstRepeat? ((records.flatMap MacroRecord.expand).map Rule.id) = none ∧
        rules = records.flatMap MacroRecord.expand := by
  simp only [compileRecords]
  cases firstRepeat? ((records.flatMap MacroRecord.expand).map Rule.id) with
  | none => simp [eq_comm]
  | some id => simp

/-- The ids of the rules of a record do not depend on their explanations. -/
theorem MacroRecord.ids_expand (record : MacroRecord) :
    record.expand.map Rule.id = record.bareRules.map Rule.id := by
  rw [expand, List.map_map]
  refine List.map_congr_left fun rule _ => ?_
  simp only [Function.comp_apply]
  split <;> rfl

namespace RuleSpec

/-- The rules that a spec itself declares. -/
def ownRules (spec : RuleSpec) : List Rule :=
  spec.records.flatMap MacroRecord.expand

/-- The rules of the specs that prepend, those of the last spec first. -/
def prependedRules (specs : List RuleSpec) : List Rule :=
  (specs.filter fun spec => spec.mode = .prepend).reverse.flatMap ownRules

/-- The rules of the specs that append, in order. -/
def appendedRules (specs : List RuleSpec) : List Rule :=
  (specs.filter fun spec => spec.mode = .append).flatMap ownRules

/-- What specs over a base compose to. -/
structure Layered (base : RuleSet) (specs : List RuleSpec) (composed : RuleSet) : Prop where
  /-- The rules of each spec have no repeated id. -/
  compiled : ∀ spec ∈ specs, compileRecords spec.records = .ok spec.ownRules
  /-- If no spec replaces, the rules of the base are the core. -/
  rules_of_none_replaces : (∀ spec ∈ specs, spec.mode ≠ .replace) →
    composed.rules = prependedRules specs ++ base.rules ++ appendedRules specs
  /-- Otherwise the rules of the last spec that replaces are, and only later specs count. -/
  rules_of_last_replaces : ∀ before last after, specs = before ++ last :: after →
    last.mode = .replace → (∀ spec ∈ after, spec.mode ≠ .replace) →
    composed.rules = prependedRules after ++ last.ownRules ++ appendedRules after
  id_eq : composed.id = (specs.filterMap RuleSpec.id).getLast?.getD base.id
  version_eq : composed.version = (specs.filterMap RuleSpec.version).getLast?.getD base.version
  description_eq : composed.description =
    joinLines? (base.description.toList ++ specs.filterMap RuleSpec.description)

/-- A rule set with the rules of a spec merged into it. -/
def absorb (ruleSet : RuleSet) (spec : RuleSpec) : RuleSet :=
  { describe ruleSet spec with rules := spec.mode.merge ruleSet.rules spec.ownRules }

section

variable {base composed : RuleSet} {specs : List RuleSpec} {spec : RuleSpec}

/-- Folding in a spec absorbs it, unless its own rules do not compile. -/
theorem foldInto_eq (base : RuleSet) (spec : RuleSpec) :
    foldInto base spec = (compileRecords spec.records).map fun _ => absorb base spec := by
  unfold foldInto
  cases hcompile : compileRecords spec.records with
  | error error => rfl
  | ok rules =>
    obtain rfl : rules = spec.ownRules := (compileRecords_eq_ok_iff.mp hcompile).2
    rfl

theorem foldlM_foldInto_eq_ok_iff : specs.foldlM foldInto base = .ok composed ↔
    (∀ spec ∈ specs, compileRecords spec.records = .ok spec.ownRules) ∧
      composed = specs.foldl absorb base := by
  induction specs generalizing base with
  | nil => simp [pure, Except.pure, eq_comm]
  | cons spec specs ih =>
    rw [List.foldlM_cons, foldInto_eq, List.foldl_cons, List.forall_mem_cons]
    cases hcompile : compileRecords spec.records with
    | error error => simp [bind, Except.bind, Except.map]
    | ok rules =>
      obtain rfl : rules = spec.ownRules := (compileRecords_eq_ok_iff.mp hcompile).2
      change specs.foldlM foldInto (absorb base spec) = _ ↔ _
      simp [ih]

/-- Specs none of which replaces put their rules around those of the base. -/
theorem rules_foldl_absorb (h : ∀ spec ∈ specs, spec.mode ≠ .replace) :
    (specs.foldl absorb base).rules =
      prependedRules specs ++ base.rules ++ appendedRules specs := by
  induction specs using List.reverseRecOn with
  | nil => simp [prependedRules, appendedRules]
  | append_singleton specs last ih =>
    have hspecs := ih fun spec hspec => h spec (List.mem_append_left _ hspec)
    have hlast := h last (by simp)
    rw [List.foldl_append, List.foldl_cons, List.foldl_nil, absorb, hspecs]
    cases hmode : last.mode with
    | append => simp [MergeMode.merge, prependedRules, appendedRules, hmode]
    | prepend => simp [MergeMode.merge, prependedRules, appendedRules, hmode]
    | replace => exact absurd hmode hlast

theorem id_foldl_absorb :
    (specs.foldl absorb base).id = (specs.filterMap RuleSpec.id).getLast?.getD base.id := by
  induction specs using List.reverseRecOn with
  | nil => rfl
  | append_singleton specs last ih =>
    rw [List.foldl_append, List.foldl_cons, List.foldl_nil, List.filterMap_append]
    change last.id.getD (specs.foldl absorb base).id = _
    cases hid : last.id <;> simp [ih, hid]

theorem version_foldl_absorb : (specs.foldl absorb base).version =
    (specs.filterMap RuleSpec.version).getLast?.getD base.version := by
  induction specs using List.reverseRecOn with
  | nil => rfl
  | append_singleton specs last ih =>
    rw [List.foldl_append, List.foldl_cons, List.foldl_nil, List.filterMap_append]
    change last.version.getD (specs.foldl absorb base).version = _
    cases hversion : last.version <;> simp [ih, hversion]

theorem description_foldl_absorb : (specs.foldl absorb base).description =
    joinLines? (base.description.toList ++ specs.filterMap RuleSpec.description) := by
  induction specs using List.reverseRecOn with
  | nil => cases hbase : base.description <;> simp [joinLines?, hbase]
  | append_singleton specs last ih =>
    rw [List.foldl_append, List.foldl_cons, List.foldl_nil, List.filterMap_append,
      ← List.append_assoc]
    simp only [absorb, describe, ih]
    cases hlast : last.description with
    | none => simp [hlast]
    | some line =>
      simp only [hlast, List.filterMap_cons, List.filterMap_nil, joinLines?_concat]
      cases joinLines? (base.description.toList ++ specs.filterMap RuleSpec.description) <;> rfl

theorem composeOnto_eq_ok_iff : composeOnto base specs = .ok composed ↔
    specs.foldlM foldInto base = .ok composed ∧ composed.repeatedId? = none := by
  unfold composeOnto
  cases specs.foldlM foldInto base with
  | error error => simp [bind, Except.bind]
  | ok folded =>
    cases hrepeat : folded.repeatedId? with
    | none =>
      simp only [bind, Except.bind, pure, Except.pure, hrepeat, Except.ok.injEq]
      refine ⟨fun h => ⟨h, h ▸ hrepeat⟩, fun h => h.1⟩
    | some id =>
      simp only [bind, Except.bind, hrepeat, reduceCtorEq, Except.ok.injEq, false_iff]
      rintro ⟨rfl, hnone⟩
      rw [hrepeat] at hnone
      cases hnone

theorem layered_of_composeOnto (h : composeOnto base specs = .ok composed) :
    Layered base specs composed := by
  obtain ⟨hcompiled, rfl⟩ := foldlM_foldInto_eq_ok_iff.mp (composeOnto_eq_ok_iff.mp h).1
  refine ⟨hcompiled, rules_foldl_absorb, ?_, id_foldl_absorb, version_foldl_absorb,
    description_foldl_absorb⟩
  intro before last after hspecs hlast hafter
  -- what replaces forgets everything before it, so the fold starts anew from its rules
  have hcore : (absorb (before.foldl absorb base) last).rules = last.ownRules := by
    simp [absorb, hlast, MergeMode.merge]
  rw [hspecs, List.foldl_append, List.foldl_cons, rules_foldl_absorb hafter, hcore]

/-- Only the first spec of a sequence has a say in the base. -/
theorem foldlM_map_base (choose : RuleSpec → Option BaseRules) :
    (specs.map fun spec => { spec with base := choose spec }).foldlM foldInto base =
      specs.foldlM foldInto base := by
  rw [List.foldlM_map]
  rfl

end

end RuleSpec

/-- The built-in rules compile. -/
theorem Builtin.ruleSet_eq_ok : Builtin.ruleSet = .ok (RuleSpec.absorb .empty Builtin.spec) := by
  have hids : firstRepeat? (Builtin.spec.ownRules.map Rule.id) = none := by
    rw [RuleSpec.ownRules, List.map_flatMap]
    simp only [MacroRecord.ids_expand]
    decide +kernel
  have hcompile : compileRecords Builtin.spec.records = .ok Builtin.spec.ownRules :=
    compileRecords_eq_ok_iff.mpr ⟨hids, rfl⟩
  refine RuleSpec.composeOnto_eq_ok_iff.mpr ⟨?_, hids⟩
  exact RuleSpec.foldlM_foldInto_eq_ok_iff.mpr ⟨by simpa using hcompile, rfl⟩

namespace RuleSpec

/-- The base that the first spec of a sequence chooses. -/
def chosenBase (first : RuleSpec) : Except CompileError RuleSet :=
  match first.base with
  | some .empty => .ok .empty
  | _ => Builtin.ruleSet

theorem compose_cons (first : RuleSpec) (rest : List RuleSpec) :
    compose (first :: rest) = first.chosenBase.bind (composeOnto · (first :: rest)) := by
  change ((first.base.getD .builtin).ruleSet.bind (composeOnto · (first :: rest))) = _
  unfold chosenBase
  rcases first.base with _ | base
  · rfl
  · cases base <;> rfl

/-- The built-in rules compile, no spec at all gives just them, and of more specs the first alone
    chooses the base, over which a composition that succeeds is layered. -/
theorem layered_of_compose (first : RuleSpec) (rest : List RuleSpec) :
    (∃ builtin, Builtin.ruleSet = .ok builtin ∧ compose [] = .ok builtin) ∧
    (∀ choose : RuleSpec → Option BaseRules,
      compose (first :: rest.map fun spec => { spec with base := choose spec }) =
        compose (first :: rest)) ∧
    ∀ composed, compose (first :: rest) = .ok composed →
      ∃ base, first.chosenBase = .ok base ∧ Layered base (first :: rest) composed := by
  refine ⟨⟨_, Builtin.ruleSet_eq_ok, Builtin.ruleSet_eq_ok⟩, fun choose => ?_, fun composed h => ?_⟩
  · simp only [compose_cons, composeOnto, List.foldlM_cons, foldlM_map_base]
  · rw [compose_cons] at h
    cases hbase : first.chosenBase with
    | error error =>
      rw [hbase] at h
      cases h
    | ok base =>
      rw [hbase] at h
      exact ⟨base, rfl, layered_of_composeOnto h⟩

/-- A spec with one rule of the same id. -/
def ofRule (id : String) (mode : MergeMode) (version description : Option String) : RuleSpec where
  version := version
  description := description
  mode := mode
  records := [.rule { id := id, when := .bool true }]

/-- What comes before the spec that replaces is lost, but for its metadata. -/
theorem layered_of_compose_empty :
    let first := { ofRule "lost" .append (some "1") (some "first") with base := some .empty }
    let rest :=
      [ofRule "core" .replace none none, ofRule "inner" .prepend (some "2") (some "second"),
        ofRule "end" .append none none, ofRule "outer" .prepend none (some "third")]
    ∃ composed, compose (first :: rest) = .ok composed ∧
      composed.rules.map Rule.id = ["outer", "inner", "core", "end"] ∧
      composed.version = "2" ∧ composed.description = some "first\nsecond\nthird" ∧
      Layered .empty (first :: rest) composed := by
  intro first rest
  refine ⟨_, rfl, by rfl, by rfl, by rfl, ?_⟩
  obtain ⟨base, hbase, hlayered⟩ := (layered_of_compose first rest).2.2 _ rfl
  cases hbase
  exact hlayered

end RuleSpec

end FactScore
