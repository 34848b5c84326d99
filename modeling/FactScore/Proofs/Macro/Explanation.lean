import FactScore.Macro.Expand
import FactScore.Proofs.Scoring.Accounts
import FactScore.Proofs.Template.Passes
import Mathlib.Data.List.Forall2

/-!
# Explanations of generated rules

The explanation of a record is a template that is filled twice.  Expansion fills in the keys that
a rule is generated for (`MacroRecord.iterations`), and scoring fills in the amount, the category,
the id of the rule and the facts that are mentioned.  As long as no key has an opening brace, the
text of a contribution is what one filling with all of that gives
(`MacroRecord.explanations_filled_once`).
-/

namespace FactScore

namespace Bindings

/-- No text that a name is bound to has an opening brace. -/
def Plain (bindings : Bindings) : Prop :=
  ∀ entry ∈ bindings.entries, '{' ∉ entry.2.toList

theorem Plain.find? {bindings : Bindings} {name text : String} (h : bindings.Plain)
    (hfind : bindings.find? name = some text) : '{' ∉ text.toList := by
  obtain ⟨before, after, hentries, _⟩ := List.lookup_eq_some_iff.mp hfind
  refine h (name, text) ?_
  rw [hentries]
  exact List.mem_append_right _ List.mem_cons_self

theorem plain_empty : Bindings.empty.Plain := fun _ hentry => absurd hentry List.not_mem_nil

theorem Plain.bind {bindings : Bindings} {text : String} (h : bindings.Plain)
    (htext : '{' ∉ text.toList) (name : String) : (bindings.bind name text).Plain := by
  intro entry hentry
  rcases List.mem_append.mp hentry with hbound | hlast
  · exact h entry hbound
  · rw [List.mem_singleton.mp hlast]
    exact htext

theorem fill_empty (template : String) : Bindings.empty.fill template = template :=
  Template.fill_unknown template

end Bindings

/-- The text of a contribution, with the keys of the rule filled in at the same time as all else. -/
theorem Rule.fill_explain {rule : Rule} {keys : Bindings} {template : String}
    (hplain : keys.Plain) (hexplain : rule.explain = keys.fill template)
    (lookup : String → Option String) :
    Template.fill lookup rule.explain =
      Template.fill (fun name => (keys.find? name).or (lookup name)) template := by
  rw [hexplain, Bindings.fill, Template.fill_fill fun _ _ => hplain.find?]

theorem Rule.explain_of_award? {rule : Rule} {context : Context} {category : String}
    {contribution : Contribution} (h : rule.award? context category = some contribution) :
    contribution.explain =
      Template.fill (rule.wording context category contribution.amount) rule.explain := by
  unfold award? at h
  split at h
  next =>
    obtain ⟨amount, _, rfl⟩ := Option.map_eq_some_iff.mp h
    rfl
  next => cases h

namespace MacroRecord

/-- The template of the explanations of a record. -/
def template : MacroRecord → String
  | patternScore record => record.explain
  | elementMatch record => record.explain
  | roleElement record => record.explain
  | tenGodPresence record => record.explain
  | gradeTable record => record.explain
  | suppression record => record.explain
  | penalizeWhen record => record.explain
  | rule record => record.explain

/-- The keys that the rules of a record are generated for, in the order of its rules. -/
def iterations : MacroRecord → List Bindings
  | patternScore record => (selectedOrAll record.patterns).map fun pattern =>
    Bindings.empty.bind "pattern" (Taxonomy.name pattern)
  | elementMatch record => (selectedOrAll record.elements).map fun element =>
    Bindings.empty.bind "element" (Taxonomy.name element)
  | roleElement record => (selectedOrAll record.roles).flatMap fun role =>
    (selectedOrAll record.elements).map fun element =>
      (Bindings.empty.bind "role" (Taxonomy.name role)).bind "element" (Taxonomy.name element)
  | tenGodPresence record => (selectedOrAll record.tenGods).map fun tenGod =>
    Bindings.empty.bind "ten_god" (Taxonomy.name tenGod)
  | gradeTable record => record.rows.map fun row =>
    Bindings.empty.bind "grade" (Taxonomy.name row.1)
  | suppression record => record.losers.map fun target =>
    (Bindings.empty.bind "winner" record.winner).bind "target" target
  | penalizeWhen _ => [.empty]
  | rule _ => [.empty]

/-- Rules that are generated one for each member have the template with its keys filled in, if
    that is so of the rule for each member. -/
theorem explain_generated {α : Type} (members : List α) {keys : α → Bindings} {rule : α → Rule}
    {template : String} (h : ∀ member, (rule member).explain = (keys member).fill template) :
    List.Forall₂ (fun keys rule => rule.explain = keys.fill template)
      (members.map keys) (members.map rule) := by
  rw [List.forall₂_map_left_iff, List.forall₂_map_right_iff, List.forall₂_same]
  exact fun member _ => h member

/-- Before empty explanations are replaced, each rule has the template with its keys filled in. -/
theorem explain_bareRules (record : MacroRecord) :
    List.Forall₂ (fun keys rule => rule.explain = keys.fill record.template)
      record.iterations record.bareRules := by
  cases record with
  | patternScore record => exact explain_generated _ fun _ => rfl
  | elementMatch record => exact explain_generated _ fun _ => rfl
  | roleElement record =>
    refine List.rel_flatMap (List.forall₂_same.mpr fun _ _ => rfl) fun role _ hrole => ?_
    subst hrole
    exact explain_generated _ fun _ => rfl
  | tenGodPresence record => exact explain_generated _ fun _ => rfl
  | gradeTable record => exact explain_generated _ fun _ => rfl
  | suppression record => exact explain_generated _ fun _ => rfl
  | penalizeWhen record =>
    rw [iterations, bareRules, PenalizeWhen.expand_eq]
    exact .cons (Bindings.fill_empty record.explain).symm .nil
  | rule record => exact .cons (Bindings.fill_empty record.explain).symm .nil

/-- A rule has the template with its keys filled in, unless nothing comes of that. -/
theorem explain_expand (record : MacroRecord) :
    List.Forall₂ (fun keys rule => keys.fill record.template ≠ "" →
      rule.explain = keys.fill record.template) record.iterations record.expand := by
  rw [expand, List.forall₂_map_right_iff]
  refine record.explain_bareRules.imp fun keys rule hexplain hsaid => ?_
  rw [if_neg (hexplain ▸ hsaid), hexplain]

theorem plain_name_pattern (pattern : Pattern) : '{' ∉ (Taxonomy.name pattern).toList := by
  cases pattern <;> decide

theorem plain_name_element (element : Element) : '{' ∉ (Taxonomy.name element).toList := by
  cases element <;> decide

theorem plain_name_role (role : Role) : '{' ∉ (Taxonomy.name role).toList := by
  cases role <;> decide

theorem plain_name_tenGod (tenGod : TenGod) : '{' ∉ (Taxonomy.name tenGod).toList := by
  cases tenGod <;> decide

theorem plain_name_grade (grade : Grade) : '{' ∉ (Taxonomy.name grade).toList := by
  cases grade <;> decide

/-- Only the keys of a suppression, which are categories and not terms of a taxonomy, can have
    braces. -/
theorem plain_iterations {record : MacroRecord} (h : record.kind ≠ .suppression) :
    ∀ keys ∈ record.iterations, keys.Plain := by
  have hempty := Bindings.plain_empty
  cases record with
  | patternScore record =>
    refine List.forall_mem_map.mpr fun pattern _ => ?_
    exact hempty.bind (plain_name_pattern pattern) "pattern"
  | elementMatch record =>
    refine List.forall_mem_map.mpr fun element _ => ?_
    exact hempty.bind (plain_name_element element) "element"
  | roleElement record =>
    refine List.forall_mem_flatMap.mpr fun role _ => List.forall_mem_map.mpr fun element _ => ?_
    exact (hempty.bind (plain_name_role role) "role").bind (plain_name_element element) "element"
  | tenGodPresence record =>
    refine List.forall_mem_map.mpr fun tenGod _ => ?_
    exact hempty.bind (plain_name_tenGod tenGod) "ten_god"
  | gradeTable record =>
    refine List.forall_mem_map.mpr fun row _ => ?_
    exact hempty.bind (plain_name_grade row.1) "grade"
  | suppression record => exact absurd rfl h
  | penalizeWhen record => exact List.forall_mem_singleton.mpr hempty
  | rule record => exact List.forall_mem_singleton.mpr hempty

/-- Each rule of a record words its contributions as one filling of the template does. -/
theorem explain_awards (record : MacroRecord) (context : Context) :
    List.Forall₂ (fun keys rule => keys.Plain → keys.fill record.template ≠ "" →
      ∀ category contribution, rule.award? context category = some contribution →
        contribution.explain = Template.fill
          (fun name => (keys.find? name).or
            (rule.wording context category contribution.amount name)) record.template)
      record.iterations record.expand := by
  refine record.explain_expand.imp fun keys rule hexplain hplain hsaid => ?_
  intro category contribution haward
  rw [Rule.explain_of_award? haward, Rule.fill_explain hplain (hexplain hsaid)]

/-- Two fillings come to one.  This is so of all templates, if no text that the first filling puts
    in has an opening brace.  So each rule of a record, unless its explanation was empty, words
    what it contributes as one filling of the template of the record does, with the keys that it
    is generated for, the amount, the category, the id of the rule and the facts all known.  The
    keys have no braces unless the record is a suppression.  What the rules of a set contribute to
    a category is what is found there after scoring. -/
theorem explanations_filled_once :
    (∀ (first second : String → Option String) (template : String),
      (∀ name text, first name = some text → '{' ∉ text.toList) →
      Template.fill second (Template.fill first template) =
        Template.fill (fun name => (first name).or (second name)) template) ∧
    (∀ (record : MacroRecord) (context : Context),
      List.Forall₂ (fun keys rule => keys.Plain → keys.fill record.template ≠ "" →
        ∀ category contribution, rule.award? context category = some contribution →
          contribution.explain = Template.fill
            (fun name => (keys.find? name).or
              (rule.wording context category contribution.amount name)) record.template)
        record.iterations record.expand) ∧
    (∀ record : MacroRecord, record.kind ≠ .suppression →
      ∀ keys ∈ record.iterations, keys.Plain) ∧
    (∀ (ruleSet : RuleSet) (context : Context) (category : String) (tally : Tally),
      (ruleSet.evaluate context).categories.find? category = some tally →
      tally.contributions = ruleSet.rules.filterMap fun rule => rule.award? context category) := by
  refine ⟨fun first second template hfirst => Template.fill_fill hfirst template,
    explain_awards, fun record => plain_iterations, fun ruleSet context category tally htally => ?_⟩
  rw [(ruleSet.accounts_evaluate context).find?_eq, Tally.of?_eq_some_iff] at htally
  obtain ⟨_, rfl⟩ := htally
  rfl

end MacroRecord

/-- A record of one pattern.  Its explanation has nested braces and one that is not closed. -/
def nestedRecord : MacroRecord := .patternScore {
  idStem := "month"
  score := .constant 1
  patterns := [.siksin]
  explain := "month \x7b{pattern} {pattern} {=month.gyeok.pattern}\x7d \x7brule_id" }

/-- A context with the pattern that the record scores. -/
def siksinContext : Context :=
  Context.empty.set ⟨"month.gyeok.pattern"⟩ (.text "siksin")

theorem amount_nestedRecord :
    ∀ rule ∈ nestedRecord.expand,
      (rule.award? siksinContext "siksin").map Contribution.amount = some 1 :=
  List.forall_mem_singleton.mpr (by decide +kernel)

/-- The explanation of the one rule is filled once, in every context, and in the one with the
    pattern there is a contribution, with the pattern where it was looked up. -/
theorem explain_nestedRecord :
    ∃ keys rule, nestedRecord.iterations = [keys] ∧ nestedRecord.expand = [rule] ∧
      (∀ context category contribution, rule.award? context category = some contribution →
        contribution.explain = Template.fill
          (fun name => (keys.find? name).or
            (rule.wording context category contribution.amount name))
          nestedRecord.template) ∧
      ∃ contribution, rule.award? siksinContext "siksin" = some contribution ∧
        contribution.amount = 1 ∧
        contribution.explain = "month \x7b\x7bpattern\x7d siksin siksin\x7d \x7brule_id" := by
  obtain ⟨_, hawards, hplain, _⟩ := MacroRecord.explanations_filled_once
  have hplain := hplain nestedRecord (fun hkind => nomatch hkind) _ List.mem_cons_self
  have hsaid : ∀ keys : Bindings, keys.fill nestedRecord.template ≠ "" := by
    intro keys hempty
    have hchars := congrArg String.toList hempty
    rw [Bindings.fill, Template.toList_fill] at hchars
    have hfirst : nestedRecord.template.toList = 'm' :: nestedRecord.template.toList.tail := rfl
    rw [hfirst, Template.fillChars_cons _ (by decide)] at hchars
    cases hchars
  have hfilled := fun context =>
    (List.forall₂_cons.mp (hawards nestedRecord context)).1 hplain (hsaid _)
  refine ⟨_, _, rfl, rfl, hfilled, ?_⟩
  obtain ⟨contribution, haward, hamount⟩ :=
    Option.map_eq_some_iff.mp (amount_nestedRecord _ List.mem_cons_self)
  refine ⟨contribution, haward, hamount, ?_⟩
  rw [hfilled _ _ _ haward, hamount]
  decide +kernel

end FactScore
