import FactScore.Proofs.Spec.Composition

/-!
# Unique rule ids

A composition looks for repeated ids twice: in the rules of each spec, and at the end in the rules
that the specs fold to (`RuleSpec.Clash`).  It fails with such an id and with nothing else, the id
it tells is the first that comes a second time, and rules that a later spec replaces clash with
nothing (`RuleSpec.ids_unique_of_compose`).
-/

namespace FactScore

/-- A text is repeated, and no text is repeated before it is. -/
def RepeatsFirst (text : String) (texts : List String) : Prop :=
  ∃ before after, texts = before ++ text :: after ∧ before.Nodup ∧ text ∈ before

section

variable {text : String} {texts seen : List String}

theorem firstRepeatAfter_eq_none_iff :
    firstRepeatAfter seen texts = none ↔ texts.Nodup ∧ ∀ text ∈ texts, text ∉ seen := by
  induction texts generalizing seen with
  | nil => simp [firstRepeatAfter]
  | cons first rest ih =>
    rw [firstRepeatAfter]
    split
    next hseen => simp [hseen]
    next hseen =>
      rw [ih, List.nodup_cons, List.forall_mem_cons]
      simp only [List.mem_cons, not_or]
      constructor
      · rintro ⟨hrest, hnew⟩
        exact ⟨⟨fun hfirst => (hnew first hfirst).1 rfl, hrest⟩, hseen, fun t ht => (hnew t ht).2⟩
      · rintro ⟨⟨hfirst, hrest⟩, _, hnew⟩
        exact ⟨hrest, fun t ht => ⟨fun heq => hfirst (heq ▸ ht), hnew t ht⟩⟩

theorem firstRepeatAfter_eq_some_iff :
    firstRepeatAfter seen texts = some text ↔
      ∃ before after, texts = before ++ text :: after ∧
        (before.Nodup ∧ ∀ earlier ∈ before, earlier ∉ seen) ∧ (text ∈ seen ∨ text ∈ before) := by
  induction texts generalizing seen with
  | nil => simp [firstRepeatAfter]
  | cons first rest ih =>
    rw [firstRepeatAfter]
    split
    next hseen =>
      constructor
      · rintro ⟨⟩
        exact ⟨[], rest, rfl, by simp, .inl hseen⟩
      · rintro ⟨before, after, htexts, ⟨_, hnew⟩, _⟩
        cases before with
        | nil => exact congrArg some (List.cons.inj htexts).1
        | cons head before =>
          obtain ⟨rfl, _⟩ := List.cons.inj htexts
          exact absurd hseen (hnew first List.mem_cons_self)
    next hseen =>
      rw [ih]
      constructor
      · rintro ⟨before, after, rfl, ⟨hnodup, hnew⟩, hmem⟩
        have hfirst : first ∉ before := fun h => hnew first h List.mem_cons_self
        refine ⟨first :: before, after, rfl, ⟨List.nodup_cons.mpr ⟨hfirst, hnodup⟩, ?_⟩, ?_⟩
        · exact List.forall_mem_cons.mpr
            ⟨hseen, fun t ht hold => hnew t ht (List.mem_cons_of_mem _ hold)⟩
        · simpa [or_comm, or_left_comm, or_assoc] using hmem
      · rintro ⟨before, after, htexts, ⟨hnodup, hnew⟩, hmem⟩
        cases before with
        | nil =>
          obtain ⟨rfl, _⟩ := List.cons.inj htexts
          simp [hseen] at hmem
        | cons head before =>
          obtain ⟨rfl, rfl⟩ := List.cons.inj htexts
          obtain ⟨hfirst, hbefore⟩ := List.nodup_cons.mp hnodup
          refine ⟨before, after, rfl, ⟨hbefore, fun t ht => ?_⟩, ?_⟩
          · rw [List.mem_cons, not_or]
            exact ⟨fun heq => hfirst (heq ▸ ht), hnew t (List.mem_cons_of_mem _ ht)⟩
          · simpa [or_comm, or_left_comm, or_assoc] using hmem

theorem firstRepeat?_eq_none_iff : firstRepeat? texts = none ↔ texts.Nodup := by
  simp [firstRepeat?, firstRepeatAfter_eq_none_iff]

theorem firstRepeat?_eq_some_iff : firstRepeat? texts = some text ↔ RepeatsFirst text texts := by
  simp [firstRepeat?, firstRepeatAfter_eq_some_iff, RepeatsFirst]

end

namespace RuleSpec

/-- The ids of the rules that a spec itself declares. -/
def ownIds (spec : RuleSpec) : List String :=
  spec.ownRules.map Rule.id

/-- The rules after specs have merged theirs one after another. -/
def foldedRules (base : List Rule) (specs : List RuleSpec) : List Rule :=
  specs.foldl (fun rules spec => spec.mode.merge rules spec.ownRules) base

/-- The base that a sequence of specs starts from: the built-in rules, unless the first spec names
    another. -/
def startingBase (specs : List RuleSpec) : BaseRules :=
  (specs.head?.bind RuleSpec.base).getD .builtin

/-- Specs over a base clash, and an id is the one that is told. -/
inductive Clash (base : List Rule) (specs : List RuleSpec) (id : String) : Prop
  /-- The rules of a spec repeat the id, and the rules of no earlier spec repeat any. -/
  | declared (before : List RuleSpec) (spec : RuleSpec) (after : List RuleSpec)
      (hspecs : specs = before ++ spec :: after) (hrepeats : RepeatsFirst id spec.ownIds)
      (hbefore : ∀ earlier ∈ before, earlier.ownIds.Nodup)
  /-- The rules of no spec repeat any, but those that all specs fold to repeat the id. -/
  | folded (hspecs : ∀ spec ∈ specs, spec.ownIds.Nodup)
      (hrepeats : RepeatsFirst id ((foldedRules base specs).map Rule.id))

/-- The id that is told when specs over a base clash. -/
def clash? (base : List Rule) (specs : List RuleSpec) : Option String :=
  (specs.findSome? fun spec => firstRepeat? spec.ownIds).or
    (firstRepeat? ((foldedRules base specs).map Rule.id))

section

variable {base : RuleSet} {specs before after : List RuleSpec} {last : RuleSpec}
  {rules rules' : List Rule} {error : CompileError} {id : String}

theorem clash?_eq_some_iff : clash? rules specs = some id ↔ Clash rules specs id := by
  simp only [clash?, Option.or_eq_some_iff, List.findSome?_eq_some_iff, List.findSome?_eq_none_iff,
    firstRepeat?_eq_some_iff, firstRepeat?_eq_none_iff]
  constructor
  · rintro (⟨before, spec, after, hspecs, hrepeats, hbefore⟩ | ⟨hspecs, hrepeats⟩)
    · exact .declared before spec after hspecs hrepeats hbefore
    · exact .folded hspecs hrepeats
  · rintro (⟨before, spec, after, hspecs, hrepeats, hbefore⟩ | ⟨hspecs, hrepeats⟩)
    · exact .inl ⟨before, spec, after, hspecs, hrepeats, hbefore⟩
    · exact .inr ⟨hspecs, hrepeats⟩

/-- Folding in a spec fails just when its own rules repeat an id. -/
theorem foldInto_eq_match (base : RuleSet) (spec : RuleSpec) :
    foldInto base spec =
      match firstRepeat? spec.ownIds with
      | some id => .error (.duplicateRuleId id)
      | none => .ok (absorb base spec) := by
  rw [foldInto_eq, compileRecords]
  change Except.map _ (match firstRepeat? spec.ownIds with | some id => _ | none => _) = _
  cases firstRepeat? spec.ownIds <;> rfl

/-- Folding fails with the first spec that repeats an id by itself. -/
theorem foldlM_foldInto_eq (base : RuleSet) (specs : List RuleSpec) :
    specs.foldlM foldInto base =
      match specs.findSome? fun spec => firstRepeat? spec.ownIds with
      | some id => .error (.duplicateRuleId id)
      | none => .ok (specs.foldl absorb base) := by
  induction specs generalizing base with
  | nil => rfl
  | cons spec specs ih =>
    rw [List.foldlM_cons, foldInto_eq_match, List.findSome?_cons, List.foldl_cons]
    cases firstRepeat? spec.ownIds with
    | some id => rfl
    | none => exact ih (absorb base spec)

theorem rules_foldl_absorb_eq_foldedRules (base : RuleSet) (specs : List RuleSpec) :
    (specs.foldl absorb base).rules = foldedRules base.rules specs := by
  induction specs generalizing base with
  | nil => rfl
  | cons spec specs ih => exact ih (absorb base spec)

theorem composeOnto_eq (base : RuleSet) (specs : List RuleSpec) :
    composeOnto base specs =
      match clash? base.rules specs with
      | some id => .error (.duplicateRuleId id)
      | none => .ok (specs.foldl absorb base) := by
  unfold composeOnto clash?
  rw [foldlM_foldInto_eq]
  cases specs.findSome? fun spec => firstRepeat? spec.ownIds with
  | some id => rfl
  | none =>
    rw [Option.none_or, ← rules_foldl_absorb_eq_foldedRules]
    change (match firstRepeat? ((specs.foldl absorb base).rules.map Rule.id) with
      | some id => _ | none => _) = _
    cases firstRepeat? ((specs.foldl absorb base).rules.map Rule.id) <;> rfl

/-- A composition is a fold over the base that it starts from, also where there is no spec. -/
theorem compose_eq (hbase : (startingBase specs).ruleSet = .ok base) :
    compose specs =
      match clash? base.rules specs with
      | some id => .error (.duplicateRuleId id)
      | none => .ok (specs.foldl absorb base) := by
  cases specs with
  | nil =>
    have hbuiltin : composeOnto .empty [Builtin.spec] = .ok base := hbase
    have hclash : clash? base.rules [] = none := (composeOnto_eq_ok_iff.mp hbuiltin).2
    rw [hclash]
    exact hbase
  | cons first rest =>
    rw [← composeOnto_eq]
    change (startingBase (first :: rest)).ruleSet.bind (composeOnto · (first :: rest)) = _
    rw [hbase]
    rfl

theorem exists_startingBase (specs : List RuleSpec) :
    ∃ base, (startingBase specs).ruleSet = .ok base := by
  cases startingBase specs with
  | builtin => exact ⟨_, Builtin.ruleSet_eq_ok⟩
  | empty => exact ⟨_, rfl⟩

theorem compose_eq_ok_iff {composed : RuleSet} (hbase : (startingBase specs).ruleSet = .ok base) :
    compose specs = .ok composed ↔
      clash? base.rules specs = none ∧ composed = specs.foldl absorb base := by
  rw [compose_eq hbase]
  cases clash? base.rules specs <;> simp [eq_comm]

theorem compose_eq_error_iff (hbase : (startingBase specs).ruleSet = .ok base) :
    compose specs = .error error ↔
      ∃ id, error = .duplicateRuleId id ∧ clash? base.rules specs = some id := by
  rw [compose_eq hbase]
  cases clash? base.rules specs <;> simp [eq_comm]

/-- What a later spec replaces clashes with nothing, as long as no spec repeats an id by itself. -/
theorem clash?_replace (hlast : last.mode = .replace)
    (hbefore : ∀ spec ∈ before, spec.ownIds.Nodup) :
    clash? rules (before ++ last :: after) = clash? rules' (last :: after) := by
  have hnone : before.findSome? (fun spec => firstRepeat? spec.ownIds) = none :=
    List.findSome?_eq_none_iff.mpr fun spec hspec =>
      firstRepeat?_eq_none_iff.mpr (hbefore spec hspec)
  have hfolded : foldedRules rules (before ++ last :: after) =
      foldedRules rules' (last :: after) := by
    simp [foldedRules, hlast, MergeMode.merge]
  rw [clash?, clash?, List.findSome?_append, hnone, Option.none_or, hfolded]

end

/-- The base that specs start from always compiles.  If specs compose, no two rules have one id.
    They fail to compose just when ids clash, and then with the id that is the first to come a
    second time: in the rules of the first spec that repeats one, or, if no spec does, in the rules
    that all of them fold to.  The specs before one that replaces make no difference to whether
    and how a composition fails, as long as none of them repeats an id by itself. -/
theorem ids_unique_of_compose (specs : List RuleSpec) :
    ∃ base, (startingBase specs).ruleSet = .ok base ∧
      (∀ composed, compose specs = .ok composed →
        composed.rules = foldedRules base.rules specs ∧ composed.ids.Nodup) ∧
      (∀ error, compose specs = .error error ↔
        ∃ id, error = .duplicateRuleId id ∧ Clash base.rules specs id) ∧
      ∀ before last after, specs = before ++ last :: after → last.mode = .replace →
        (∀ spec ∈ before, spec.ownIds.Nodup) →
        ∀ error, compose specs = .error error ↔ compose (last :: after) = .error error := by
  obtain ⟨base, hbase⟩ := exists_startingBase specs
  refine ⟨base, hbase, fun composed hcompose => ?_, fun error => ?_, ?_⟩
  · obtain ⟨hclash, rfl⟩ := (compose_eq_ok_iff hbase).mp hcompose
    obtain ⟨_, hrepeat⟩ := Option.or_eq_none_iff.mp hclash
    have hrules := rules_foldl_absorb_eq_foldedRules base specs
    refine ⟨hrules, ?_⟩
    rw [RuleSet.ids, hrules]
    exact firstRepeat?_eq_none_iff.mp hrepeat
  · simp only [compose_eq_error_iff hbase, clash?_eq_some_iff]
  · rintro before last after rfl hlast hbefore error
    obtain ⟨base', hbase'⟩ := exists_startingBase (last :: after)
    rw [compose_eq_error_iff hbase, compose_eq_error_iff hbase', clash?_replace hlast hbefore]

/-- Two rules of one id clash, but not once a later spec has replaced them. -/
theorem ids_unique_of_replaced :
    let first := { ofRule "twice" .append none none with base := some .empty }
    let second := ofRule "twice" .prepend none none
    let last := ofRule "once" .replace none none
    compose [first, second] = .error (.duplicateRuleId "twice") ∧
      ∃ composed, compose [first, second, last] = .ok composed ∧ composed.ids = ["once"] ∧
        composed.ids.Nodup := by
  intro first second last
  obtain ⟨base, hbase, _, herror, _⟩ := ids_unique_of_compose [first, second]
  cases hbase
  refine ⟨(herror _).mpr ⟨"twice", rfl, .folded (by decide) ?_⟩, _, rfl, rfl, ?_⟩
  · exact ⟨["twice"], [], rfl, by decide, by decide⟩
  · obtain ⟨base', _, hok, _⟩ := ids_unique_of_compose [first, second, last]
    exact (hok _ rfl).2

end RuleSpec

end FactScore
