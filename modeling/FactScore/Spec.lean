import FactScore.Macro.Expand
import FactScore.Macro.Format

/-!
# Rule specs and their composition

A rule spec declares rules by macro records and says how they merge with the rules that are there
already.  A sequence of specs is folded from left to right: the first spec picks the base, and
every spec merges its own rules by its own mode.  The last id and the last version that are given
stay, and descriptions are joined line by line.
-/

namespace FactScore

/-- How new rules merge with the rules that are there. -/
inductive MergeMode where
  /-- The new rules come last. -/
  | append
  /-- The new rules come first. -/
  | prepend
  /-- Only the new rules stay. -/
  | replace
  deriving DecidableEq, Repr, Inhabited

instance : Taxonomy MergeMode where
  members := [.append, .prepend, .replace]
  name
    | .append => "append"
    | .prepend => "prepend"
    | .replace => "replace"

/-- The rules after merging new ones, both lists keeping their order. -/
def MergeMode.merge (mode : MergeMode) (present new : List Rule) : List Rule :=
  match mode with
  | .append => present ++ new
  | .prepend => new ++ present
  | .replace => new

/-- The rule set that a composition starts from. -/
inductive BaseRules where
  | builtin
  | empty
  deriving DecidableEq, Repr, Inhabited

instance : Taxonomy BaseRules where
  members := [.builtin, .empty]
  name
    | .builtin => "builtin"
    | .empty => "empty"

/-- A declaration of rules and of how they are composed. -/
structure RuleSpec where
  id : Option String := none
  version : Option String := none
  description : Option String := none
  /-- The base, which only counts in the first spec of a sequence. -/
  base : Option BaseRules := none
  mode : MergeMode := .append
  records : List MacroRecord := []
  deriving Inhabited

/-- Why specs do not make up a rule set. -/
inductive CompileError where
  /-- A macro record is not in order. -/
  | badRecord (fault : MacroFault)
  /-- Two rules have one id. -/
  | duplicateRuleId (id : String)
  /-- The document is not the form of a spec. -/
  | badDocument (fault : Fault)
  deriving DecidableEq, Repr

/-- The wording of an error, for the errors that have one. -/
def CompileError.message : CompileError → Option String
  | .badRecord fault => fault.message
  | .duplicateRuleId id => some ("duplicate rule id '" ++ id ++ "'")
  | .badDocument fault => fault.message

/-- The rules of some records, in order.  No two of them may have one id. -/
def compileRecords (records : List MacroRecord) : Except CompileError (List Rule) :=
  let rules := records.flatMap MacroRecord.expand
  match firstRepeat? (rules.map Rule.id) with
  | some id => .error (.duplicateRuleId id)
  | none => .ok rules

namespace RuleSpec

/-- A rule set with the metadata that a spec gives. -/
def describe (ruleSet : RuleSet) (spec : RuleSpec) : RuleSet where
  id := spec.id.getD ruleSet.id
  version := spec.version.getD ruleSet.version
  description :=
    match ruleSet.description, spec.description with
    | some present, some new => some (present ++ "\n" ++ new)
    | present, none => present
    | none, new => new
  rules := ruleSet.rules

/-- Merge the rules and the metadata of a spec into a rule set. -/
def foldInto (ruleSet : RuleSet) (spec : RuleSpec) : Except CompileError RuleSet := do
  let rules ← compileRecords spec.records
  return { describe ruleSet spec with rules := spec.mode.merge ruleSet.rules rules }

/-- Fold specs into a base.  In the end no two rules may have one id. -/
def composeOnto (base : RuleSet) (specs : List RuleSpec) : Except CompileError RuleSet := do
  let composed ← specs.foldlM foldInto base
  match composed.repeatedId? with
  | some id => .error (.duplicateRuleId id)
  | none => return composed

end RuleSpec

end FactScore
