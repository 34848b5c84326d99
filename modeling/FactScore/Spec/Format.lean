import FactScore.Spec
import FactScore.Toml.Reader

/-!
# The written form of rule specs

A spec is read in two steps: its document has to have the form of a spec with untyped macro
records (`SpecDocument`), and then each record is read by its kind.  A document is data, JSON text
or TOML text; in JSON text no key of the spec itself may be repeated, and in TOML text a number
that is not finite stands for `null` inside a record.
-/

namespace FactScore

open Data

/-- A spec whose macro records are still untyped. -/
structure SpecDocument where
  id : Option String := none
  version : Option String := none
  description : Option String := none
  base : Option BaseRules := none
  mode : MergeMode := .append
  records : List Data := []

namespace SpecDocument

/-- The names of the fields, by position. -/
def fieldNames : List String := ["id", "version", "description", "base", "mode", "macros"]

/-- The document that some data is the form of. -/
def ofData (payload : Payload) (data : Data) : Except Fault SpecDocument := do
  let id : RecordField (Option String) := ⟨"id", orNull asText⟩
  let version : RecordField (Option String) := ⟨"version", orNull asText⟩
  let description : RecordField (Option String) := ⟨"description", orNull asText⟩
  let base : RecordField (Option BaseRules) := ⟨"base", orNull (Taxonomy.ofData payload)⟩
  let mode : RecordField MergeMode := ⟨"mode", Taxonomy.ofData payload⟩
  let records : RecordField (List Data) := ⟨"macros", asList .ok⟩
  let fields ← data.record [id.check, version.check, description.check, base.check, mode.check,
    records.check]
  return {
    id := ← fields.withDefault id none
    version := ← fields.withDefault version none
    description := ← fields.withDefault description none
    base := ← fields.withDefault base none
    mode := ← fields.withDefault mode .append
    records := ← fields.withDefault records [] }

/-- The part of a document that was read from a text so far, and the names of its fields. -/
structure Read where
  names : List String := []
  document : SpecDocument := {}

open Json in
/-- A member of a taxonomy by its name. -/
def readMember {α : Type} [Taxonomy α] (depth : Nat) : Reader α := fun cs => do
  let (name, rest) ← readName depth cs
  match Taxonomy.ofName? name with
  | some member => return (member, rest)
  | none => .error .malformed

open Json in
/-- Read one field of a document from the front of a text.  `depth` is how deep its value may
    nest; the value of a key that names no field is passed over at any depth. -/
def readField (depth : Nat) (state : Read) (key : String) : Reader Read := fun cs =>
  let document := state.document
  if key ∈ state.names then .error .malformed
  else do
    let (document, rest) ←
      if key = "id" then do
        let (id, rest) ← readOptional readText cs
        pure ({ document with id }, rest)
      else if key = "version" then do
        let (version, rest) ← readOptional readText cs
        pure ({ document with version }, rest)
      else if key = "description" then do
        let (description, rest) ← readOptional readText cs
        pure ({ document with description }, rest)
      else if key = "base" then do
        let (base, rest) ← readOptional (readMember depth) cs
        pure ({ document with base }, rest)
      else if key = "mode" then do
        let (mode, rest) ← readMember depth cs
        pure ({ document with mode }, rest)
      else if key = "macros" then do
        match ← readData depth cs with
        | (.list records, rest) => pure ({ document with records }, rest)
        | _ => .error .malformed
      else do
        let ((), rest) ← passOver (cs.length + 1) cs
        pure (document, rest)
    let names := if key ∈ fieldNames then key :: state.names else state.names
    return ({ names, document }, rest)

open Json in
/-- Read a document from the front of a text. -/
def read : Reader SpecDocument := fun cs =>
  match skipBlank cs with
  | '{' :: rest => do
    let (state, rest) ← readMembers (readField (maxDepth - 1)) {} rest
    return (state.document, rest)
  | '[' :: rest => do
    let (state, rest) ← readFields (readField (maxDepth - 1)) fieldNames {} rest
    return (state.document, rest)
  | _ => .error .malformed

/-- The spec that a document makes up. -/
def toSpec (document : SpecDocument) : Except MacroFault RuleSpec := do
  return {
    id := document.id
    version := document.version
    description := document.description
    base := document.base
    mode := document.mode
    records := ← document.records.mapM MacroRecord.ofData }

end SpecDocument

namespace RuleSpec

/-- The spec of a document that may have failed to be one. -/
def ofDocument (document : Except Fault SpecDocument) : Except CompileError RuleSpec := do
  let document ← document.mapError .badDocument
  document.toSpec.mapError .badRecord

/-- The spec that some data is the form of. -/
def ofData (data : Data) : Except CompileError RuleSpec :=
  ofDocument (SpecDocument.ofData .null data)

/-- The spec that a JSON text is the form of. -/
def ofJsonText (source : String) : Except CompileError RuleSpec :=
  ofDocument (Json.readWhole SpecDocument.read source)

/-- The spec that a TOML text is the form of. -/
def ofTomlText (source : String) : Except CompileError RuleSpec :=
  ofDocument do
    let document ← SpecDocument.ofData .empty (← Toml.parse source)
    return { document with records := document.records.map Data.finite }

/-- The data form of a spec. -/
def toData (spec : RuleSpec) : Data :=
  .ofFields
    (member "id" (spec.id.map .text) ++ member "version" (spec.version.map .text) ++
      member "description" (spec.description.map .text) ++
      member "base" (spec.base.map fun base => .text (Taxonomy.name base)) ++
      [("mode", .text (Taxonomy.name spec.mode)),
        ("macros", .list (spec.records.map MacroRecord.toData))])

end RuleSpec

end FactScore
