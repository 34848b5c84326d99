import FactScore.Data.Record
import FactScore.Dict.Lemmas
import FactScore.Taxonomy
import Mathlib.Data.List.Nodup

/-!
# Fields that were written

What a map of members gives when it is read as a record.  A field gives a value if it is there and
reads as that value, or if it is not there and the value is its default (`Data.Fields.Gives`).
Such a field passes its check, so if every field gives a value, the record comes down to its fields
one by one (`Data.record_of_passes`).
-/

namespace FactScore

/-- A computation goes on with the value of its first step. -/
theorem bind_eq_of_ok {ε α β : Type} {first : Except ε α} {next : α → Except ε β} {value : α}
    {result : Except ε β} (hfirst : first = .ok value) (hnext : next value = result) :
    first >>= next = result := by
  rw [hfirst]
  exact hnext

/-- A taxonomy that lists all its members and gives no two of them one name. -/
class LawfulTaxonomy (α : Type) [Taxonomy α] : Prop where
  mem_members : ∀ member : α, member ∈ (Taxonomy.members : List α)
  nodup_names : (Taxonomy.names α).Nodup

namespace Taxonomy

variable {α : Type} [Taxonomy α] [LawfulTaxonomy α]

theorem name_injective : Function.Injective (name : α → String) := fun first second h =>
  List.inj_on_of_nodup_map LawfulTaxonomy.nodup_names (LawfulTaxonomy.mem_members first)
    (LawfulTaxonomy.mem_members second) h

/-- A member is found by its name. -/
theorem ofName?_name (member : α) : ofName? (name member) = some member := by
  have hfound : (ofName? (name member) : Option α).isSome :=
    List.find?_isSome.mpr ⟨member, LawfulTaxonomy.mem_members member, beq_self_eq_true _⟩
  obtain ⟨found, hfind⟩ := Option.isSome_iff_exists.mp hfound
  have hname : name found = name member := by simpa using List.find?_some hfind
  rw [hfind, name_injective hname]

/-- What is listed under the names of some members is found under the name of each. -/
theorem find?_ofList_filterMap {β : Type} (value : α → Option β) {listed : List α} {member : α}
    (h : member ∈ listed) :
    (Dict.ofList (listed.filterMap fun member => (value member).map (name member, ·))).find?
      (name member) = value member := by
  cases hfind : (Dict.ofList (listed.filterMap fun member =>
      (value member).map (name member, ·))).find? (name member) with
  | some found =>
    obtain ⟨other, -, hother⟩ := List.mem_filterMap.mp (Dict.mem_of_find?_ofList hfind)
    obtain ⟨amount, hamount, heq⟩ := Option.map_eq_some_iff.mp hother
    obtain ⟨hname, rfl⟩ := Prod.mk.inj heq
    rw [← hamount, name_injective hname]
  | none =>
    cases hvalue : value member with
    | none => rfl
    | some amount =>
      have hlisted : (name member, amount) ∈ listed.filterMap fun member =>
          (value member).map (name member, ·) :=
        List.mem_filterMap.mpr ⟨member, h, congrArg (Option.map _) hvalue⟩
      have hsome := Dict.isSome_find?_ofList hlisted
      rw [hfind] at hsome
      cases hsome

/-- A member is read back from its name, with or without a payload allowed beside it. -/
theorem ofData_name (payload : Data.Payload) (member : α) :
    ofData payload (.text (name member)) = .ok member := by
  rw [ofData, Data.name?, Option.bind_some, ofName?_name]

end Taxonomy

namespace Data

variable {α : Type}

@[simp] theorem find?_ofList_member (name key : String) (data : Option Data) :
    (Dict.ofList (member name data)).find? key = if key = name then data else none := by
  cases data <;> simp [member]

section Readers

variable {read : Data → Except Fault α} {write : α → Data}

theorem readAll_map {values : List α} (h : ∀ value ∈ values, read (write value) = .ok value) :
    readAll read (values.map write) = .ok values := by
  induction values with
  | nil => rfl
  | cons value values ih =>
    obtain ⟨hvalue, hvalues⟩ := List.forall_mem_cons.mp h
    rw [List.map_cons, readAll, hvalue, ih hvalues]
    rfl

theorem readEntries_map {bound : Option String} {values : Entries α bound}
    (h : ∀ value ∈ values.values, read (write value) = .ok value) :
    readEntries read (values.map write) = .ok values := by
  induction values with
  | nil => rfl
  | cons key above value values ih =>
    obtain ⟨hvalue, hvalues⟩ := List.forall_mem_cons.mp h
    rw [Entries.map, readEntries, hvalue, ih hvalues]
    rfl

theorem orNull_eq_ok {data : Data} {value : α} (hnull : data.isNull = false)
    (hread : read data = .ok value) : orNull read data = .ok (some value) := by
  cases data with
  | null => cases hnull
  | _ => exact congrArg (fun result => do return some (← result)) hread

end Readers

namespace Fields

/-- The fields that a map has. -/
def of (data : Data) : Fields := ⟨fun name => data.field? name⟩

@[simp] theorem find?_of_ofFields (members : List (String × Data)) (name : String) :
    (of (ofFields members)).find? name = (Dict.ofList members).find? name :=
  rfl

/-- A field is there and reads as a value, or it may be missing and the value stands for it. -/
inductive Gives (fields : Fields) (field : RecordField α) (missing : Option α) (value : α) : Prop
  | present {data : Data} (hfind : fields.find? field.name = some data)
      (hread : field.read data = .ok value)
  | absent (hfind : fields.find? field.name = none) (hmissing : missing = some value)

/-- A check finds nothing wrong with the data of its field, if that is there. -/
def Passes (fields : Fields) (check : Check) : Prop :=
  ∀ data, fields.find? check.name = some data → check.run data = .ok ()

namespace Gives

variable {fields : Fields} {field : RecordField α} {missing : Option α} {value default : α}

theorem required (h : fields.Gives field none value) : fields.required field = .ok value := by
  cases h with
  | present hfind hread => rw [Fields.required, hfind, ← hread]
  | absent hfind hmissing => cases hmissing

theorem withDefault (h : fields.Gives field (some default) value) :
    fields.withDefault field default = .ok value := by
  cases h with
  | present hfind hread => rw [Fields.withDefault, hfind, ← hread]
  | absent hfind hmissing =>
    cases hmissing
    rw [Fields.withDefault, hfind]

theorem passes (h : fields.Gives field missing value) : fields.Passes field.check := by
  intro data hdata
  cases h with
  | present hfind hread =>
    obtain rfl : _ = data := Option.some.inj (hfind.symm.trans hdata)
    exact congrArg (fun result => discard result) hread
  | absent hfind hmissing =>
    cases hfind.symm.trans hdata

variable {name : String} {read : Data → Except Fault α} {write : α → Data}

theorem ofText {text : String} {missing : Option String}
    (hfind : fields.find? name = some (.text text)) :
    fields.Gives ⟨name, asText⟩ missing text :=
  .present hfind rfl

theorem ofBool {value : Bool} {missing : Option Bool}
    (hfind : fields.find? name = some (.bool value)) :
    fields.Gives ⟨name, asBool⟩ missing value :=
  .present hfind rfl

theorem ofList {values : List α} {missing : Option (List α)}
    (hfind : fields.find? name = some (.list (values.map write)))
    (hread : ∀ x ∈ values, read (write x) = .ok x) :
    fields.Gives ⟨name, asList read⟩ missing values :=
  .present hfind (readAll_map hread)

theorem ofDict {values : Dict α} {missing : Option (Dict α)}
    (hfind : fields.find? name = some (.map (values.map write)))
    (hread : ∀ x ∈ values.values, read (write x) = .ok x) :
    fields.Gives ⟨name, asDict read⟩ missing values :=
  .present hfind (readEntries_map hread)

theorem ofTextList {texts : List String} {missing : Option (List String)}
    (hfind : fields.find? name = some (.list (texts.map .text))) :
    fields.Gives ⟨name, asList asText⟩ missing texts :=
  ofList hfind fun _ _ => rfl

/-- A field that is only written when there is something to write. -/
theorem ofOption {value : Option α} (hfind : fields.find? name = value.map write)
    (hread : ∀ x ∈ value, read (write x) = .ok x) (hnull : ∀ x ∈ value, (write x).isNull = false) :
    fields.Gives ⟨name, orNull read⟩ (some none) value := by
  cases value with
  | none => exact .absent hfind rfl
  | some x => exact .present hfind (orNull_eq_ok (hnull x rfl) (hread x rfl))

theorem ofTextOption {value : Option String} (hfind : fields.find? name = value.map .text) :
    fields.Gives ⟨name, orNull asText⟩ (some none) value :=
  ofOption hfind (fun _ _ => rfl) (fun _ _ => rfl)

/-- A list that is only written when it is not empty. -/
theorem ofItems {values : List α} (hfind : fields.find? name = nonempty (values.map write))
    (hread : ∀ x ∈ values, read (write x) = .ok x) :
    fields.Gives ⟨name, asList read⟩ (some []) values := by
  cases values with
  | nil => exact .absent hfind rfl
  | cons x rest => exact .present hfind (readAll_map hread)

theorem ofTexts {texts : List String} (hfind : fields.find? name = nonempty (texts.map .text)) :
    fields.Gives ⟨name, asList asText⟩ (some []) texts :=
  ofItems hfind fun _ _ => rfl

end Gives

end Fields

theorem checkEntries_eq_ok {checks : List Check} {bound : Option String}
    {entries : Entries Data bound}
    (h : ∀ check ∈ checks, ∀ data, (check.name, data) ∈ entries.toList →
      check.run data = .ok ()) :
    checkEntries checks entries = .ok () := by
  induction entries with
  | nil => rfl
  | cons key above data rest ih =>
    have hrest := ih fun check hcheck data hdata =>
      h check hcheck data (List.mem_cons_of_mem _ hdata)
    rw [checkEntries]
    cases hcheck : checks.find? fun check => check.name == key with
    | none => exact hrest  -- no field has this name
    | some check =>
      obtain rfl : check.name = key := by simpa using List.find?_some hcheck
      have hrun := h check (List.mem_of_find?_eq_some hcheck) data (List.mem_cons_self ..)
      simp only [hrun]
      exact hrest

/-- A map of members is a record, if every check passes on it. -/
theorem record_of_passes {checks : List Check} {members : List (String × Data)}
    (h : ∀ check ∈ checks, (Fields.of (ofFields members)).Passes check) :
    (ofFields members).record checks = .ok (Fields.of (ofFields members)) := by
  have hchecks : checkEntries checks (Dict.ofList members) = .ok () :=
    checkEntries_eq_ok fun check hcheck data hdata =>
      h check hcheck data (Entries.find?_of_mem_toList hdata)
  rw [ofFields, record, hchecks]
  rfl

end Data

end FactScore
