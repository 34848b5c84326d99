import FactScore.Data
import FactScore.Fault

/-!
# Records in data

A record is written as a map with a key for each of its fields, or as a list that gives the fields
by position and may leave off the last ones.  The fields that are there are checked in the order
in which they stand, so the first one that is wrong decides what is reported; a field that is
needed and not there is only missed after that.  Keys that name no field are ignored.
-/

namespace FactScore.Data

def asText : Data → Except Fault String
  | .text s => .ok s
  | _ => .error .malformed

def asBool : Data → Except Fault Bool
  | .bool b => .ok b
  | _ => .error .malformed

/-- A number; an integer is rounded to the nearest one. -/
def asNumber (data : Data) : Except Fault Float :=
  match data.number? with
  | some x => .ok x
  | none => .error .malformed

variable {α : Type}

/-- Read every item of a list, in order. -/
def readAll (read : Data → Except Fault α) : List Data → Except Fault (List α)
  | [] => .ok []
  | item :: rest => do
    let value ← read item
    let values ← readAll read rest
    return value :: values

/-- A list whose items are all read alike. -/
def asList (read : Data → Except Fault α) : Data → Except Fault (List α)
  | .list items => readAll read items
  | _ => .error .malformed

/-- Read every value of a map, in key order. -/
def readEntries (read : Data → Except Fault α) :
    {bound : Option String} → Entries Data bound → Except Fault (Entries α bound)
  | _, .nil => .ok .nil
  | _, .cons key above item rest => do
    let value ← read item
    let values ← readEntries read rest
    return .cons key above value values

/-- A map whose values are all read alike. -/
def asDict (read : Data → Except Fault α) : Data → Except Fault (Dict α)
  | .map entries => readEntries read entries
  | _ => .error .malformed

/-- Either nothing or what is read. -/
def orNull (read : Data → Except Fault α) : Data → Except Fault (Option α)
  | .null => .ok none
  | data => do return some (← read data)

/-- A field of a record: its name, and how its data is read. -/
structure RecordField (α : Type) where
  name : String
  read : Data → Except Fault α

/-- A field reduced to the question whether its data can be read. -/
structure Check where
  name : String
  run : Data → Except Fault Unit

def RecordField.check (field : RecordField α) : Check :=
  ⟨field.name, fun data => do discard (field.read data)⟩

/-- The data of the fields of a record. -/
structure Fields where
  find? : String → Option Data

namespace Fields

/-- A field that has to be there. -/
def required (fields : Fields) (field : RecordField α) : Except Fault α :=
  match fields.find? field.name with
  | some data => field.read data
  | none => .error .malformed

/-- A field with a value to take when it is not there. -/
def withDefault (fields : Fields) (field : RecordField α) (value : α) : Except Fault α :=
  match fields.find? field.name with
  | some data => field.read data
  | none => .ok value

end Fields

/-- Check the members of a map in order. -/
def checkEntries (checks : List Check) :
    {bound : Option String} → Entries Data bound → Except Fault Unit
  | _, .nil => .ok ()
  | _, .cons key _ data rest => do
    match checks.find? fun check => check.name == key with
    | some check => check.run data
    | none => pure ()
    checkEntries checks rest

/-- Check the items of a list, each as the field in its position. -/
def checkItems : List Check → List Data → Except Fault Unit
  | _, [] => .ok ()
  | [], _ :: _ => .error .malformed
  | check :: checks, data :: rest => do
    check.run data
    checkItems checks rest

/-- The fields of a record, all of those that are there having been checked. -/
def record (checks : List Check) : Data → Except Fault Fields
  | .map entries => do
    checkEntries checks entries
    return ⟨entries.find?⟩
  | .list items => do
    checkItems checks items
    return ⟨fun name => ((checks.map Check.name).zip items).lookup name⟩
  | _ => .error .malformed

/-- A member of a map that is only written when there is something to write. -/
def member (name : String) (data : Option Data) : List (String × Data) :=
  match data with
  | some data => [(name, data)]
  | none => []

/-- A list that is only written when it is not empty. -/
def nonempty : List Data → Option Data
  | [] => none
  | items => some (.list items)

end FactScore.Data
