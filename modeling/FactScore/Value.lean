import FactScore.Data
import FactScore.Decimal.Notation
import FactScore.Json.Writer

/-!
# Fact values

A fact is missing, a truth value, a number, a text, a list or a map.  `Missing` is the value of a
fact that is not there; as data it is `null`, and so is a number that is not finite.
-/

namespace FactScore

/-- A fact value. -/
inductive Value where
  | missing
  | bool (value : Bool)
  | number (value : Float)
  | text (value : String)
  | list (items : List Value)
  | map (entries : Entries Value none)

namespace Value

instance : Inhabited Value := ⟨.missing⟩

def isMissing : Value → Bool
  | .missing => true
  | _ => false

/-- Whether a value counts as true: every number but zero does, and so does every text, list and
    map that is not empty. -/
def isTruthy : Value → Bool
  | .missing => false
  | .bool b => b
  | .number x => x != 0
  | .text s => !s.isEmpty
  | .list items => !items.isEmpty
  | .map entries => !entries.isEmpty

def number? : Value → Option Float
  | .number x => some x
  | _ => none

def bool? : Value → Option Bool
  | .bool b => some b
  | _ => none

def text? : Value → Option String
  | .text s => some s
  | _ => none

/-- The name of the kind of a value, as error messages give it. -/
def kindName : Value → String
  | .missing => "missing"
  | .bool _ => "bool"
  | .number _ => "number"
  | .text _ => "text"
  | .list _ => "list"
  | .map _ => "map"

mutual

/-- Whether two values are the same.  Numbers are compared as numbers: not-a-number differs from
    itself, and the two zeros are the same. -/
def equal : Value → Value → Bool
  | .missing, .missing => true
  | .bool a, .bool b => a == b
  | .number a, .number b => a == b
  | .text a, .text b => a == b
  | .list as, .list bs => equalItems as bs
  | .map as, .map bs => equalEntries as bs
  | _, _ => false

/-- Whether two lists hold the same values in the same order. -/
def equalItems : List Value → List Value → Bool
  | [], [] => true
  | a :: as, b :: bs => equal a b && equalItems as bs
  | _, _ => false

/-- Whether two maps hold the same values under the same keys. -/
def equalEntries : {bound bound' : Option String} →
    Entries Value bound → Entries Value bound' → Bool
  | _, _, .nil, .nil => true
  | _, _, .cons key _ a as, .cons key' _ b bs => key == key' && equal a b && equalEntries as bs
  | _, _, _, _ => false

end

instance : BEq Value := ⟨equal⟩

mutual

/-- The value that some data stands for. -/
def ofData : Data → Value
  | .null => .missing
  | .bool b => .bool b
  | .int n => .number (.ofInt n)
  | .float x => .number x
  | .text s => .text s
  | .list items => .list (ofDataItems items)
  | .map entries => .map (ofDataEntries entries)

/-- The values that the items of a list stand for. -/
def ofDataItems : List Data → List Value
  | [] => []
  | item :: rest => ofData item :: ofDataItems rest

/-- The values that the members of a map stand for. -/
def ofDataEntries : {bound : Option String} → Entries Data bound → Entries Value bound
  | _, .nil => .nil
  | _, .cons key above item rest => .cons key above (ofData item) (ofDataEntries rest)

end

/-- A number as data; only finite numbers have a form of their own. -/
def numberData (x : Float) : Data :=
  if x.isFinite then .float x else .null

mutual

/-- The data form of a value. -/
def toData : Value → Data
  | .missing => .null
  | .bool b => .bool b
  | .number x => numberData x
  | .text s => .text s
  | .list items => .list (toDataItems items)
  | .map entries => .map (toDataEntries entries)

/-- The data forms of the items of a list. -/
def toDataItems : List Value → List Data
  | [] => []
  | item :: rest => toData item :: toDataItems rest

/-- The data forms of the values of a map. -/
def toDataEntries : {bound : Option String} → Entries Value bound → Entries Data bound
  | _, .nil => .nil
  | _, .cons key above item rest => .cons key above (toData item) (toDataEntries rest)

end

/-- The text of a value: texts as they are, numbers in the plain notation, and lists and maps as
    compact JSON. -/
def display : Value → String
  | .missing => "missing"
  | .bool true => "true"
  | .bool false => "false"
  | .number x => NumberNotation.plain.render x
  | .text s => s
  | .list items => (toData (.list items)).compact
  | .map entries => (toData (.map entries)).compact

end Value

end FactScore
