import FactScore.Dict

/-!
# Untyped data

`Data` is what a document holds before it is read as anything in particular: the common form of
JSON and TOML documents.  Integers and floating-point numbers are kept apart, because a document
that is shown again must show its integers as they were written.
-/

namespace FactScore

/-- Untyped data.  A map has no repeated keys and lists its entries in key order. -/
inductive Data where
  | null
  | bool (value : Bool)
  | int (value : Int)
  | float (value : Float)
  | text (value : String)
  | list (items : List Data)
  | map (entries : Entries Data none)

namespace Data

instance : Inhabited Data := ⟨.null⟩

def isNull : Data → Bool
  | .null => true
  | _ => false

/-- The number that a piece of data stands for, an integer being rounded to the nearest one. -/
def number? : Data → Option Float
  | .int n => some (.ofInt n)
  | .float x => some x
  | _ => none

def text? : Data → Option String
  | .text s => some s
  | _ => none

def bool? : Data → Option Bool
  | .bool b => some b
  | _ => none

/-- What is under a key of a map. -/
def field? (key : String) : Data → Option Data
  | .map entries => entries.find? key
  | _ => none

/-- What may stand for the absent payload of a name that is written as a map of one key. -/
inductive Payload where
  /-- Only `null`. -/
  | null
  /-- Either `null` or the empty map. -/
  | nullOrEmpty
  /-- An empty map or list. -/
  | empty

/-- Whether some data is an absent payload. -/
def Payload.admits : Payload → Data → Bool
  | .null, .null => true
  | .nullOrEmpty, .null => true
  | .nullOrEmpty, .map .nil => true
  | .empty, .map .nil => true
  | .empty, .list [] => true
  | _, _ => false

/-- The name that some data gives: a text, or a map with the name as its only key. -/
def name? (payload : Payload) : Data → Option String
  | .text s => some s
  | .map (.cons key _ value .nil) => if payload.admits value then some key else none
  | _ => none

/-- A map from pairs; of two pairs with one key the later one stays. -/
def ofFields (fields : List (String × Data)) : Data :=
  .map (Dict.ofList fields)

mutual

/-- The data with `null` in place of every number that is not finite. -/
def finite : Data → Data
  | .float x => if x.isFinite then .float x else .null
  | .list items => .list (finiteItems items)
  | .map entries => .map (finiteEntries entries)
  | data => data

/-- Every item of a list without numbers that are not finite. -/
def finiteItems : List Data → List Data
  | [] => []
  | item :: rest => finite item :: finiteItems rest

/-- Every value of a map without numbers that are not finite. -/
def finiteEntries : {bound : Option String} → Entries Data bound → Entries Data bound
  | _, .nil => .nil
  | _, .cons key above item rest => .cons key above (finite item) (finiteEntries rest)

end

end Data

end FactScore
