/-!
# Dictionaries with text keys

`Dict α` maps texts to values of `α`, with its entries in the order of their keys.  The order is
part of the type: every entry carries the proof that its key comes after the one before it, so
two dictionaries that answer every look-up alike are equal (`Entries.ext`), and writing a
dictionary out never needs a sort.
-/

namespace FactScore

/-- A key comes strictly after its bound; with no bound every key does. -/
def KeyAbove (bound : Option String) (key : String) : Prop :=
  ∀ low, bound = some low → low < key

/-- Entries in increasing order of their keys, all of them above a bound. -/
inductive Entries (α : Type) : Option String → Type where
  | nil {bound : Option String} : Entries α bound
  | cons {bound : Option String} (key : String) (above : KeyAbove bound key) (value : α)
      (rest : Entries α (some key)) : Entries α bound

/-- A dictionary: entries in key order with no lower bound on the keys. -/
abbrev Dict (α : Type) := Entries α none

theorem KeyAbove.of_none (key : String) : KeyAbove none key := by
  intro low h
  cases h

theorem KeyAbove.of_lt {low key : String} (h : low < key) : KeyAbove (some low) key := by
  intro low' h'
  cases h'
  exact h

theorem KeyAbove.trans {bound : Option String} {low key : String}
    (first : KeyAbove bound low) (second : KeyAbove (some low) key) : KeyAbove bound key :=
  fun below h => Std.lt_trans (first below h) (second low rfl)

namespace Entries

variable {α β : Type} {bound : Option String}

instance : Inhabited (Entries α bound) := ⟨.nil⟩

instance : EmptyCollection (Entries α bound) := ⟨.nil⟩

/-- The value stored under a key. -/
def find? (key : String) : {bound : Option String} → Entries α bound → Option α
  | _, .nil => none
  | _, .cons key' _ value rest => if key = key' then some value else rest.find? key

/-- Whether a key is present. -/
def contains (entries : Entries α bound) (key : String) : Bool :=
  (entries.find? key).isSome

/-- The entries as pairs, in key order. -/
def toList : {bound : Option String} → Entries α bound → List (String × α)
  | _, .nil => []
  | _, .cons key _ value rest => (key, value) :: rest.toList

/-- The keys, in order. -/
def keys (entries : Entries α bound) : List String :=
  entries.toList.map Prod.fst

/-- The values, in the order of their keys. -/
def values (entries : Entries α bound) : List α :=
  entries.toList.map Prod.snd

/-- The number of entries. -/
def size (entries : Entries α bound) : Nat :=
  entries.toList.length

/-- Whether there is no entry. -/
def isEmpty : {bound : Option String} → Entries α bound → Bool
  | _, .nil => true
  | _, .cons .. => false

/-- Apply a function to every value. -/
def map (f : α → β) : {bound : Option String} → Entries α bound → Entries β bound
  | _, .nil => .nil
  | _, .cons key above value rest => .cons key above (f value) (rest.map f)

/-- Put a value under a key that is above the bound, replacing the one that was there. -/
def insertAbove (key : String) (value : α) :
    {bound : Option String} → KeyAbove bound key → Entries α bound → Entries α bound
  | _, above, .nil => .cons key above value .nil
  | _, above, .cons key' above' value' rest =>
    if before : key < key' then
      .cons key above value (.cons key' (.of_lt before) value' rest)
    else if same : key' = key then
      .cons key' above' value rest
    else
      .cons key' above' value'
        (rest.insertAbove key value
          (.of_lt (Std.lt_of_le_of_ne (Std.not_lt.mp before) same)))

/-- Loosen the bound of some entries. -/
def weaken {bound' : Option String} (h : ∀ key, KeyAbove bound key → KeyAbove bound' key) :
    Entries α bound → Entries α bound'
  | .nil => .nil
  | .cons key above value rest => .cons key (h key above) value rest

/-- Remove a key. -/
def erase (key : String) : {bound : Option String} → Entries α bound → Entries α bound
  | _, .nil => .nil
  | _, .cons key' above value rest =>
    if key = key' then
      rest.weaken fun _ later => above.trans later
    else
      .cons key' above value (rest.erase key)

end Entries

namespace Dict

variable {α : Type}

/-- Put a value under a key, replacing the one that was there. -/
def insert (dict : Dict α) (key : String) (value : α) : Dict α :=
  Entries.insertAbove key value (.of_none key) dict

/-- The dictionary of some pairs; of two pairs with one key the later one stays. -/
def ofList (pairs : List (String × α)) : Dict α :=
  pairs.foldl (fun dict pair => dict.insert pair.1 pair.2) .nil

/-- Put in every key of a list, each with the same value. -/
def insertKeys (dict : Dict α) (keys : List String) (value : α) : Dict α :=
  keys.foldl (fun dict key => dict.insert key value) dict

end Dict

/-- The distinct texts of a list, in order. -/
def sortDistinct (texts : List String) : List String :=
  (Dict.insertKeys .nil texts ()).keys

end FactScore
