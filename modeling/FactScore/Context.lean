import FactScore.Fault
import FactScore.Path
import FactScore.Value

/-!
# Contexts

A context is the nested map of all known facts.  Reading never fails: what a path does not reach
is missing.  Writing makes the maps that the path needs, in place of whatever else was there.
-/

namespace FactScore

/-- All known facts, as a nested map. -/
structure Context where
  root : Dict Value
  deriving Inhabited

namespace Value

/-- The map that a value is; anything else counts as the empty map. -/
def asMap : Option Value → Dict Value
  | some (.map entries) => entries
  | _ => .nil

/-- Go down from a value by one key after another. -/
def descend : Value → List String → Option Value
  | value, [] => some value
  | .map entries, key :: keys => do descend (← entries.find? key) keys
  | _, _ :: _ => none

end Value

namespace Context

def empty : Context := ⟨.nil⟩

def isEmpty (context : Context) : Bool :=
  context.root.isEmpty

/-- The names of the facts at the top, in order. -/
def keys (context : Context) : List String :=
  context.root.keys

/-- The value at the end of some segments, of which there has to be at least one. -/
def lookupAt (context : Context) : List String → Option Value
  | [] => none
  | key :: keys => do (← context.root.find? key).descend keys

/-- The value that a path reaches, an explicitly missing one included. -/
def lookup (context : Context) (path : FactPath) : Option Value :=
  context.lookupAt path.segments

/-- The value that a path reaches, missing if it reaches none. -/
def get (context : Context) (path : FactPath) : Value :=
  (context.lookup path).getD .missing

/-- Whether a fact is there and not explicitly missing. -/
def contains (context : Context) (path : FactPath) : Bool :=
  (context.lookup path).any fun value => !value.isMissing

/-- Put a value at the end of some segments, making the maps on the way. -/
def setAt (entries : Dict Value) : List String → Value → Dict Value
  | [], _ => entries
  | [key], value => entries.insert key value
  | key :: keys, value =>
    entries.insert key (.map (setAt (Value.asMap (entries.find? key)) keys value))

/-- Set the fact at a path.  A path without segments changes nothing. -/
def set (context : Context) (path : FactPath) (value : Value) : Context :=
  ⟨setAt context.root path.segments value⟩

mutual

/-- A value laid over the one that was there: two maps are merged, and otherwise the new value
    stands alone. -/
def overlay (old : Option Value) : Value → Value
  | .map incoming =>
    match old with
    | some (.map existing) => .map (mergeInto existing incoming)
    | _ => .map incoming
  | value => value

/-- Lay every entry of one map over another map. -/
def mergeInto (target : Dict Value) : {bound : Option String} → Entries Value bound → Dict Value
  | _, .nil => target
  | _, .cons key _ value rest =>
    mergeInto (target.insert key (overlay (target.find? key) value)) rest

end

/-- Both contexts in one; where they differ, the other one wins. -/
def merge (context other : Context) : Context :=
  ⟨mergeInto context.root other.root⟩

/-- The context of a document: its map, or nothing if it is no map. -/
def ofData (data : Data) : Context :=
  match Value.ofData data with
  | .map root => ⟨root⟩
  | _ => empty

/-- The context of a document that has to be a map. -/
def decode : Data → Except Fault Context
  | .map entries => .ok ⟨Value.ofDataEntries entries⟩
  | _ => .error .malformed

/-- The data form of a context. -/
def toData (context : Context) : Data :=
  .map (Value.toDataEntries context.root)

end Context

end FactScore
