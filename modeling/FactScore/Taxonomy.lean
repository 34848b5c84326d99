import FactScore.Data
import FactScore.Fault

/-!
# Taxonomies

A taxonomy is a closed set of terms.  It lists its members in a fixed order, which is the order of
the rules generated from it, and gives each of them a name, by which data refers to it.
-/

namespace FactScore

/-- A closed set of named members in a fixed order. -/
class Taxonomy (α : Type) where
  members : List α
  name : α → String

namespace Taxonomy

variable {α : Type} [Taxonomy α]

/-- The member with a name. -/
def ofName? (name : String) : Option α :=
  (members : List α).find? fun member => Taxonomy.name member == name

/-- The names of all members, in order. -/
def names (α : Type) [Taxonomy α] : List String :=
  (members : List α).map name

/-- The member that some data names. -/
def ofData (payload : Data.Payload) (data : Data) : Except Fault α :=
  match (data.name? payload).bind ofName? with
  | some member => .ok member
  | none => .error .malformed

end Taxonomy

end FactScore
