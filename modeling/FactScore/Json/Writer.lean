import FactScore.Data
import FactScore.Decimal.Notation
import FactScore.Text.Quoted

/-!
# Compact JSON text

Data as JSON text without any blanks: keys in order, integers as they are, other numbers in the
document notation, and `null` for numbers that are not finite.
-/

namespace FactScore.Data

mutual

/-- The compact JSON text of some data. -/
def compact : Data → String
  | .null => "null"
  | .bool true => "true"
  | .bool false => "false"
  | .int n => toString n
  | .float x => NumberNotation.document.render x
  | .text s => Text.documentQuoted s
  | .list items => "[" ++ ",".intercalate (compactItems items) ++ "]"
  | .map entries => "\x7b" ++ ",".intercalate (compactEntries entries) ++ "\x7d"

/-- The compact JSON texts of the items of a list. -/
def compactItems : List Data → List String
  | [] => []
  | item :: rest => compact item :: compactItems rest

/-- The compact JSON texts of the members of a map. -/
def compactEntries : {bound : Option String} → Entries Data bound → List String
  | _, .nil => []
  | _, .cons key _ value rest =>
    (Text.documentQuoted key ++ ":" ++ compact value) :: compactEntries rest

end

end FactScore.Data
