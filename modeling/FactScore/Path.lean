/-!
# Fact paths

A path is a dotted address of a fact, such as `month.gyeok.quality.multiplier`.  Its segments are
the parts between dots that are not empty, so stray dots never matter.
-/

namespace FactScore

/-- A dotted address of a fact. -/
structure FactPath where
  text : String
  deriving DecidableEq, Repr, Inhabited

/-- The parts of a text between dots, empty ones included; there is always at least one. -/
def splitAtDots : List Char → List (List Char)
  | [] => [[]]
  | '.' :: cs => [] :: splitAtDots cs
  | c :: cs => (splitAtDots cs).modifyHead (c :: ·)

namespace FactPath

/-- The parts of the path that are not empty. -/
def segments (path : FactPath) : List String :=
  ((splitAtDots path.text.toList).filter fun part => !part.isEmpty).map String.ofList

/-- The path with a segment added after a dot; an empty path becomes the segment. -/
def join (path : FactPath) (segment : String) : FactPath :=
  if path.text = "" then ⟨segment⟩ else ⟨path.text ++ "." ++ segment⟩

end FactPath

end FactScore
