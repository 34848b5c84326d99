import FactScore.Decimal.Shortest

/-!
# Number notation

How the digits of a number are laid out as text.  `NumberNotation` collects every decision, and
`NumberNotation.render` follows it.  Two notations are in use: `NumberNotation.plain` for numbers
shown to people and for placeholders, and `NumberNotation.document` for numbers inside JSON text.
-/

namespace FactScore

/-- The decisions of a number format. -/
structure NumberNotation where
  /-- Which of two equally short, equally close decimals is written. -/
  tie : Tie
  /-- The decimal exponents that are written without an exponent part. -/
  positional : Int → Bool
  /-- What follows the digits of an integral number written positionally. -/
  integralTail : String
  /-- The texts of not-a-number and of the two infinities. -/
  notANumber : String
  infinity : String
  negativeInfinity : String

namespace NumberNotation

/-- Fewest digits, never an exponent, nothing after an integral number. -/
def plain : NumberNotation where
  tie := .up
  positional := fun _ => true
  integralTail := ""
  notANumber := "NaN"
  infinity := "inf"
  negativeInfinity := "-inf"

/-- Fewest digits, positional with at least one decimal while the exponent is within -5 and 15,
    and otherwise with a signed exponent. -/
def document : NumberNotation where
  tie := .toEven
  positional := fun exponent => decide (-5 ≤ exponent) && decide (exponent ≤ 15)
  integralTail := ".0"
  notANumber := "null"
  infinity := "null"
  negativeInfinity := "null"

/-- Digits with the decimal point placed so that the first digit stands for `10 ^ exponent`. -/
def layPositional (layout : NumberNotation) (digits : List Char) (exponent : Int) : List Char :=
  if exponent < 0 then
    '0' :: '.' :: List.replicate (-exponent - 1).toNat '0' ++ digits
  else
    let whole := exponent.toNat + 1
    if digits.length ≤ whole then
      digits ++ List.replicate (whole - digits.length) '0' ++ layout.integralTail.toList
    else
      digits.take whole ++ '.' :: digits.drop whole

/-- One digit, a point and the other digits if there are any, and the signed exponent. -/
def layScientific (digits : List Char) (exponent : Int) : List Char :=
  let fraction := match digits.drop 1 with
    | [] => []
    | rest => '.' :: rest
  let sign := if exponent < 0 then '-' else '+'
  digits.take 1 ++ fraction ++ 'e' :: sign :: (Nat.repr exponent.natAbs).toList

/-- The text of a number that is neither infinite nor not-a-number, without its sign. -/
def layMagnitude (layout : NumberNotation) (x : BinaryNumber) : List Char :=
  if x.mantissa = 0 then
    layout.layPositional ['0'] 0
  else
    let decimal := (x.shortest layout.tie).normalize
    let digits := (Nat.repr decimal.digits).toList
    let exponent := decimal.exponent + digits.length - 1
    if layout.positional exponent then layout.layPositional digits exponent
    else layScientific digits exponent

/-- The text of a number. -/
def render (layout : NumberNotation) (x : Float) : String :=
  if x.isNaN then layout.notANumber
  else
    let bits := x.toBits.toNat
    let negative : Bool := decide (twoTo 63 ≤ bits)
    if x.isInf then if negative then layout.negativeInfinity else layout.infinity
    else
      let magnitude := layout.layMagnitude (.ofBits bits)
      String.ofList (if negative then '-' :: magnitude else magnitude)

end NumberNotation

end FactScore
