import FactScore.Data
import FactScore.Json.Reader

/-!
# Numbers of a TOML document

Integers fit into 64 bits with a sign; they are decimal, or hexadecimal, octal or binary behind
`0x`, `0o` or `0b`.  A number with a fraction or an exponent is the nearest floating-point number.
Single underscores may stand between digits, and a decimal number has no zeros in front.
-/

namespace FactScore.Toml

/-- A reader of values of `α` from the front of a text. -/
abbrev Reader (α : Type) := List Char → Option (α × List Char)

/-- A character in front of what a reader of characters finds. -/
def prepend (c : Char) (found : Option (List Char × List Char)) : Option (List Char × List Char) :=
  found.map fun (cs, rest) => (c :: cs, rest)

/-- More digits, each of them after at most one underscore. -/
def moreDigits (isDigit : Char → Bool) : Reader (List Char)
  | [] => some ([], [])
  | '_' :: c :: rest => if isDigit c then prepend c (moreDigits isDigit rest) else none
  | ['_'] => none
  | c :: rest => if isDigit c then prepend c (moreDigits isDigit rest) else some ([], c :: rest)

/-- One or more digits with single underscores between them. -/
def readDigits (isDigit : Char → Bool) : Reader (List Char)
  | c :: rest => if isDigit c then prepend c (moreDigits isDigit rest) else none
  | [] => none

/-- The digits of a decimal integer: a single zero, or no zero in front. -/
def readWholeDigits : Reader (List Char)
  | '0' :: rest => some (['0'], rest)
  | cs => readDigits Char.isDigit cs

/-- The number that digits of some base stand for. -/
def valueInBase (base : Nat) (digits : List Char) : Nat :=
  digits.foldl (fun n c => n * base + (Json.hexDigit? c).getD 0) 0

/-- An integer that fits into 64 bits with a sign. -/
def fitted? (n : Int) : Option Data :=
  if -0x8000000000000000 ≤ n ∧ n < 0x8000000000000000 then some (.int n) else none

/-- The digits of an integer of another base behind its two-character mark. -/
def readInBase (base : Nat) : Reader Data := fun cs => do
  let isDigit (c : Char) : Bool := (Json.hexDigit? c).any fun digit => digit < base
  let (digits, rest) ← readDigits isDigit cs
  return (← fitted? (valueInBase base digits), rest)

/-- The exponent after its letter. -/
def readExponent : Reader Int
  | '-' :: cs => do
    let (digits, rest) ← readDigits Char.isDigit cs
    return (-(Json.digitsValue digits), rest)
  | cs => do
    let (digits, rest) ← readDigits Char.isDigit (match cs with | '+' :: cs => cs | cs => cs)
    return (Json.digitsValue digits, rest)

/-- The digits of a fraction, if there is one. -/
def readFraction : Reader (Option (List Char))
  | '.' :: cs => do
    let (digits, rest) ← readDigits Char.isDigit cs
    return (some digits, rest)
  | cs => some (none, cs)

/-- An exponent, if there is one. -/
def readOptionalExponent : Reader (Option Int)
  | 'e' :: cs | 'E' :: cs => do
    let (exponent, rest) ← readExponent cs
    return (some exponent, rest)
  | cs => some (none, cs)

/-- A positive number that is too large is refused, and a negative one is negative infinity. -/
def nearestSigned? (negative : Bool) (digits : List Char) (exponent : Int) : Option Float :=
  match Json.nearest? digits exponent with
  | some x => some (if negative then -x else x)
  | none => if negative then some (-1.0 / 0.0) else none

/-- A decimal number, or a name of a number that is not finite, whose sign has been read. -/
def readUnsigned (negative : Bool) : Reader Data
  | 'i' :: 'n' :: 'f' :: rest => some (.float (if negative then -1.0 / 0.0 else 1.0 / 0.0), rest)
  | 'n' :: 'a' :: 'n' :: rest => some (.float (0.0 / 0.0), rest)
  | cs => do
    let (whole, rest) ← readWholeDigits cs
    let (fraction, rest) ← readFraction rest
    let (exponent, rest) ← readOptionalExponent rest
    if fraction.isNone && exponent.isNone then
      let n : Int := Json.digitsValue whole
      return (← fitted? (if negative then -n else n), rest)
    else
      let fraction := fraction.getD []
      let x ← nearestSigned? negative (whole ++ fraction) (exponent.getD 0 - fraction.length)
      return (.float x, rest)

/-- A number. -/
def readNumber : Reader Data
  | '0' :: 'x' :: cs => readInBase 16 cs
  | '0' :: 'o' :: cs => readInBase 8 cs
  | '0' :: 'b' :: cs => readInBase 2 cs
  | '-' :: cs => readUnsigned true cs
  | '+' :: cs => readUnsigned false cs
  | cs => readUnsigned false cs

end FactScore.Toml
