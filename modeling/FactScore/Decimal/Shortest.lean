/-!
# Shortest decimals

The fewest decimal digits that identify a binary floating-point number, found by exact arithmetic
on natural numbers.  The reals that round to the number form an interval; a grid of decimals with
one, two, three digits and so on is laid over it until one of the number's two neighbours on the
grid falls inside.
-/

namespace FactScore

/-- A power of two. -/
def twoTo (exponent : Nat) : Nat := Nat.pow 2 exponent

/-- A power of ten. -/
def tenTo (exponent : Nat) : Nat := Nat.pow 10 exponent

/-- Which of two equally close decimals is taken. -/
inductive Tie where
  | up
  | toEven
  deriving DecidableEq, Repr

/-- A finite positive binary number `mantissa * 2 ^ exponent`.  `narrow` says that the gap to the
    number below is half of the gap to the number above. -/
structure BinaryNumber where
  mantissa : Nat
  exponent : Int
  narrow : Bool
  deriving DecidableEq, Repr

/-- A decimal number `digits * 10 ^ exponent`. -/
structure DecimalNumber where
  digits : Nat
  exponent : Int
  deriving DecidableEq, Repr

namespace BinaryNumber

/-- The magnitude that the bits of a finite number stand for. -/
def ofBits (bits : Nat) : BinaryNumber :=
  let fraction := bits % twoTo 52
  let field := bits / twoTo 52 % twoTo 11
  if field = 0 then
    { mantissa := fraction, exponent := -1074, narrow := false }
  else
    { mantissa := twoTo 52 + fraction
      exponent := Int.ofNat field - 1075
      narrow := fraction = 0 ∧ 1 < field }

/-- Numerator and denominator of the number measured in units of `10 ^ grid`. -/
def measured (x : BinaryNumber) (grid : Int) : Nat × Nat :=
  (x.mantissa * twoTo x.exponent.toNat * tenTo (-grid).toNat,
    twoTo (-x.exponent).toNat * tenTo grid.toNat)

/-- Whether the decimal `digits * 10 ^ grid` is read back as the number: it lies between the
    midpoints to the two neighbours, which belong to the number when its mantissa is even. -/
def readsBack (x : BinaryNumber) (digits : Nat) (grid : Int) : Bool :=
  let unit := twoTo x.exponent.toNat * tenTo (-grid).toNat
  let (_, den) := x.measured grid
  let low := (4 * x.mantissa - (if x.narrow then 1 else 2)) * unit
  let high := (4 * x.mantissa + 2) * unit
  let here := 4 * digits * den
  if x.mantissa % 2 = 0 then
    decide (low ≤ here) && decide (here ≤ high)
  else
    decide (low < here) && decide (here < high)

/-- The neighbour of the number on the grid `10 ^ grid` that is read back as it; of two such
    neighbours the closer one, and of two equally close ones the one that `tie` names. -/
def onGrid? (x : BinaryNumber) (tie : Tie) (grid : Int) : Option DecimalNumber :=
  let (num, den) := x.measured grid
  let below := num / den
  let above := below + 1
  let takeBelow : Bool :=
    if x.readsBack below grid then
      if x.readsBack above grid then
        let twice := 2 * (num % den)
        if twice = den then tie == .toEven && below % 2 == 0 else decide (twice < den)
      else true
    else false
  if takeBelow then some ⟨below, grid⟩
  else if x.readsBack above grid then some ⟨above, grid⟩
  else none

/-- The least `scale` with the number below `10 ^ scale`, searched around the estimate that the
    binary logarithm gives. -/
def scale (x : BinaryNumber) : Int :=
  let estimate := ((Nat.log2 x.mantissa : Int) + x.exponent) * 30103 / 100000
  let below (scale : Int) : Bool :=
    let (num, den) := x.measured scale
    decide (num < den)
  (([-1, 0, 1, 2].map (estimate + ·)).find? below).getD (estimate + 3)

/-- The shortest decimal among those of at most seventeen digits, tried from the coarsest grid
    to the finest, which always holds one. -/
def shortest (x : BinaryNumber) (tie : Tie) : DecimalNumber :=
  let scale := x.scale
  ((List.range 17).findSome? fun places => x.onGrid? tie (scale - 1 - Int.ofNat places)).getD
    { digits := (x.measured (scale - 17)).1 / (x.measured (scale - 17)).2
      exponent := scale - 17 }

end BinaryNumber

namespace DecimalNumber

/-- Move trailing zeros of the digits into the exponent. -/
def normalize (d : DecimalNumber) : DecimalNumber :=
  if _h : 0 < d.digits ∧ d.digits % 10 = 0 then
    normalize { digits := d.digits / 10, exponent := d.exponent + 1 }
  else d
termination_by d.digits
decreasing_by omega

end DecimalNumber

end FactScore
