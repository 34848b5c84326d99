import FactScore.Toml.Number

/-!
# Dates and times of a TOML document

A moment is a date, a time, or both, and one with both may have an offset.  As data it is a map
with a single key, `momentKey`, and the moment in a uniform spelling: `T` between date and time,
`Z` for no offset, and a fraction of at most nine digits with no zeros at its end.
-/

namespace FactScore.Toml

/-- The key under which data keeps a moment. -/
def momentKey : String := "$__toml_private_datetime"

/-- Two digits that stand for a number within bounds. -/
def readTwo (low high : Nat) : Reader (List Char)
  | a :: b :: rest =>
    if a.isDigit && b.isDigit then
      let n := Json.digitsValue [a, b]
      if low ≤ n ∧ n ≤ high then some ([a, b], rest) else none
    else none
  | _ => none

/-- A given character. -/
def readChar (expected : Char) : Reader Unit
  | c :: rest => if c = expected then some ((), rest) else none
  | [] => none

/-- The number of days of a month. -/
def daysOf (year month : Nat) : Nat :=
  if month = 2 then
    if year % 4 = 0 ∧ (year % 100 ≠ 0 ∨ year % 400 = 0) then 29 else 28
  else if month = 4 ∨ month = 6 ∨ month = 9 ∨ month = 11 then 30
  else 31

/-- A date: year, month and day. -/
def readDate : Reader (List Char)
  | a :: b :: c :: d :: '-' :: rest => do
    let year := [a, b, c, d]
    if year.all Char.isDigit then
      let (month, rest) ← readTwo 1 12 rest
      let ((), rest) ← readChar '-' rest
      let (day, rest) ← readTwo 1 31 rest
      if Json.digitsValue day ≤ daysOf (Json.digitsValue year) (Json.digitsValue month) then
        return (year ++ '-' :: month ++ '-' :: day, rest)
      else none
    else none
  | _ => none

/-- The digits of a fraction of a second in their uniform spelling. -/
def fractionText (digits : List Char) : List Char :=
  match ((digits.take 9).reverse.dropWhile (· == '0')).reverse with
  | [] => []
  | digits => '.' :: digits

/-- A time: hour, minute, second, and maybe a fraction. -/
def readTime : Reader (List Char) := fun cs => do
  let (hour, rest) ← readTwo 0 23 cs
  let ((), rest) ← readChar ':' rest
  let (minute, rest) ← readTwo 0 59 rest
  let ((), rest) ← readChar ':' rest
  let (second, rest) ← readTwo 0 60 rest
  let time := hour ++ ':' :: minute ++ ':' :: second
  match rest with
  | '.' :: rest =>
    let digits := rest.takeWhile Char.isDigit
    if digits.isEmpty then none
    else some (time ++ fractionText digits, rest.dropWhile Char.isDigit)
  | _ => some (time, rest)

/-- An offset with its sign.  The offset of no minutes is positive. -/
def readOffset (sign : Char) : Reader (List Char) := fun cs => do
  let (hour, rest) ← readTwo 0 23 cs
  let ((), rest) ← readChar ':' rest
  let (minute, rest) ← readTwo 0 59 rest
  let offset := hour ++ ':' :: minute
  return ((if offset = ['0', '0', ':', '0', '0'] then '+' else sign) :: offset, rest)

/-- An offset, if there is one. -/
def readOptionalOffset : Reader (List Char)
  | 'Z' :: rest | 'z' :: rest => some (['Z'], rest)
  | '+' :: rest => readOffset '+' rest
  | '-' :: rest => readOffset '-' rest
  | cs => some ([], cs)

/-- A time and an offset after a date, if there is a time. -/
def readTimeOfDate : Reader (List Char)
  | c :: cs =>
    if c = 'T' ∨ c = 't' ∨ c = ' ' then
      match readTime cs with
      | some (time, rest) => do
        let (offset, rest) ← readOptionalOffset rest
        return ('T' :: time ++ offset, rest)
      | none => some ([], c :: cs)
    else some ([], c :: cs)
  | [] => some ([], [])

/-- A moment. -/
def readMoment : Reader Data := fun cs => do
  let (text, rest) ←
    match readDate cs with
    | some (date, rest) => do
      let (time, rest) ← readTimeOfDate rest
      pure (date ++ time, rest)
    | none => readTime cs
  return (.ofFields [(momentKey, .text (String.ofList text))], rest)

end FactScore.Toml
