import FactScore.Data
import FactScore.Fault

/-!
# Reading JSON text

A reader takes characters from the front of a text and hands back what is left.  Readers of
members and items are general in what they read, so that a typed value can be read straight from
its text, in the order in which the text gives its parts.
-/

namespace FactScore.Json

/-- A reader of values of `α` from the front of a text. -/
abbrev Reader (α : Type) := List Char → Except Fault (α × List Char)

/-- How deep the arrays and objects of a document may nest. -/
def maxDepth : Nat := 127

def isBlank (c : Char) : Bool :=
  c == ' ' || c == '\t' || c == '\n' || c == '\r'

def skipBlank (cs : List Char) : List Char :=
  cs.dropWhile isBlank

/-- The number that a hexadecimal digit stands for. -/
def hexDigit? (c : Char) : Option Nat :=
  if c.isDigit then some (c.toNat - 48)
  else if 'a' ≤ c ∧ c ≤ 'f' then some (c.toNat - 87)
  else if 'A' ≤ c ∧ c ≤ 'F' then some (c.toNat - 55)
  else none

/-- The number that four hexadecimal digits stand for. -/
def codeUnit? (a b c d : Char) : Option Nat := do
  return (((← hexDigit? a) * 16 + (← hexDigit? b)) * 16 + (← hexDigit? c)) * 16 + (← hexDigit? d)

/-- The character that a one-letter escape stands for. -/
def escape? : Char → Option Char
  | '"' => some '"'
  | '\\' => some '\\'
  | '/' => some '/'
  | 'b' => some '\x08'
  | 'f' => some '\x0c'
  | 'n' => some '\n'
  | 'r' => some '\r'
  | 't' => some '\t'
  | _ => none

/-- The character of two escaped halves, the first from the upper and the second from the lower
    half of the surrogate range. -/
def joinHalves? (high low : Nat) : Option Char :=
  if 0xd800 ≤ high ∧ high < 0xdc00 ∧ 0xdc00 ≤ low ∧ low < 0xe000 then
    some (Char.ofNat (0x10000 + (high - 0xd800) * 0x400 + (low - 0xdc00)))
  else none

/-- The rest of a text whose opening quote has been read. -/
def quotedRest : List Char → Option (List Char × List Char)
  | [] => none
  | '"' :: rest => some ([], rest)
  | '\\' :: 'u' :: a :: b :: c :: d :: rest => do
    let unit ← codeUnit? a b c d
    if 0xd800 ≤ unit ∧ unit < 0xe000 then
      match rest with
      | '\\' :: 'u' :: e :: f :: g :: h :: rest => do
        let joined ← joinHalves? unit (← codeUnit? e f g h)
        let (cs, rest) ← quotedRest rest
        return (joined :: cs, rest)
      | _ => none
    else
      let (cs, rest) ← quotedRest rest
      return (Char.ofNat unit :: cs, rest)
  | '\\' :: c :: rest => do
    let c ← escape? c
    let (cs, rest) ← quotedRest rest
    return (c :: cs, rest)
  | c :: rest => do
    if c.toNat < 0x20 then none
    else
      let (cs, rest) ← quotedRest rest
      return (c :: cs, rest)

/-- A text between quotes. -/
def readText : Reader String := fun cs =>
  match skipBlank cs with
  | '"' :: rest =>
    match quotedRest rest with
    | some (content, rest) => .ok (String.ofList content, rest)
    | none => .error .malformed
  | _ => .error .malformed

/-- The number that decimal digits stand for. -/
def digitsValue (digits : List Char) : Nat :=
  digits.foldl (fun n c => n * 10 + (c.toNat - 48)) 0

/-- The number nearest to `digits * 10 ^ exponent`, unless that is too large for any.  Far outside
    the range of numbers the answer is known from the place of the first digit alone. -/
def nearest? (digits : List Char) (exponent : Int) : Option Float :=
  let place := (digits.dropWhile (· == '0')).length + exponent
  let n := digitsValue digits
  if n = 0 ∨ place < -400 then some 0
  else if 400 < place then none
  else
    let x := Float.ofScientific n (decide (exponent < 0)) exponent.natAbs
    if x.isInf then none else some x

/-- An integer, kept exactly if it fits into 64 bits; the zero with a sign is no integer. -/
def integer? (negative : Bool) (digits : List Char) : Option Data :=
  let n := digitsValue digits
  if negative then
    if n = 0 then some (.float (-0.0))
    else if 2 * n ≤ UInt64.size then some (.int (-n))
    else (nearest? digits 0).map fun x => .float (-x)
  else
    if n < UInt64.size then some (.int n)
    else (nearest? digits 0).map .float

/-- A number as it is written, without its sign. -/
structure Numeral where
  whole : List Char
  fraction : Option (List Char)
  exponent : Option Int

/-- The digits of a fraction, if there is one. -/
def fraction? : List Char → Option (Option (List Char) × List Char)
  | '.' :: rest =>
    let digits := rest.takeWhile Char.isDigit
    if digits.isEmpty then none else some (some digits, rest.dropWhile Char.isDigit)
  | cs => some (none, cs)

/-- An exponent, if there is one. -/
def exponent? (cs : List Char) : Option (Option Int × List Char) :=
  let signed (sign : Int) (rest : List Char) : Option (Option Int × List Char) :=
    let digits := rest.takeWhile Char.isDigit
    if digits.isEmpty then none
    else some (some (sign * digitsValue digits), rest.dropWhile Char.isDigit)
  match cs with
  | 'e' :: '-' :: rest | 'E' :: '-' :: rest => signed (-1) rest
  | 'e' :: '+' :: rest | 'E' :: '+' :: rest => signed 1 rest
  | 'e' :: rest | 'E' :: rest => signed 1 rest
  | _ => some (none, cs)

/-- A number whose sign has been read.  There are no zeros in front of its other digits. -/
def numeral? (cs : List Char) : Option (Numeral × List Char) := do
  let whole := cs.takeWhile Char.isDigit
  if whole.isEmpty || (whole.head? == some '0' && 1 < whole.length) then none
  else
    let (fraction, rest) ← fraction? (cs.dropWhile Char.isDigit)
    let (exponent, rest) ← exponent? rest
    return ({ whole, fraction, exponent }, rest)

/-- The data that a number stands for. -/
def Numeral.toData? (numeral : Numeral) (negative : Bool) : Option Data :=
  match numeral.fraction, numeral.exponent with
  | none, none => integer? negative numeral.whole
  | fraction, exponent => do
    let fraction := fraction.getD []
    let x ← nearest? (numeral.whole ++ fraction) (exponent.getD 0 - fraction.length)
    return .float (if negative then -x else x)

/-- A number whose sign has been read, as data. -/
def numberRest? (negative : Bool) (cs : List Char) : Option (Data × List Char) := do
  let (numeral, rest) ← numeral? cs
  return (← numeral.toData? negative, rest)

/-- Anything but an array or an object. -/
def readScalar : Reader Data := fun cs =>
  match skipBlank cs with
  | 'n' :: 'u' :: 'l' :: 'l' :: rest => .ok (.null, rest)
  | 't' :: 'r' :: 'u' :: 'e' :: rest => .ok (.bool true, rest)
  | 'f' :: 'a' :: 'l' :: 's' :: 'e' :: rest => .ok (.bool false, rest)
  | '"' :: rest =>
    match quotedRest rest with
    | some (content, rest) => .ok (.text (String.ofList content), rest)
    | none => .error .malformed
  | '-' :: rest =>
    match numberRest? true rest with
    | some result => .ok result
    | none => .error .malformed
  | rest =>
    match numberRest? false rest with
    | some result => .ok result
    | none => .error .malformed

variable {α σ : Type}

/-- The items of an array up to its closing bracket, at the first item. -/
def itemsFrom (read : Reader α) : Nat → Reader (List α)
  | 0, _ => .error .malformed
  | fuel + 1, cs => do
    let (item, rest) ← read cs
    match skipBlank rest with
    | ',' :: rest =>
      let (items, rest) ← itemsFrom read fuel rest
      return (item :: items, rest)
    | ']' :: rest => return ([item], rest)
    | _ => .error .malformed

/-- The items of an array whose opening bracket has been read. -/
def readItems (read : Reader α) : Reader (List α) := fun cs =>
  match skipBlank cs with
  | ']' :: rest => .ok ([], rest)
  | cs => itemsFrom read cs.length cs

/-- The members of an object up to its closing brace, at the first member. -/
def membersFrom (member : σ → Reader σ) : Nat → σ → Reader σ
  | 0, _, _ => .error .malformed
  | fuel + 1, state, cs => do
    let (state, rest) ← member state cs
    match skipBlank rest with
    | ',' :: rest => membersFrom member fuel state rest
    | '}' :: rest => return (state, rest)
    | _ => .error .malformed

/-- The members of an object whose opening brace has been read, taken up one by one into a
    state. -/
def readObject (member : σ → Reader σ) (start : σ) : Reader σ := fun cs =>
  match skipBlank cs with
  | '}' :: rest => .ok (start, rest)
  | cs => membersFrom member cs.length start cs

/-- A member of an object; `field` is given the key and reads the value. -/
def readMember (field : σ → String → Reader σ) (state : σ) : Reader σ := fun cs => do
  let (key, rest) ← readText cs
  match skipBlank rest with
  | ':' :: rest => field state key rest
  | _ => .error .malformed

/-- The members of an object whose opening brace has been read: `field` is given each key and
    reads its value. -/
def readMembers (field : σ → String → Reader σ) (start : σ) : Reader σ :=
  readObject (readMember field) start

/-- The items of an array up to its closing bracket, each one standing for a named field. -/
def fieldsFrom (field : σ → String → Reader σ) : List String → σ → Reader σ
  | [], _, _ => .error .malformed
  | name :: names, state, cs => do
    let (state, rest) ← field state name cs
    match skipBlank rest with
    | ',' :: rest => fieldsFrom field names state rest
    | ']' :: rest => return (state, rest)
    | _ => .error .malformed

/-- The items of an array whose opening bracket has been read, which stand for named fields in
    order; the last fields may be left off. -/
def readFields (field : σ → String → Reader σ) (names : List String) (start : σ) : Reader σ :=
  fun cs =>
    match skipBlank cs with
    | ']' :: rest => .ok (start, rest)
    | cs => fieldsFrom field names start cs

/-- Either `null` or what the reader takes. -/
def readOptional (read : Reader α) : Reader (Option α) := fun cs =>
  match skipBlank cs with
  | 'n' :: 'u' :: 'l' :: 'l' :: rest => .ok (none, rest)
  | cs => do
    let (value, rest) ← read cs
    return (some value, rest)

/-- A name, written as a text or as an object with the name as its only key and the value
    `null`.  The object counts towards the depth that is left. -/
def readName (depth : Nat) : Reader String := fun cs =>
  match skipBlank cs with
  | '{' :: rest =>
    if depth = 0 then .error .malformed
    else do
      let (name, rest) ← readText rest
      match skipBlank rest with
      | ':' :: rest =>
        match skipBlank rest with
        | 'n' :: 'u' :: 'l' :: 'l' :: rest =>
          match skipBlank rest with
          | '}' :: rest => return (name, rest)
          | _ => .error .malformed
        | _ => .error .malformed
      | _ => .error .malformed
  | cs => readText cs

/-- Any value whose arrays and objects nest no deeper than a limit.  Of two members with one key
    the later one stays. -/
def readData : Nat → Reader Data
  | 0, cs => readScalar cs
  | depth + 1, cs =>
    match skipBlank cs with
    | '[' :: rest => do
      let (items, rest) ← readItems (readData depth) rest
      return (.list items, rest)
    | '{' :: rest => do
      let member (entries : Dict Data) (key : String) : Reader (Dict Data) := fun cs => do
        let (value, rest) ← readData depth cs
        return (entries.insert key value, rest)
      let (entries, rest) ← readMembers member .nil rest
      return (.map entries, rest)
    | _ => readScalar cs

/-- What comes after a text whose opening quote has been read.  Here an escape need not stand for
    a character. -/
def afterQuoted? : List Char → Option (List Char)
  | [] => none
  | '"' :: rest => some rest
  | '\\' :: 'u' :: a :: b :: c :: d :: rest => do
    let _ ← codeUnit? a b c d
    afterQuoted? rest
  | '\\' :: c :: rest => do
    let _ ← escape? c
    afterQuoted? rest
  | c :: rest => if c.toNat < 0x20 then none else afterQuoted? rest

/-- What comes after anything but an array or an object.  Here a number need not be in range. -/
def afterScalar? (cs : List Char) : Option (List Char) :=
  match cs with
  | 'n' :: 'u' :: 'l' :: 'l' :: rest => some rest
  | 't' :: 'r' :: 'u' :: 'e' :: rest => some rest
  | 'f' :: 'a' :: 'l' :: 's' :: 'e' :: rest => some rest
  | '"' :: rest => afterQuoted? rest
  | '-' :: rest => (numeral? rest).map Prod.snd
  | rest => (numeral? rest).map Prod.snd

/-- The outcome of passing over something, given what comes after it. -/
def passed : Option (List Char) → Except Fault (Unit × List Char)
  | some rest => .ok ((), rest)
  | none => .error .malformed

/-- Pass over a member of an object, whose value is passed over by `value`. -/
def passMember (value : Reader Unit) : Reader Unit := fun cs =>
  match skipBlank cs with
  | '"' :: rest => do
    let ((), rest) ← passed (afterQuoted? rest)
    match skipBlank rest with
    | ':' :: rest => value rest
    | _ => .error .malformed
  | _ => .error .malformed

/-- Pass over a value of any depth below the given one.  Only its grammar is looked at. -/
def passOver : Nat → Reader Unit
  | 0, _ => .error .malformed
  | depth + 1, cs =>
    match skipBlank cs with
    | '[' :: rest => do
      let (_, rest) ← readItems (passOver depth) rest
      return ((), rest)
    | '{' :: rest => readObject (fun _ => passMember (passOver depth)) () rest
    | cs => passed (afterScalar? cs)

/-- What a reader makes of a whole text: nothing but blanks may be left. -/
def readWhole (read : Reader α) (source : String) : Except Fault α := do
  let (value, rest) ← read source.toList
  match skipBlank rest with
  | [] => return value
  | _ => .error .malformed

/-- The data of a JSON document. -/
def parse (source : String) : Except Fault Data :=
  readWhole (readData maxDepth) source

end FactScore.Json
