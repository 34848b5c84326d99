import FactScore.Fault
import FactScore.Toml.Moment
import FactScore.Toml.Table

/-!
# Reading TOML text

`Toml.parse` reads a whole document into data.  Its lines are taken up one by one into a table,
together with the path of the header that came last.  Not-a-number and the infinities stay numbers
here; what they become is up to whoever uses the data.
-/

namespace FactScore.Toml

/-- How deep lists and braces of a value may nest, and how many parts a key may have. -/
def maxDepth : Nat := 79

def isBlank (c : Char) : Bool :=
  c == ' ' || c == '\t'

/-- The characters of comments and of quoted texts: all but line ends and other controls. -/
def isPlain (c : Char) : Bool :=
  c == '\t' || (decide (' ' ≤ c) && c != '\x7f')

def skipBlank (cs : List Char) : List Char :=
  cs.dropWhile isBlank

/-- What comes after the end of a line. -/
def afterLineEnd? : List Char → Option (List Char)
  | '\n' :: rest => some rest
  | '\r' :: '\n' :: rest => some rest
  | _ => none

/-- What comes after the line that has nothing left but maybe a comment. -/
def endLine? (cs : List Char) : Option (List Char) :=
  let rest :=
    match skipBlank cs with
    | '#' :: rest => rest.dropWhile isPlain
    | rest => rest
  if rest.isEmpty then some [] else afterLineEnd? rest

/-- What comes after blanks, line ends and comments. -/
def skipLines (inComment : Bool) : List Char → List Char
  | [] => []
  | '\n' :: rest => skipLines false rest
  | '\r' :: '\n' :: rest => skipLines false rest
  | c :: rest =>
    if inComment then if isPlain c then skipLines true rest else c :: rest
    else if isBlank c then skipLines false rest
    else if c == '#' then skipLines true rest
    else c :: rest

/-- The character that a one-letter escape stands for. -/
def escape? : Char → Option Char
  | '"' => some '"'
  | '\\' => some '\\'
  | 'b' => some '\x08'
  | 'f' => some '\x0c'
  | 'n' => some '\n'
  | 'r' => some '\r'
  | 't' => some '\t'
  | _ => none

/-- The character with a code that is given by hexadecimal digits. -/
def coded? (digits : List Char) : Option Char :=
  if digits.all fun c => (Json.hexDigit? c).isSome then
    let code := valueInBase 16 digits
    if code.isValidChar then some (Char.ofNat code) else none
  else none

/-- A text between double quotes, the first of which has been read. -/
def basicRest : Reader (List Char)
  | [] => none
  | '"' :: rest => some ([], rest)
  | '\\' :: 'u' :: a :: b :: c :: d :: rest => do
    prepend (← coded? [a, b, c, d]) (basicRest rest)
  | '\\' :: 'U' :: a :: b :: c :: d :: e :: f :: g :: h :: rest => do
    prepend (← coded? [a, b, c, d, e, f, g, h]) (basicRest rest)
  | '\\' :: c :: rest => do prepend (← escape? c) (basicRest rest)
  | c :: rest => if isPlain c && c != '\\' then prepend c (basicRest rest) else none

/-- A text between single quotes, the first of which has been read. -/
def literalRest : Reader (List Char)
  | [] => none
  | '\'' :: rest => some ([], rest)
  | c :: rest => if isPlain c then prepend c (literalRest rest) else none

/-- What is passed over in a text of several lines. -/
inductive Skipping where
  | nothing
  /-- Blanks up to the end of a line. -/
  | toLineEnd
  /-- Blanks and line ends. -/
  | toText
  deriving DecidableEq

/-- A text of several lines up to its three double quotes; two more quotes in front of them belong
    to the text.  A backslash at the end of a line passes over the blanks and line ends after
    it. -/
def basicLines : Skipping → Reader (List Char)
  | _, [] => none
  | .toLineEnd, '\n' :: rest => basicLines .toText rest
  | .toLineEnd, '\r' :: '\n' :: rest => basicLines .toText rest
  | .toLineEnd, c :: rest => if isBlank c then basicLines .toLineEnd rest else none
  | .toText, '\n' :: rest => basicLines .toText rest
  | .toText, '\r' :: '\n' :: rest => basicLines .toText rest
  | _, '"' :: '"' :: '"' :: '"' :: '"' :: rest => some (['"', '"'], rest)
  | _, '"' :: '"' :: '"' :: '"' :: rest => some (['"'], rest)
  | _, '"' :: '"' :: '"' :: rest => some ([], rest)
  | _, '\n' :: rest => prepend '\n' (basicLines .nothing rest)
  | _, '\r' :: '\n' :: rest => prepend '\n' (basicLines .nothing rest)
  | _, '\\' :: 'u' :: a :: b :: c :: d :: rest => do
    prepend (← coded? [a, b, c, d]) (basicLines .nothing rest)
  | _, '\\' :: 'U' :: a :: b :: c :: d :: e :: f :: g :: h :: rest => do
    prepend (← coded? [a, b, c, d, e, f, g, h]) (basicLines .nothing rest)
  | _, '\\' :: '\n' :: rest => basicLines .toText rest
  | _, '\\' :: '\r' :: '\n' :: rest => basicLines .toText rest
  | _, '\\' :: c :: rest =>
    if isBlank c then basicLines .toLineEnd rest
    else do prepend (← escape? c) (basicLines .nothing rest)
  | skipping, c :: rest =>
    if skipping = .toText ∧ isBlank c then basicLines .toText rest
    else if isPlain c && c != '\\' then prepend c (basicLines .nothing rest)
    else none

/-- A text of several lines up to its three single quotes; two more quotes in front of them belong
    to the text. -/
def literalLines : Reader (List Char)
  | [] => none
  | '\'' :: '\'' :: '\'' :: '\'' :: '\'' :: rest => some (['\'', '\''], rest)
  | '\'' :: '\'' :: '\'' :: '\'' :: rest => some (['\''], rest)
  | '\'' :: '\'' :: '\'' :: rest => some ([], rest)
  | '\n' :: rest => prepend '\n' (literalLines rest)
  | '\r' :: '\n' :: rest => prepend '\n' (literalLines rest)
  | c :: rest => if isPlain c then prepend c (literalLines rest) else none

/-- The first line end of a text of several lines does not count. -/
def afterOpening (cs : List Char) : List Char :=
  (afterLineEnd? cs).getD cs

/-- A text of any form. -/
def readText : Reader String := fun cs => do
  let (content, rest) ←
    match cs with
    | '"' :: '"' :: '"' :: rest => basicLines .nothing (afterOpening rest)
    | '"' :: rest => basicRest rest
    | '\'' :: '\'' :: '\'' :: rest => literalLines (afterOpening rest)
    | '\'' :: rest => literalRest rest
    | _ => none
  return (String.ofList content, rest)

/-- The characters of a part of a key without quotes. -/
def isBare (c : Char) : Bool :=
  c.isAlphanum || c == '_' || c == '-'

/-- A part of a key. -/
def readKeyPart : Reader String
  | '"' :: rest => do
    let (content, rest) ← basicRest rest
    return (String.ofList content, rest)
  | '\'' :: rest => do
    let (content, rest) ← literalRest rest
    return (String.ofList content, rest)
  | cs =>
    let bare := cs.takeWhile isBare
    if bare.isEmpty then none else some (String.ofList bare, cs.dropWhile isBare)

/-- A dotted key of at most so many parts, with blanks around each. -/
def readKey : Nat → Reader Key
  | 0, _ => none
  | parts + 1, cs => do
    let (part, rest) ← readKeyPart (skipBlank cs)
    match skipBlank rest with
    | '.' :: rest =>
      let (key, rest) ← readKey parts rest
      return (key.below part, rest)
    | rest => return ({ name := part }, rest)

/-- Anything but a list or braces. -/
def readScalar : Reader Data := fun cs =>
  match cs with
  | 't' :: 'r' :: 'u' :: 'e' :: rest => some (.bool true, rest)
  | 'f' :: 'a' :: 'l' :: 's' :: 'e' :: rest => some (.bool false, rest)
  | '"' :: _ | '\'' :: _ => do
    let (text, rest) ← readText cs
    return (.text text, rest)
  | _ => (readMoment cs).or (readNumber cs)

/-- A key, an equals sign and a value. -/
def readPair (read : Reader Data) : Reader (Key × Data) := fun cs => do
  let (key, rest) ← readKey maxDepth cs
  match rest with
  | '=' :: rest =>
    let (value, rest) ← read (skipBlank rest)
    return ((key, value), rest)
  | _ => none

/-- The items of a list up to its closing bracket; a comma may follow the last one. -/
def readItems (read : Reader Data) : Nat → Reader (List Data)
  | 0, _ => none
  | fuel + 1, cs =>
    match skipLines false cs with
    | ']' :: rest => some ([], rest)
    | cs => do
      let (item, rest) ← read cs
      match skipLines false rest with
      | ',' :: rest =>
        let (items, rest) ← readItems read fuel rest
        return (item :: items, rest)
      | ']' :: rest => return ([item], rest)
      | _ => none

/-- The pairs between braces up to the closing one, at the first pair. -/
def readPairs (read : Reader Data) : Nat → Table → Reader Table
  | 0, _, _ => none
  | fuel + 1, table, cs => do
    let ((key, value), rest) ← readPair read cs
    let table ← table.assign key value
    match skipBlank rest with
    | ',' :: rest => readPairs read fuel table rest
    | '}' :: rest => return (table, rest)
    | _ => none

/-- A value whose lists and braces nest no deeper than a limit. -/
def readValue : Nat → Reader Data
  | 0, cs => readScalar cs
  | depth + 1, cs =>
    match cs with
    | '[' :: rest => do
      let (items, rest) ← readItems (readValue depth) cs.length rest
      return (.list items, rest)
    | '{' :: rest => do
      match skipBlank rest with
      | '}' :: rest => return (.ofFields [], rest)
      | _ =>
        let (table, rest) ← readPairs (readValue depth) cs.length .nil rest
        return (table.toData, rest)
    | _ => readScalar cs

/-- The part of a document that was read so far. -/
structure Document where
  root : Table := .nil
  /-- The path of the table that pairs go into. -/
  current : List String := []

/-- A header without its opening brackets. -/
def readHeader (document : Document) (define : Table → Key → Option Table) (closing : List Char) :
    Reader Document := fun cs => do
  let (key, rest) ← readKey maxDepth cs
  if closing.isPrefixOf rest then
    let root ← define document.root key
    return ({ root, current := key.path ++ [key.name] }, ← endLine? (rest.drop closing.length))
  else none

/-- A line that is not empty. -/
def readLine (document : Document) : Reader Document := fun cs =>
  match cs with
  | '[' :: '[' :: rest => readHeader document Table.openTables [']', ']'] rest
  | '[' :: rest => readHeader document Table.openTable [']'] rest
  | _ => do
    let ((key, value), rest) ← readPair (readValue maxDepth) cs
    let root ← document.root.assignAt document.current key value
    return ({ document with root }, ← endLine? rest)

/-- All lines of a document. -/
def readLines : Nat → Document → List Char → Option Document
  | 0, _, _ => none
  | fuel + 1, document, cs =>
    match skipLines false cs with
    | [] => some document
    | cs => do
      let (document, rest) ← readLine document cs
      readLines fuel document rest

/-- The data of a TOML document.  A byte order mark in front does not count. -/
def parse (source : String) : Except Fault Data :=
  let cs := source.toList
  let cs := match cs with
    | '\ufeff' :: rest => rest
    | _ => cs
  match readLines (cs.length + 1) {} cs with
  | some document => .ok document.root.toData
  | none => .error .malformed

end FactScore.Toml
