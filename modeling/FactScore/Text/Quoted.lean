import FactScore.Text.Shown

/-!
# Quoted texts

Two ways of writing a text between double quotes.  `Text.quoted` is for people: characters that
could not be told apart on a page are written by their code.  `Text.documentQuoted` is for JSON
text, where only the quote, the backslash and the controls are escaped.
-/

namespace FactScore.Text

/-- A number in lower-case hexadecimal, padded with zeros to a width. -/
def hexadecimal (width n : Nat) : List Char :=
  let digits := Nat.toDigits 16 n
  List.replicate (width - digits.length) '0' ++ digits

/-- One character of a text written for people. -/
def quotedChar (c : Char) : List Char :=
  match c with
  | '"' => ['\\', '"']
  | '\\' => ['\\', '\\']
  | '\n' => ['\\', 'n']
  | '\r' => ['\\', 'r']
  | '\t' => ['\\', 't']
  | '\x00' => ['\\', '0']
  | c => if isShown c then [c] else '\\' :: 'u' :: '{' :: hexadecimal 1 c.toNat ++ ['}']

/-- A text between quotes, written for people. -/
def quoted (s : String) : String :=
  String.ofList ('"' :: s.toList.flatMap quotedChar ++ ['"'])

/-- One character of a text in a JSON document. -/
def documentChar (c : Char) : List Char :=
  match c with
  | '"' => ['\\', '"']
  | '\\' => ['\\', '\\']
  | '\n' => ['\\', 'n']
  | '\r' => ['\\', 'r']
  | '\t' => ['\\', 't']
  | '\x08' => ['\\', 'b']
  | '\x0c' => ['\\', 'f']
  | c => if c.toNat < 0x20 then '\\' :: 'u' :: hexadecimal 4 c.toNat else [c]

/-- A text between quotes, written for a JSON document. -/
def documentQuoted (s : String) : String :=
  String.ofList ('"' :: s.toList.flatMap documentChar ++ ['"'])

end FactScore.Text
