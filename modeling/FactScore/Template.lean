/-!
# Templates

A template is text with placeholders in braces, such as `{name}`.  It is cut into pieces first:
literal stretches, placeholders, and at most one unclosed piece at the end.  Filling a template
puts a text in place of every placeholder that is known; one that is not known stays as it is,
braces included, so that a later stage can fill it.
-/

namespace FactScore

namespace Template

/-- A piece of a template. -/
inductive Piece where
  /-- Characters that stand for themselves. -/
  | literal (cs : List Char)
  /-- The name between an opening brace and the first closing brace after it. -/
  | placeholder (name : List Char)
  /-- What follows an opening brace that is never closed. -/
  | unclosed (cs : List Char)
  deriving DecidableEq, Repr

/-- Cut a text at the first closing brace. -/
def untilClosed : List Char → Option (List Char × List Char)
  | [] => none
  | '}' :: rest => some ([], rest)
  | c :: rest => (untilClosed rest).map fun (name, rest) => (c :: name, rest)

theorem length_of_untilClosed {cs name rest : List Char}
    (h : untilClosed cs = some (name, rest)) : rest.length < cs.length := by
  induction cs generalizing name with
  | nil => simp [untilClosed] at h
  | cons c cs ih =>
    unfold untilClosed at h
    split at h
    next => cases h
    next heq =>
      cases heq
      cases h
      simp
    next heq =>
      cases heq
      rw [Option.map_eq_some_iff] at h
      obtain ⟨⟨name', rest'⟩, hcut, hpair⟩ := h
      cases hpair
      exact Nat.lt_succ_of_lt (ih hcut)

/-- The pieces of a template, in order. -/
def pieces : List Char → List Piece
  | [] => []
  | '{' :: rest =>
    match _h : untilClosed rest with
    | some (name, rest') => .placeholder name :: pieces rest'
    | none => [.unclosed rest]
  | c :: rest =>
    .literal (c :: rest.takeWhile (· != '{')) :: pieces (rest.dropWhile (· != '{'))
termination_by cs => cs.length
decreasing_by
  · have := length_of_untilClosed _h
    simp only [List.length_cons]
    omega
  · have := (List.dropWhile_sublist (p := (· != '{')) (l := rest)).length_le
    simp only [List.length_cons]
    omega

/-- The text of a piece, with the placeholders that `lookup` knows replaced. -/
def Piece.fill (lookup : String → Option String) : Piece → List Char
  | .literal cs => cs
  | .placeholder name =>
    match lookup (String.ofList name) with
    | some text => text.toList
    | none => '{' :: name ++ ['}']
  | .unclosed cs => '{' :: cs

/-- The names of the placeholders of a template, in order and with repetitions. -/
def names (template : String) : List String :=
  (pieces template.toList).filterMap fun
    | .placeholder name => some (String.ofList name)
    | _ => none

/-- A template with the placeholders that `lookup` knows replaced. -/
def fill (lookup : String → Option String) (template : String) : String :=
  String.ofList ((pieces template.toList).flatMap (Piece.fill lookup))

end Template

/-- Names bound to texts.  Of two bindings of one name the earlier one counts. -/
structure Bindings where
  entries : List (String × String) := []
  deriving DecidableEq, Repr, Inhabited

namespace Bindings

def empty : Bindings := {}

/-- Bind one more name. -/
def bind (bindings : Bindings) (name text : String) : Bindings :=
  ⟨bindings.entries ++ [(name, text)]⟩

/-- The text that a name is bound to. -/
def find? (bindings : Bindings) (name : String) : Option String :=
  bindings.entries.lookup name

/-- Fill the placeholders of a template that are bound. -/
def fill (bindings : Bindings) (template : String) : String :=
  Template.fill bindings.find? template

/-- A stem followed by every bound text, in order and with dots between them. -/
def ruleId (bindings : Bindings) (stem : String) : String :=
  bindings.entries.foldl (fun id entry => id ++ "." ++ entry.2) stem

end Bindings

end FactScore
