import FactScore.Expr
import FactScore.Fault
import FactScore.Json.Reader

/-!
# The written form of expressions

As data, an expression is a map with one of the keys `lit`, `var` and `op`, the last of which may
come with `args`; no other key is allowed.  A list gives the same four fields by position.
`Expr.toData` writes the form, `Expr.ofData` reads it from data, and `Expr.ofText` straight from
JSON text, where the parts are looked at in the order of the text and no key may be repeated.
-/

namespace FactScore

namespace Expr

mutual

/-- The data form of an expression. -/
def toData : Expr → Data
  | .lit value => .ofFields [("lit", value.toData)]
  | .var path => .ofFields [("var", .text path.text)]
  | .apply op args => .ofFields [("op", .text op.name), ("args", .list (toDataAll args))]

/-- The data forms of some expressions. -/
def toDataAll : List Expr → List Data
  | [] => []
  | arg :: rest => toData arg :: toDataAll rest

end

/-- The fields that an expression was found to have. -/
structure Fields where
  lit : Option Value := none
  var : Option FactPath := none
  op : Option Op := none
  args : Option (List Expr) := none

/-- The names of the fields, by position. -/
def fieldNames : List String := ["lit", "var", "op", "args"]

/-- The expression that some fields make up. -/
def ofFields (fields : Fields) : Except Fault Expr :=
  match fields.lit, fields.var, fields.op, fields.args with
  | some value, none, none, none => .ok (.lit value)
  | none, some path, none, none => .ok (.var path)
  | none, none, some op, args => .ok (.apply op (args.getD []))
  | _, _, none, some _ => .error .argsWithoutOp
  | none, none, none, none => .error .noForm
  | _, _, _, _ => .error .severalForms

/-- A text that may be left out. -/
def optionalText : Data → Except Fault (Option String)
  | .null => .ok none
  | .text s => .ok (some s)
  | _ => .error .malformed

/-- An operator that may be left out. -/
def optionalOp (payload : Data.Payload) (data : Data) : Except Fault (Option Op) :=
  if data.isNull then .ok none
  else do return some (← Taxonomy.ofData payload data)

/-- Take up one field other than the arguments. -/
def takePlain (payload : Data.Payload) (fields : Fields) (key : String) (value : Data) :
    Except Fault Fields :=
  if key = "lit" then .ok { fields with lit := some (Value.ofData value) }
  else if key = "var" then do
    return { fields with var := (← optionalText value).map FactPath.mk }
  else if key = "op" then do
    return { fields with op := ← optionalOp payload value }
  else .error .malformed

mutual

/-- The expression that some data is the form of. -/
def ofData (payload : Data.Payload) : Data → Except Fault Expr
  | .map entries => do ofFields (← takeEntries payload {} entries)
  | .list items => do ofFields (← takeItems payload {} fieldNames items)
  | _ => .error .malformed

/-- The expressions that some data are the forms of. -/
def ofDataAll (payload : Data.Payload) : List Data → Except Fault (List Expr)
  | [] => .ok []
  | item :: rest => do
    let arg ← ofData payload item
    let args ← ofDataAll payload rest
    return arg :: args

/-- Take up one field. -/
def takeField (payload : Data.Payload) (fields : Fields) (key : String) :
    Data → Except Fault Fields
  | .list items =>
    if key = "args" then do
      return { fields with args := some (← ofDataAll payload items) }
    else takePlain payload fields key (.list items)
  | value =>
    if key = "args" then
      if value.isNull then .ok fields else .error .malformed
    else takePlain payload fields key value

/-- Take up the members of a map one by one. -/
def takeEntries (payload : Data.Payload) (fields : Fields) :
    {bound : Option String} → Entries Data bound → Except Fault Fields
  | _, .nil => .ok fields
  | _, .cons key _ value rest => do
    let fields ← takeField payload fields key value
    takeEntries payload fields rest

/-- Take up the items of a list one by one, each as the field in its position. -/
def takeItems (payload : Data.Payload) (fields : Fields) :
    List String → List Data → Except Fault Fields
  | _, [] => .ok fields
  | [], _ :: _ => .error .malformed
  | key :: keys, item :: rest => do
    let fields ← takeField payload fields key item
    takeItems payload fields keys rest

end

/-- The fields that were read from a text so far, and their names. -/
structure FieldsRead where
  names : List String := []
  fields : Fields := {}

open Json in
/-- Read one field from the front of a text.  `depth` is how deep its value may nest, and
    `readArg` reads an argument. -/
def readField (depth : Nat) (readArg : Reader Expr) (state : FieldsRead) (key : String) :
    Reader FieldsRead := fun cs =>
  if key ∈ state.names then .error .malformed
  else do
    let (fields, rest) ←
      if key = "lit" then do
        let (value, rest) ← readData depth cs
        pure ({ state.fields with lit := some (Value.ofData value) }, rest)
      else if key = "var" then do
        let (path, rest) ← readOptional readText cs
        pure ({ state.fields with var := path.map FactPath.mk }, rest)
      else if key = "op" then do
        let (name, rest) ← readOptional (readName depth) cs
        match name, name.bind Taxonomy.ofName? with
        | some _, none => .error .malformed
        | _, op => pure ({ state.fields with op }, rest)
      else if key = "args" then
        match skipBlank cs with
        | '[' :: rest =>
          if depth = 0 then .error .malformed
          else do
            let (args, rest) ← readItems readArg rest
            pure ({ state.fields with args := some args }, rest)
        | 'n' :: 'u' :: 'l' :: 'l' :: rest => pure (state.fields, rest)
        | _ => .error .malformed
      else .error .malformed
    return ({ names := key :: state.names, fields }, rest)

open Json in
/-- Read an expression whose parts are read with `readArg` and nest no deeper than `depth`. -/
def readForm (depth : Nat) (readArg : Reader Expr) : Reader Expr := fun cs =>
  match skipBlank cs with
  | '{' :: rest => do
    let (state, rest) ← readMembers (readField depth readArg) {} rest
    return (← ofFields state.fields, rest)
  | '[' :: rest => do
    let (state, rest) ← readFields (readField depth readArg) fieldNames {} rest
    return (← ofFields state.fields, rest)
  | _ => .error .malformed

/-- Read an expression that nests no deeper than a limit.  An argument is two levels further
    down than its operator. -/
def read : Nat → Json.Reader Expr
  | 0 => fun _ => .error .malformed
  | 1 => readForm 0 fun _ => .error .malformed
  | depth + 2 => readForm (depth + 1) (read depth)

/-- The expression that a JSON text is the form of. -/
def ofText (source : String) : Except Fault Expr :=
  Json.readWhole (read Json.maxDepth) source

end Expr

end FactScore
