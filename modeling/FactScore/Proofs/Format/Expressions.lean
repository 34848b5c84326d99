import FactScore.Expr.Format
import FactScore.Proofs.Format.Fields

/-!
# The data form of expressions

A value or an expression is read back from its data form, however deep it is, but for the numbers
that are not finite.  These have no form of their own, and the missing value takes their place
(`Value.finite`, `Expr.finite`), so that exactly what has none of them comes back as it was.
-/

namespace FactScore

instance : LawfulTaxonomy Op where
  mem_members op := by cases op <;> decide
  nodup_names := by decide

namespace Value

mutual

/-- Whether all numbers in a value are finite. -/
def isFinite : Value → Bool
  | .number x => x.isFinite
  | .list items => isFiniteItems items
  | .map entries => isFiniteEntries entries
  | _ => true

/-- Whether all numbers in the items of a list are finite. -/
def isFiniteItems : List Value → Bool
  | [] => true
  | item :: rest => isFinite item && isFiniteItems rest

/-- Whether all numbers in the values of a map are finite. -/
def isFiniteEntries : {bound : Option String} → Entries Value bound → Bool
  | _, .nil => true
  | _, .cons _ _ item rest => isFinite item && isFiniteEntries rest

end

mutual

/-- The value with the missing one in place of every number that is not finite. -/
def finite : Value → Value
  | .number x => if x.isFinite then .number x else .missing
  | .list items => .list (finiteItems items)
  | .map entries => .map (finiteEntries entries)
  | value => value

/-- Every item of a list without numbers that are not finite. -/
def finiteItems : List Value → List Value
  | [] => []
  | item :: rest => finite item :: finiteItems rest

/-- Every value of a map without numbers that are not finite. -/
def finiteEntries : {bound : Option String} → Entries Value bound → Entries Value bound
  | _, .nil => .nil
  | _, .cons key above item rest => .cons key above (finite item) (finiteEntries rest)

end

mutual

/-- Exactly the values whose numbers are all finite are left as they are. -/
theorem finite_eq_self_iff : ∀ {value : Value}, value.finite = value ↔ value.isFinite
  | .missing | .bool _ | .text _ => by simp [finite, isFinite]
  | .number x => by
    rw [finite, isFinite]
    split
    next h => simp [h]
    next h => simp [h]
  | .list items => by
    rw [finite, isFinite, Value.list.injEq]
    exact finiteItems_eq_self_iff
  | .map entries => by
    rw [finite, isFinite, Value.map.injEq]
    exact finiteEntries_eq_self_iff

theorem finiteItems_eq_self_iff : ∀ {items : List Value},
    finiteItems items = items ↔ isFiniteItems items
  | [] => by simp [finiteItems, isFiniteItems]
  | item :: rest => by
    rw [finiteItems, isFiniteItems, Bool.and_eq_true, List.cons.injEq]
    exact and_congr finite_eq_self_iff finiteItems_eq_self_iff

theorem finiteEntries_eq_self_iff : ∀ {bound : Option String} {entries : Entries Value bound},
    finiteEntries entries = entries ↔ isFiniteEntries entries
  | _, .nil => by simp [finiteEntries, isFiniteEntries]
  | _, .cons _ _ item rest => by
    simp only [finiteEntries, isFiniteEntries, Bool.and_eq_true, Entries.cons.injEq, heq_eq_eq,
      true_and]
    exact and_congr finite_eq_self_iff finiteEntries_eq_self_iff

end

theorem numberData_of_isFinite {x : Float} (h : x.isFinite) : numberData x = .float x :=
  if_pos h

mutual

/-- A value is read back from its data form but for the numbers that are not finite. -/
theorem ofData_toData_eq_finite : ∀ value : Value, ofData value.toData = value.finite
  | .missing => rfl
  | .bool _ => rfl
  | .text _ => rfl
  | .number x => by
    rw [toData, numberData, finite]
    split
    next => rfl
    next => rfl
  | .list items => by rw [toData, ofData, ofDataItems_toDataItems_eq_finiteItems, finite]
  | .map entries => by rw [toData, ofData, ofDataEntries_toDataEntries_eq_finiteEntries, finite]

theorem ofDataItems_toDataItems_eq_finiteItems : ∀ items : List Value,
    ofDataItems (toDataItems items) = finiteItems items
  | [] => rfl
  | item :: rest => by
    rw [toDataItems, ofDataItems, ofData_toData_eq_finite, ofDataItems_toDataItems_eq_finiteItems,
      finiteItems]

theorem ofDataEntries_toDataEntries_eq_finiteEntries :
    ∀ {bound : Option String} (entries : Entries Value bound),
      ofDataEntries (toDataEntries entries) = finiteEntries entries
  | _, .nil => rfl
  | _, .cons _ _ item rest => by
    rw [toDataEntries, ofDataEntries, ofData_toData_eq_finite,
      ofDataEntries_toDataEntries_eq_finiteEntries, finiteEntries]

end

theorem ofData_toData {value : Value} (h : value.isFinite) : ofData value.toData = value := by
  rw [ofData_toData_eq_finite, finite_eq_self_iff.mpr h]

end Value

namespace Data

/-- A finite number is read back from its data form. -/
theorem asNumber_numberData {x : Float} (h : x.isFinite) :
    asNumber (Value.numberData x) = .ok x := by
  rw [Value.numberData_of_isFinite h]
  rfl

theorem isNull_numberData {x : Float} (h : x.isFinite) :
    (Value.numberData x).isNull = false := by
  rw [Value.numberData_of_isFinite h]
  rfl

namespace Fields.Gives

variable {fields : Fields} {name : String}

theorem ofNumber {value : Float} {missing : Option Float}
    (hfind : fields.find? name = some (Value.numberData value)) (h : value.isFinite) :
    fields.Gives ⟨name, asNumber⟩ missing value :=
  .present hfind (asNumber_numberData h)

/-- A number that is only written when it is given. -/
theorem ofNumberOption {value : Option Float}
    (hfind : fields.find? name = value.map Value.numberData) (h : ∀ x ∈ value, x.isFinite) :
    fields.Gives ⟨name, orNull asNumber⟩ (some none) value :=
  .ofOption hfind (fun x hx => asNumber_numberData (h x hx)) fun x hx => isNull_numberData (h x hx)

end Fields.Gives

end Data

namespace Expr

mutual

/-- Whether all numbers in an expression are finite. -/
def isFinite : Expr → Bool
  | .lit value => value.isFinite
  | .var _ => true
  | .apply _ args => isFiniteAll args

/-- Whether all numbers in some expressions are finite. -/
def isFiniteAll : List Expr → Bool
  | [] => true
  | arg :: rest => isFinite arg && isFiniteAll rest

end

mutual

/-- The expression with the missing value in place of every number that is not finite. -/
def finite : Expr → Expr
  | .lit value => .lit value.finite
  | .var path => .var path
  | .apply op args => .apply op (finiteAll args)

/-- Every expression of a list without numbers that are not finite. -/
def finiteAll : List Expr → List Expr
  | [] => []
  | arg :: rest => finite arg :: finiteAll rest

end

mutual

/-- Exactly the expressions whose numbers are all finite are left as they are. -/
theorem finite_eq_self_iff : ∀ {e : Expr}, e.finite = e ↔ e.isFinite
  | .lit value => by
    rw [finite, isFinite, Expr.lit.injEq]
    exact Value.finite_eq_self_iff
  | .var path => by simp [finite, isFinite]
  | .apply op args => by
    simp only [finite, isFinite, Expr.apply.injEq, true_and]
    exact finiteAll_eq_self_iff

theorem finiteAll_eq_self_iff : ∀ {args : List Expr}, finiteAll args = args ↔ isFiniteAll args
  | [] => by simp [finiteAll, isFiniteAll]
  | arg :: rest => by
    rw [finiteAll, isFiniteAll, Bool.and_eq_true, List.cons.injEq]
    exact and_congr finite_eq_self_iff finiteAll_eq_self_iff

end

theorem toData_apply (op : Op) (args : List Expr) :
    (apply op args).toData = .map (.cons "args" (.of_none _) (.list (toDataAll args))
      (.cons "op" (.of_lt (by decide)) (.text op.name) .nil)) := by
  have hbefore : "args" < "op" := by decide
  simp only [toData, Data.ofFields, Dict.ofList, List.foldl_cons, List.foldl_nil, Dict.insert,
    Entries.insertAbove, dif_pos hbefore]

/-- The data form of an expression is never `null`. -/
theorem isNull_toData (e : Expr) : e.toData.isNull = false := by
  cases e <;> rfl

variable {payload : Data.Payload}

theorem takeField_of_ne {fields : Fields} {key : String} (value : Data) (h : key ≠ "args") :
    takeField payload fields key value = takePlain payload fields key value := by
  cases value <;> simp [takeField, h]

theorem takePlain_lit (fields : Fields) (value : Data) :
    takePlain payload fields "lit" value = .ok { fields with lit := some (Value.ofData value) } :=
  rfl

theorem takePlain_op (fields : Fields) (op : Op) :
    takePlain payload fields "op" (.text op.name) = .ok { fields with op := some op } := by
  have hop : optionalOp payload (.text op.name) = .ok (some op) := by
    change (do return some (← Taxonomy.ofData payload (.text (Taxonomy.name op)))) = _
    rw [Taxonomy.ofData_name]
    rfl
  rw [takePlain, hop]
  rfl

mutual

/-- An expression is read back from its data form but for the numbers that are not finite. -/
theorem ofData_toData_eq_finite : ∀ e : Expr, ofData payload e.toData = .ok e.finite
  | .lit value => by
    change (do ofFields (← takeEntries payload {} (.cons "lit" _ value.toData .nil))) = _
    rw [takeEntries, takeField_of_ne _ (by decide), takePlain_lit, Value.ofData_toData_eq_finite]
    rfl
  | .var path => rfl
  | .apply op args => by
    rw [toData_apply, ofData, takeEntries, takeField, if_pos rfl,
      ofDataAll_toDataAll_eq_finiteAll args]
    change (do ofFields (← takeEntries payload { args := some (finiteAll args) }
      (.cons "op" _ _ .nil))) = _
    rw [takeEntries, takeField_of_ne _ (by decide), takePlain_op]
    rfl

theorem ofDataAll_toDataAll_eq_finiteAll : ∀ args : List Expr,
    ofDataAll payload (toDataAll args) = .ok (finiteAll args)
  | [] => rfl
  | arg :: rest => by
    rw [toDataAll, ofDataAll, ofData_toData_eq_finite arg, ofDataAll_toDataAll_eq_finiteAll rest]
    rfl

end

theorem ofData_toData {e : Expr} (h : e.isFinite) : ofData payload e.toData = .ok e := by
  rw [ofData_toData_eq_finite, finite_eq_self_iff.mpr h]

end Expr

end FactScore
