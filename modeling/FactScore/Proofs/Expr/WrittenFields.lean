import FactScore.Proofs.Format.Expressions

/-!
# The fields of an expression as they are taken up

The members of a map and the items of a list fill the same four fields, each by its own rule
(`Expr.Filled`), and what is filled makes up an expression in one of three ways
(`Expr.ofFields_eq_ok_iff`).  Of each field it is told what leaves it empty and what fills it.
-/

namespace FactScore

theorem bind_eq_ok_iff {ε α β : Type} {first : Except ε α} {next : α → Except ε β} {result : β} :
    first >>= next = .ok result ↔ ∃ value, first = .ok value ∧ next value = .ok result := by
  cases first with
  | error error =>
    constructor
    · intro h
      cases h
    · rintro ⟨_, h, _⟩
      cases h
  | ok value =>
    constructor
    · exact fun h => ⟨value, rfl, h⟩
    · rintro ⟨_, h, hnext⟩
      cases h
      exact hnext

theorem map_eq_ok_iff {ε α β : Type} {first : Except ε α} {f : α → β} {result : β} :
    f <$> first = .ok result ↔ ∃ value, first = .ok value ∧ f value = result := by
  cases first <;> simp [Functor.map, Except.map]

/-- Some data gives the name of a member of a taxonomy: as a text, or as the only key of a map, with
    an absent payload. -/
def Taxonomy.Names {α : Type} [Taxonomy α] (payload : Data.Payload) (data : Data) (member : α) :
    Prop :=
  data = .text (name member) ∨
    ∃ value, payload.admits value ∧ data = .ofFields [(name member, value)]

namespace Taxonomy

variable {α : Type} [Taxonomy α] {payload : Data.Payload} {data : Data} {member : α}

theorem name?_eq_some_iff {text : String} :
    data.name? payload = some text ↔
      data = .text text ∨ ∃ value, payload.admits value ∧ data = .ofFields [(text, value)] := by
  constructor
  · intro h
    unfold Data.name? at h
    split at h
    next =>
      cases h
      exact .inl rfl
    next =>
      obtain ⟨hadmits, hkey⟩ := Option.ite_none_right_eq_some.mp h
      cases hkey
      exact .inr ⟨_, hadmits, rfl⟩
    next => cases h
  · rintro (rfl | ⟨value, hadmits, rfl⟩)
    · rfl
    · exact if_pos hadmits

/-- What gives a name is not null. -/
theorem Names.ne_null (h : Names payload data member) : data ≠ .null := by
  rcases h with rfl | ⟨value, _, rfl⟩
  · exact Data.noConfusion
  · exact Data.noConfusion

variable [LawfulTaxonomy α]

theorem ofName?_eq_some_iff {text : String} : ofName? text = some member ↔ text = name member := by
  constructor
  · intro h
    have hname := List.find?_some h
    exact (beq_iff_eq.mp hname).symm
  · rintro rfl
    exact ofName?_name member

theorem ofData_eq_ok_iff : ofData payload data = .ok member ↔ Names payload data member := by
  have hfound : ofData payload data = .ok member ↔
      (data.name? payload).bind ofName? = some member := by
    unfold ofData
    cases (data.name? payload).bind (ofName? (α := α)) <;> simp
  simp only [hfound, Option.bind_eq_some_iff, ofName?_eq_some_iff, exists_eq_right,
    name?_eq_some_iff, Names]

end Taxonomy

@[simp] theorem Data.isNull_iff {data : Data} : data.isNull ↔ data = .null := by
  cases data <;> simp [isNull]

namespace Expr

/-- A field is not there, or null. -/
def Absent (found : Option Data) : Prop :=
  ∀ data, found = some data → data = .null

/-- The literal of an expression. -/
def readLit (data : Data) : Except Fault (Option Value) :=
  .ok (some (Value.ofData data))

/-- The path of an expression, if it is given. -/
def readVar (data : Data) : Except Fault (Option FactPath) := do
  return (← optionalText data).map FactPath.mk

/-- The arguments of an expression, if they are given. -/
def readArgs (payload : Data.Payload) (before : Option (List Expr)) :
    Data → Except Fault (Option (List Expr))
  | .list items => do return some (← ofDataAll payload items)
  | data => if data.isNull then .ok before else .error .malformed

/-- What a field is found with is taken up, and else it stays as it is. -/
def Taken {α : Type} (read : α → Data → Except Fault α) (found : Option Data) (before after : α) :
    Prop :=
  match found with
  | some data => read before data = .ok after
  | none => before = after

/-- Fields are filled with what is found under their names. -/
@[mk_iff]
structure Filled (payload : Data.Payload) (found : String → Option Data) (before after : Fields) :
    Prop where
  lit : Taken (fun _ => readLit) (found "lit") before.lit after.lit
  var : Taken (fun _ => readVar) (found "var") before.var after.var
  op : Taken (fun _ => optionalOp payload) (found "op") before.op after.op
  args : Taken (readArgs payload) (found "args") before.args after.args

/-- To take up one thing more and then the others is to take up all of them. -/
theorem exists_taken_iff {α : Type} {read : α → Data → Except Fault α} {before after : α}
    {key slot : String} {data : Data} {found : String → Option Data} (hkey : found key = none) :
    (∃ between, Taken read (if slot = key then some data else none) before between ∧
      Taken read (found slot) between after) ↔
      Taken read (if slot = key then some data else found slot) before after := by
  by_cases hslot : slot = key
  · subst hslot
    simp [Taken, hkey]
  · simp [Taken, hslot]

section

variable {payload : Data.Payload} {found : String → Option Data} {before after : Fields}
  {key : String} {data : Data}

theorem exists_filled_iff_filled (hkey : found key = none) :
    (∃ between, Filled payload (fun name => if name = key then some data else none) before between ∧
      Filled payload found between after) ↔
      Filled payload (fun name => if name = key then some data else found name) before after := by
  constructor
  · rintro ⟨between, hfirst, hrest⟩
    exact ⟨(exists_taken_iff hkey).mp ⟨_, hfirst.lit, hrest.lit⟩,
      (exists_taken_iff hkey).mp ⟨_, hfirst.var, hrest.var⟩,
      (exists_taken_iff hkey).mp ⟨_, hfirst.op, hrest.op⟩,
      (exists_taken_iff hkey).mp ⟨_, hfirst.args, hrest.args⟩⟩
  · intro h
    obtain ⟨lit, hlit, hlit'⟩ := (exists_taken_iff hkey).mpr h.lit
    obtain ⟨var, hvar, hvar'⟩ := (exists_taken_iff hkey).mpr h.var
    obtain ⟨op, hop, hop'⟩ := (exists_taken_iff hkey).mpr h.op
    obtain ⟨args, hargs, hargs'⟩ := (exists_taken_iff hkey).mpr h.args
    exact ⟨⟨lit, var, op, args⟩, ⟨hlit, hvar, hop, hargs⟩, ⟨hlit', hvar', hop', hargs'⟩⟩

theorem takeField_args_eq (payload : Data.Payload) (fields : Fields) (data : Data) :
    takeField payload fields "args" data =
      (fun args => { fields with args }) <$> readArgs payload fields.args data := by
  cases data with
  | list items =>
    rw [takeField, if_pos rfl, readArgs]
    cases ofDataAll payload items <;> rfl
  | _ => rfl

theorem takePlain_var_eq (payload : Data.Payload) (fields : Fields) (data : Data) :
    takePlain payload fields "var" data = (fun var => { fields with var }) <$> readVar data := by
  rw [takePlain, if_neg (by decide), if_pos rfl, readVar]
  cases optionalText data <;> rfl

/-- Taking up one field fills it, if it is one of those that there are. -/
theorem takeField_eq_ok_iff :
    takeField payload before key data = .ok after ↔
      key ∈ fieldNames ∧
        Filled payload (fun name => if name = key then some data else none) before after := by
  obtain ⟨lit, var, op, args⟩ := after
  by_cases hargs : key = "args"
  · subst hargs
    rw [takeField_args_eq, map_eq_ok_iff]
    simp [fieldNames, filled_iff, Taken, and_assoc, and_comm, and_left_comm]
  rw [takeField_of_ne _ hargs]
  by_cases hvar : key = "var"
  · subst hvar
    rw [takePlain_var_eq, map_eq_ok_iff]
    simp [fieldNames, filled_iff, Taken, and_left_comm]
  rw [takePlain, if_neg hvar]
  by_cases hlit : key = "lit"
  · subst hlit
    simp [fieldNames, filled_iff, Taken, readLit]
  rw [if_neg hlit]
  by_cases hop : key = "op"
  · subst hop
    rw [if_pos rfl, bind_pure_comp, map_eq_ok_iff]
    simp [fieldNames, filled_iff, Taken, and_left_comm]
  · rw [if_neg hop]
    simp [fieldNames, hargs, hlit, hvar, hop]

/-- Taking up the members of a map fills the fields that they name. -/
theorem takeEntries_eq_ok_iff {bound : Option String} {entries : Entries Data bound} :
    takeEntries payload before entries = .ok after ↔
      (∀ key ∈ entries.keys, key ∈ fieldNames) ∧ Filled payload entries.find? before after := by
  induction entries generalizing before with
  | nil =>
    obtain ⟨lit, var, op, args⟩ := before
    obtain ⟨lit', var', op', args'⟩ := after
    simp [takeEntries, filled_iff, Taken, Entries.keys, Entries.toList]
  | cons key above data rest ih =>
    have hkey : rest.find? key = none := rest.find?_eq_none_of_le (Std.le_refl key)
    simp only [takeEntries, bind_eq_ok_iff, takeField_eq_ok_iff, ih]
    have hkeys : (Entries.cons key above data rest).keys = key :: rest.keys := rfl
    have hfind : (Entries.cons key above data rest).find? =
        fun name => if name = key then some data else rest.find? name := rfl
    rw [hkeys, hfind, ← exists_filled_iff_filled hkey, List.forall_mem_cons]
    constructor
    · rintro ⟨between, ⟨hknown, hfirst⟩, hrest, hfilled⟩
      exact ⟨⟨hknown, hrest⟩, between, hfirst, hfilled⟩
    · rintro ⟨⟨hknown, hrest⟩, between, hfirst, hfilled⟩
      exact ⟨between, ⟨hknown, hfirst⟩, hrest, hfilled⟩

/-- Taking up the items of a list fills the fields in whose positions they are. -/
theorem takeItems_eq_ok_iff {names : List String} {items : List Data} (hnames : names.Nodup)
    (hknown : ∀ name ∈ names, name ∈ fieldNames) :
    takeItems payload before names items = .ok after ↔
      items.length ≤ names.length ∧
        Filled payload (fun name => (names.zip items).lookup name) before after := by
  induction names generalizing before items with
  | nil =>
    cases items with
    | nil =>
      obtain ⟨lit, var, op, args⟩ := before
      obtain ⟨lit', var', op', args'⟩ := after
      simp [takeItems, filled_iff, Taken]
    | cons data items => simp [takeItems]
  | cons key names ih =>
    obtain ⟨hkey, hnames⟩ := List.nodup_cons.mp hnames
    obtain ⟨hfirst, hknown⟩ := List.forall_mem_cons.mp hknown
    cases items with
    | nil =>
      obtain ⟨lit, var, op, args⟩ := before
      obtain ⟨lit', var', op', args'⟩ := after
      simp [takeItems, filled_iff, Taken]
    | cons data items =>
      have hfind : (names.zip items).lookup key = none := by
        refine List.lookup_eq_none_iff.mpr fun pair hpair => ?_
        exact bne_iff_ne.mpr fun heq => hkey (heq ▸ (List.of_mem_zip hpair).1)
      have hlookup : (fun name => ((key :: names).zip (data :: items)).lookup name) =
          fun name => if name = key then some data else (names.zip items).lookup name := by
        funext name
        rw [List.zip_cons_cons, List.lookup_cons]
        by_cases hname : name = key
        · simp [hname]
        · simp [beq_eq_false_iff_ne.mpr hname, hname]
      rw [hlookup, ← exists_filled_iff_filled hfind]
      simp only [takeItems, bind_eq_ok_iff, takeField_eq_ok_iff, ih hnames hknown, hfirst,
        true_and, List.length_cons, Nat.add_le_add_iff_right]
      constructor
      · rintro ⟨between, hfilled, hlength, hrest⟩
        exact ⟨hlength, between, hfilled, hrest⟩
      · rintro ⟨hlength, between, hfilled, hrest⟩
        exact ⟨between, hfilled, hlength, hrest⟩

end

section

variable {payload : Data.Payload} {data : Data}

theorem readVar_eq_ok_none_iff : readVar data = .ok none ↔ data = .null := by
  cases data <;> simp [readVar, optionalText, bind, Except.bind, pure, Except.pure]

theorem readVar_eq_ok_some_iff {path : FactPath} :
    readVar data = .ok (some path) ↔ data = .text path.text := by
  cases data with
  | text text =>
    obtain ⟨text'⟩ := path
    change Except.ok (some (FactPath.mk text)) = .ok (some ⟨text'⟩) ↔ _
    simp
  | _ => simp [readVar, optionalText, bind, Except.bind, pure, Except.pure]

theorem optionalOp_eq_ok_none_iff : optionalOp payload data = .ok none ↔ data = .null := by
  unfold optionalOp
  split
  next h => simp [Data.isNull_iff.mp h]
  next h => simp [mt Data.isNull_iff.mpr h, map_eq_ok_iff]

theorem optionalOp_eq_ok_some_iff {op : Op} :
    optionalOp payload data = .ok (some op) ↔ Taxonomy.Names payload data op := by
  unfold optionalOp
  split
  next h =>
    simp only [reduceCtorEq, Except.ok.injEq, false_iff]
    exact fun hnames => hnames.ne_null (Data.isNull_iff.mp h)
  next => simp [map_eq_ok_iff, Taxonomy.ofData_eq_ok_iff]

theorem readArgs_eq_ok_none_iff : readArgs payload none data = .ok none ↔ data = .null := by
  cases data <;> simp [readArgs, Data.isNull, map_eq_ok_iff]

theorem readArgs_eq_ok_some_iff {args : List Expr} :
    readArgs payload none data = .ok (some args) ↔
      ∃ items, data = .list items ∧ ofDataAll payload items = .ok args := by
  cases data <;> simp [readArgs, Data.isNull, map_eq_ok_iff]

end

section

variable {α : Type} {read : Option α → Data → Except Fault (Option α)} {found : Option Data}

theorem taken_none_iff (hread : ∀ data, read none data = .ok none ↔ data = .null) :
    Taken read found none none ↔ Absent found := by
  cases found <;> simp [Taken, Absent, hread]

theorem taken_some_iff {value : α} :
    Taken read found none (some value) ↔
      ∃ data, found = some data ∧ read none data = .ok (some value) := by
  cases found <;> simp [Taken]

end

theorem ofFields_eq_ok_iff {fields : Fields} {e : Expr} :
    ofFields fields = .ok e ↔
      (∃ value, fields = { lit := some value } ∧ e = .lit value) ∨
      (∃ path, fields = { var := some path } ∧ e = .var path) ∨
      ∃ op args, fields = { op := some op, args } ∧ e = .apply op (args.getD []) := by
  obtain ⟨lit, var, op, args⟩ := fields
  cases lit <;> cases var <;> cases op <;> cases args <;> simp [ofFields, eq_comm]

section

variable {payload : Data.Payload} {found : Option Data}

theorem taken_lit_none_iff : Taken (fun _ => readLit) found none none ↔ found = none := by
  cases found <;> simp [Taken, readLit]

theorem taken_lit_some_iff {value : Value} :
    Taken (fun _ => readLit) found none (some value) ↔
      ∃ data, found = some data ∧ Value.ofData data = value := by
  cases found <;> simp [Taken, readLit]

theorem taken_var_none_iff : Taken (fun _ => readVar) found none none ↔ Absent found :=
  taken_none_iff fun _ => readVar_eq_ok_none_iff

theorem taken_var_some_iff {path : FactPath} :
    Taken (fun _ => readVar) found none (some path) ↔ found = some (.text path.text) := by
  simp [taken_some_iff, readVar_eq_ok_some_iff]

theorem taken_op_none_iff : Taken (fun _ => optionalOp payload) found none none ↔ Absent found :=
  taken_none_iff fun _ => optionalOp_eq_ok_none_iff

theorem taken_op_some_iff {op : Op} :
    Taken (fun _ => optionalOp payload) found none (some op) ↔
      ∃ data, found = some data ∧ Taxonomy.Names payload data op := by
  simp [taken_some_iff, optionalOp_eq_ok_some_iff]

theorem taken_args_none_iff : Taken (readArgs payload) found none none ↔ Absent found :=
  taken_none_iff fun _ => readArgs_eq_ok_none_iff

theorem taken_args_some_iff {args : List Expr} :
    Taken (readArgs payload) found none (some args) ↔
      ∃ items, found = some (.list items) ∧ ofDataAll payload items = .ok args := by
  simp [taken_some_iff, readArgs_eq_ok_some_iff]

end

section

variable {payload : Data.Payload} {found : String → Option Data} {op : Op}

theorem filled_lit_iff {value : Value} :
    Filled payload found {} { lit := some value } ↔
      (∃ data, found "lit" = some data ∧ Value.ofData data = value) ∧ Absent (found "var") ∧
        Absent (found "op") ∧ Absent (found "args") := by
  rw [filled_iff, taken_lit_some_iff, taken_var_none_iff, taken_op_none_iff, taken_args_none_iff]

theorem filled_var_iff {path : FactPath} :
    Filled payload found {} { var := some path } ↔
      found "lit" = none ∧ found "var" = some (.text path.text) ∧ Absent (found "op") ∧
        Absent (found "args") := by
  rw [filled_iff, taken_lit_none_iff, taken_var_some_iff, taken_op_none_iff, taken_args_none_iff]

theorem filled_op_iff {args : Option (List Expr)} :
    Filled payload found {} { op := some op, args } ↔
      found "lit" = none ∧ Absent (found "var") ∧
        (∃ data, found "op" = some data ∧ Taxonomy.Names payload data op) ∧
        Taken (readArgs payload) (found "args") none args := by
  rw [filled_iff, taken_lit_none_iff, taken_var_none_iff, taken_op_some_iff]

end

section

variable {payload : Data.Payload} {e : Expr}

theorem ofData_map_eq_ok_iff {entries : Dict Data} :
    ofData payload (.map entries) = .ok e ↔
      (∀ key ∈ entries.keys, key ∈ fieldNames) ∧
        ∃ fields, Filled payload entries.find? {} fields ∧ ofFields fields = .ok e := by
  simp only [ofData, bind_eq_ok_iff, takeEntries_eq_ok_iff, and_assoc, exists_and_left]

theorem ofData_list_eq_ok_iff {items : List Data} :
    ofData payload (.list items) = .ok e ↔
      items.length ≤ 4 ∧
        ∃ fields, Filled payload (fun name => (fieldNames.zip items).lookup name) {} fields ∧
          ofFields fields = .ok e := by
  have hnames : fieldNames.Nodup := by decide
  simp only [ofData, bind_eq_ok_iff, takeItems_eq_ok_iff hnames fun _ h => h, and_assoc,
    exists_and_left]
  rfl

/-- What is found in a list behind its first item is absent, just when all of that is null. -/
theorem absent_behind_first_iff (first : Data) {rest : List Data} (hshort : rest.length < 4) :
    (Absent ((fieldNames.zip (first :: rest)).lookup "var") ∧
      Absent ((fieldNames.zip (first :: rest)).lookup "op") ∧
      Absent ((fieldNames.zip (first :: rest)).lookup "args")) ↔ ∀ data ∈ rest, data = .null := by
  match rest, hshort with
  | [], _ | [_], _ | [_, _], _ | [_, _, _], _ => simp [Absent, fieldNames, List.lookup_cons]

/-- A list makes up a literal, of its first item. -/
theorem ofData_list_eq_ok_iff_nulls {items : List Data} :
    ofData payload (.list items) = .ok e ↔
      ∃ first rest, items = first :: rest ∧ rest.length < 4 ∧ (∀ data ∈ rest, data = .null) ∧
        e = .lit (Value.ofData first) := by
  constructor
  · intro h
    cases items with
    | nil => cases h
    | cons first rest =>
      obtain ⟨hlength, fields, hfilled, hfields⟩ := ofData_list_eq_ok_iff.mp h
      rcases ofFields_eq_ok_iff.mp hfields with
        ⟨value, rfl, rfl⟩ | ⟨path, rfl, -⟩ | ⟨op, args, rfl, -⟩
      · obtain ⟨⟨_, hlit, rfl⟩, habsent⟩ := filled_lit_iff.mp hfilled
        cases hlit
        have hshort : rest.length < 4 := hlength
        exact ⟨first, rest, rfl, hshort, (absent_behind_first_iff first hshort).mp habsent, rfl⟩
      · obtain ⟨hlit, -⟩ := filled_var_iff.mp hfilled
        cases hlit
      · obtain ⟨hlit, -⟩ := filled_op_iff.mp hfilled
        cases hlit
  · rintro ⟨first, rest, rfl, hshort, hnull, rfl⟩
    have habsent := (absent_behind_first_iff first hshort).mpr hnull
    refine ofData_list_eq_ok_iff.mpr ⟨hshort, { lit := some (Value.ofData first) }, ?_, rfl⟩
    exact filled_lit_iff.mpr ⟨⟨first, rfl, rfl⟩, habsent⟩

end

end Expr

end FactScore
