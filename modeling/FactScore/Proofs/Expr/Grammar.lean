import FactScore.Proofs.Expr.WrittenFields

/-!
# The grammar of expressions

Which data are the form of an expression, and of which one.  A map counts by the fields that are
present in it (`Expr.Present`): exactly one of `lit`, `var` and `op`, and `args` only beside `op`.
A list is a literal, and all that follows its first item is null.  That is what is accepted
(`Expr.IsForm`), and what it stands for (`Expr.Denotes`); nothing else is, at any depth
(`Expr.decoding_exact`).
-/

namespace FactScore

namespace Expr

/-- A field is present.  A literal is so even when it is null. -/
def Present (entries : Dict Data) (key : String) : Prop :=
  ∃ data, entries.find? key = some data ∧ (key = "lit" ∨ data ≠ .null)

/-- Some data is the form of an expression. -/
inductive IsForm (payload : Data.Payload) : Data → Prop
  | fields {entries : Dict Data}
      (hknown : ∀ key ∈ entries.keys, key ∈ fieldNames)
      (hsingle : ∃! key, key ∈ ["lit", "var", "op"] ∧ Present entries key)
      (hbeside : Present entries "args" → Present entries "op")
      (hvar : Present entries "var" → ∃ text, entries.find? "var" = some (.text text))
      (hop : Present entries "op" →
        ∃ data, entries.find? "op" = some data ∧ ∃ op : Op, Taxonomy.Names payload data op)
      (hlist : Present entries "args" → ∃ items, entries.find? "args" = some (.list items))
      (hargs : ∀ items, entries.find? "args" = some (.list items) →
        ∀ item ∈ items, IsForm payload item) :
      IsForm payload (.map entries)
  | positions {first : Data} {rest : List Data} (hshort : rest.length < 4)
      (hnull : ∀ data ∈ rest, data = .null) :
      IsForm payload (.list (first :: rest))

/-- Some data is the form of an expression, which is given. -/
inductive Denotes (payload : Data.Payload) : Data → Expr → Prop
  | lit {entries : Dict Data} {value : Data} (hknown : ∀ key ∈ entries.keys, key ∈ fieldNames)
      (hlit : entries.find? "lit" = some value) (hvar : Absent (entries.find? "var"))
      (hop : Absent (entries.find? "op")) (hargs : Absent (entries.find? "args")) :
      Denotes payload (.map entries) (.lit (Value.ofData value))
  | var {entries : Dict Data} {text : String} (hknown : ∀ key ∈ entries.keys, key ∈ fieldNames)
      (hlit : entries.find? "lit" = none) (hvar : entries.find? "var" = some (.text text))
      (hop : Absent (entries.find? "op")) (hargs : Absent (entries.find? "args")) :
      Denotes payload (.map entries) (.var ⟨text⟩)
  | applyNone {entries : Dict Data} {data : Data} {op : Op}
      (hknown : ∀ key ∈ entries.keys, key ∈ fieldNames) (hlit : entries.find? "lit" = none)
      (hvar : Absent (entries.find? "var")) (hop : entries.find? "op" = some data)
      (hnames : Taxonomy.Names payload data op) (hargs : Absent (entries.find? "args")) :
      Denotes payload (.map entries) (.apply op [])
  | apply {entries : Dict Data} {data : Data} {op : Op} {items : List Data} {args : List Expr}
      (hknown : ∀ key ∈ entries.keys, key ∈ fieldNames) (hlit : entries.find? "lit" = none)
      (hvar : Absent (entries.find? "var")) (hop : entries.find? "op" = some data)
      (hnames : Taxonomy.Names payload data op)
      (hitems : entries.find? "args" = some (.list items))
      (hargs : List.Forall₂ (Denotes payload) items args) :
      Denotes payload (.map entries) (.apply op args)
  | positions {first : Data} {rest : List Data} (hshort : rest.length < 4)
      (hnull : ∀ data ∈ rest, data = .null) :
      Denotes payload (.list (first :: rest)) (.lit (Value.ofData first))

section

variable {entries : Dict Data}

theorem not_present_lit_iff : ¬ Present entries "lit" ↔ entries.find? "lit" = none := by
  simp [Present, Option.eq_none_iff_forall_ne_some]

theorem not_present_iff {key : String} (h : key ≠ "lit") :
    ¬ Present entries key ↔ Absent (entries.find? key) := by
  simp [Present, Absent, h]

theorem Absent.not_present {key : String} (h : Absent (entries.find? key)) (hkey : key ≠ "lit") :
    ¬ Present entries key :=
  (not_present_iff hkey).mpr h

theorem Absent.of_not_present {key : String} (h : ¬ Present entries key) (hkey : key ≠ "lit") :
    Absent (entries.find? key) :=
  (not_present_iff hkey).mp h

end

section

variable {payload : Data.Payload} {e : Expr}

theorem ofDataAll_eq_ok_iff {items : List Data} {args : List Expr} :
    ofDataAll payload items = .ok args ↔
      List.Forall₂ (fun item arg => ofData payload item = .ok arg) items args := by
  induction items generalizing args with
  | nil => simp [ofDataAll, eq_comm]
  | cons item items ih =>
    simp only [ofDataAll, bind_eq_ok_iff, ih, List.forall₂_cons_left_iff]
    constructor
    · rintro ⟨arg, harg, args, hargs, heq⟩
      exact ⟨arg, args, harg, hargs, (Except.ok.inj heq).symm⟩
    · rintro ⟨arg, args, harg, hargs, rfl⟩
      exact ⟨arg, harg, args, hargs, rfl⟩

theorem sizeOf_lt_of_find? {bound : Option String} {entries : Entries Data bound} {key : String}
    {data : Data} (h : entries.find? key = some data) : sizeOf data < sizeOf entries := by
  induction entries with
  | nil => cases h
  | cons first above value rest ih =>
    rw [Entries.find?_cons] at h
    rw [Entries.cons.sizeOf_spec]
    split at h
    next =>
      cases h
      omega
    next =>
      have hrest := ih h
      omega

/-- An argument is smaller than the map that it stands in. -/
theorem sizeOf_arg_lt {entries : Dict Data} {items : List Data} {item : Data}
    (hitems : entries.find? "args" = some (.list items)) (hitem : item ∈ items) :
    sizeOf item < sizeOf (Data.map entries) := by
  have hlist := sizeOf_lt_of_find? hitems
  have harg := List.sizeOf_lt_of_mem hitem
  rw [Data.list.sizeOf_spec] at hlist
  rw [Data.map.sizeOf_spec]
  omega

/-- A map is read as the expression that it denotes, if that is so of its arguments. -/
theorem ofData_map_eq_ok_iff_denotes {entries : Dict Data}
    (hall : ∀ items args, entries.find? "args" = some (.list items) →
      (ofDataAll payload items = .ok args ↔ List.Forall₂ (Denotes payload) items args)) :
    ofData payload (.map entries) = .ok e ↔ Denotes payload (.map entries) e := by
  rw [ofData_map_eq_ok_iff]
  constructor
  · rintro ⟨hknown, fields, hfilled, hfields⟩
    rcases ofFields_eq_ok_iff.mp hfields with
      ⟨value, rfl, rfl⟩ | ⟨path, rfl, rfl⟩ | ⟨op, args, rfl, rfl⟩
    · obtain ⟨⟨data, hlit, rfl⟩, hvar, hop, hargs⟩ := filled_lit_iff.mp hfilled
      exact .lit hknown hlit hvar hop hargs
    · obtain ⟨hlit, hvar, hop, hargs⟩ := filled_var_iff.mp hfilled
      exact .var hknown hlit hvar hop hargs
    · obtain ⟨hlit, hvar, ⟨data, hop, hnames⟩, htaken⟩ := filled_op_iff.mp hfilled
      cases args with
      | none => exact .applyNone hknown hlit hvar hop hnames (taken_args_none_iff.mp htaken)
      | some args =>
        obtain ⟨items, hitems, hargs⟩ := taken_args_some_iff.mp htaken
        exact .apply hknown hlit hvar hop hnames hitems ((hall items args hitems).mp hargs)
  · intro h
    cases h with
    | lit hknown hlit hvar hop hargs =>
      exact ⟨hknown, _, filled_lit_iff.mpr ⟨⟨_, hlit, rfl⟩, hvar, hop, hargs⟩, rfl⟩
    | var hknown hlit hvar hop hargs =>
      exact ⟨hknown, _, filled_var_iff.mpr ⟨hlit, hvar, hop, hargs⟩, rfl⟩
    | applyNone hknown hlit hvar hop hnames hargs =>
      have htaken : Taken (readArgs payload) (entries.find? "args") none none :=
        taken_args_none_iff.mpr hargs
      exact ⟨hknown, _, filled_op_iff.mpr ⟨hlit, hvar, ⟨_, hop, hnames⟩, htaken⟩, rfl⟩
    | apply hknown hlit hvar hop hnames hitems hargs =>
      have htaken := taken_args_some_iff.mpr ⟨_, hitems, (hall _ _ hitems).mpr hargs⟩
      exact ⟨hknown, _, filled_op_iff.mpr ⟨hlit, hvar, ⟨_, hop, hnames⟩, htaken⟩, rfl⟩

theorem ofData_list_eq_ok_iff_denotes {items : List Data} :
    ofData payload (.list items) = .ok e ↔ Denotes payload (.list items) e := by
  rw [ofData_list_eq_ok_iff_nulls]
  constructor
  · rintro ⟨first, rest, rfl, hshort, hnull, rfl⟩
    exact .positions hshort hnull
  · intro h
    cases h with
    | positions hshort hnull => exact ⟨_, _, rfl, hshort, hnull, rfl⟩

theorem forall₂_congr_of_mem {α β : Type} {p q : α → β → Prop} {items : List α}
    (h : ∀ item ∈ items, ∀ arg, p item arg ↔ q item arg) (args : List β) :
    List.Forall₂ p items args ↔ List.Forall₂ q items args := by
  induction items generalizing args with
  | nil => simp
  | cons item items ih =>
    obtain ⟨hitem, hitems⟩ := List.forall_mem_cons.mp h
    simp only [List.forall₂_cons_left_iff, hitem, ih hitems]

/-- Data is read as the expression that it denotes. -/
theorem ofData_eq_ok_iff_denotes : ∀ (data : Data) (e : Expr),
    ofData payload data = .ok e ↔ Denotes payload data e
  | .map entries, _ => ofData_map_eq_ok_iff_denotes fun items args hitems => by
    rw [ofDataAll_eq_ok_iff]
    exact forall₂_congr_of_mem (fun item hitem arg => ofData_eq_ok_iff_denotes item arg) args
  | .list _, _ => ofData_list_eq_ok_iff_denotes
  | .null, _ | .bool _, _ | .int _, _ | .float _, _ | .text _, _ =>
    ⟨(fun h => nomatch h), (fun h => nomatch h)⟩
termination_by data => sizeOf data
decreasing_by exact sizeOf_arg_lt hitems hitem

theorem exists_forall₂_iff {α β : Type} {p : α → β → Prop} {items : List α} :
    (∃ args, List.Forall₂ p items args) ↔ ∀ item ∈ items, ∃ arg, p item arg := by
  induction items with
  | nil => simp
  | cons item items ih =>
    rw [List.forall_mem_cons, ← ih]
    constructor
    · rintro ⟨_, _ | ⟨harg, hargs⟩⟩
      exact ⟨⟨_, harg⟩, _, hargs⟩
    · rintro ⟨⟨arg, harg⟩, args, hargs⟩
      exact ⟨arg :: args, .cons harg hargs⟩

/-- Exactly one of the three forms is present, told form by form. -/
theorem existsUnique_form_iff {p : String → Prop} :
    (∃! key, key ∈ ["lit", "var", "op"] ∧ p key) ↔
      (p "lit" ∧ ¬ p "var" ∧ ¬ p "op") ∨ (¬ p "lit" ∧ p "var" ∧ ¬ p "op") ∨
        (¬ p "lit" ∧ ¬ p "var" ∧ p "op") := by
  grind [ExistsUnique]

variable {entries : Dict Data}

/-- Without arguments, nothing is asked of them. -/
theorem IsForm.fields_of_no_args (hknown : ∀ key ∈ entries.keys, key ∈ fieldNames)
    (hsingle : ∃! key, key ∈ ["lit", "var", "op"] ∧ Present entries key)
    (hvar : Present entries "var" → ∃ text, entries.find? "var" = some (.text text))
    (hop : Present entries "op" →
      ∃ data, entries.find? "op" = some data ∧ ∃ op : Op, Taxonomy.Names payload data op)
    (hargs : Absent (entries.find? "args")) : IsForm payload (.map entries) := by
  have hargs := hargs.not_present (by decide)
  refine .fields hknown hsingle (absurd · hargs) hvar hop (absurd · hargs) fun items hitems => ?_
  exact absurd ⟨_, hitems, .inr Data.noConfusion⟩ hargs

/-- What denotes an expression is a form. -/
theorem isForm_of_denotes : ∀ {data : Data} {e : Expr}, Denotes payload data e →
    IsForm payload data
  | .map entries, _, .lit hknown hlit hvar hop hargs => by
    have hvar := hvar.not_present (by decide)
    have hop := hop.not_present (by decide)
    have hpresent : Present entries "lit" := ⟨_, hlit, .inl rfl⟩
    exact .fields_of_no_args hknown (existsUnique_form_iff.mpr (.inl ⟨hpresent, hvar, hop⟩))
      (absurd · hvar) (absurd · hop) hargs
  | .map entries, _, .var hknown hlit hvar hop hargs => by
    have hlit := not_present_lit_iff.mpr hlit
    have hop := hop.not_present (by decide)
    have hpresent : Present entries "var" := ⟨_, hvar, .inr Data.noConfusion⟩
    exact .fields_of_no_args hknown
      (existsUnique_form_iff.mpr (.inr (.inl ⟨hlit, hpresent, hop⟩))) (fun _ => ⟨_, hvar⟩)
      (absurd · hop) hargs
  | .map entries, _, .applyNone hknown hlit hvar hop hnames hargs => by
    have hlit := not_present_lit_iff.mpr hlit
    have hvar := hvar.not_present (by decide)
    have hpresent : Present entries "op" := ⟨_, hop, .inr hnames.ne_null⟩
    exact .fields_of_no_args hknown
      (existsUnique_form_iff.mpr (.inr (.inr ⟨hlit, hvar, hpresent⟩))) (absurd · hvar)
      (fun _ => ⟨_, hop, _, hnames⟩) hargs
  | .map entries, _, .apply hknown hlit hvar hop hnames hitems hargs => by
    have hlit := not_present_lit_iff.mpr hlit
    have hvar := hvar.not_present (by decide)
    have hpresent : Present entries "op" := ⟨_, hop, .inr hnames.ne_null⟩
    refine .fields hknown (existsUnique_form_iff.mpr (.inr (.inr ⟨hlit, hvar, hpresent⟩)))
      (fun _ => hpresent) (absurd · hvar) (fun _ => ⟨_, hop, _, hnames⟩) (fun _ => ⟨_, hitems⟩)
      fun items hitems' item hitem => ?_
    cases hitems.symm.trans hitems'
    obtain ⟨arg, harg⟩ := exists_forall₂_iff.mp ⟨_, hargs⟩ item hitem
    exact isForm_of_denotes harg
  | .list _, _, .positions hshort hnull => .positions hshort hnull
termination_by data => sizeOf data
decreasing_by exact sizeOf_arg_lt hitems hitem

/-- What is a form denotes an expression. -/
theorem exists_denotes_of_isForm {data : Data} (h : IsForm payload data) :
    ∃ e, Denotes payload data e := by
  induction h with
  | @fields entries hknown hsingle hbeside hvar hop hlist hargs ih =>
    rcases existsUnique_form_iff.mp hsingle with
      ⟨⟨value, hlit, -⟩, hnovar, hnoop⟩ | ⟨hnolit, hpresent, hnoop⟩ | ⟨hnolit, hnovar, hpresent⟩
    · have hvar := Absent.of_not_present hnovar (by decide)
      have hop := Absent.of_not_present hnoop (by decide)
      have hargs := Absent.of_not_present (fun h => hnoop (hbeside h)) (by decide)
      exact ⟨_, .lit hknown hlit hvar hop hargs⟩
    · have hlit := not_present_lit_iff.mp hnolit
      have hop := Absent.of_not_present hnoop (by decide)
      have hargs := Absent.of_not_present (fun h => hnoop (hbeside h)) (by decide)
      obtain ⟨text, htext⟩ := hvar hpresent
      exact ⟨_, .var hknown hlit htext hop hargs⟩
    · have hlit := not_present_lit_iff.mp hnolit
      have hvar := Absent.of_not_present hnovar (by decide)
      obtain ⟨data, hdata, op, hnames⟩ := hop hpresent
      by_cases hargs : Present entries "args"
      · obtain ⟨items, hitems⟩ := hlist hargs
        obtain ⟨args, hdenotes⟩ := exists_forall₂_iff.mpr (ih items hitems)
        exact ⟨_, .apply hknown hlit hvar hdata hnames hitems hdenotes⟩
      · have hargs := Absent.of_not_present hargs (by decide)
        exact ⟨_, .applyNone hknown hlit hvar hdata hnames hargs⟩
  | positions hshort hnull => exact ⟨_, .positions hshort hnull⟩

/-- Decoding accepts exactly the forms, and reads each as the expression that it denotes.  Where a
    payload has to be null, an operator is named by a text or by a map from its name to null. -/
theorem decoding_exact (payload : Data.Payload) (data : Data) :
    ((∃ e, ofData payload data = .ok e) ↔ IsForm payload data) ∧
    (∀ e, ofData payload data = .ok e ↔ Denotes payload data e) ∧
    ∀ value, Data.Payload.null.admits value ↔ value = .null := by
  refine ⟨?_, ofData_eq_ok_iff_denotes data, fun value => ?_⟩
  · simp only [ofData_eq_ok_iff_denotes]
    exact ⟨fun ⟨_, h⟩ => isForm_of_denotes h, exists_denotes_of_isForm⟩
  · cases value <;> simp [Data.Payload.admits]

end

end Expr

end FactScore
