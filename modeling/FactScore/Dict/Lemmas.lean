import FactScore.Dict

/-!
# Laws of dictionaries

What each operation does to a look-up, and extensionality: a dictionary is determined by its
look-ups (`Entries.ext`).
-/

namespace FactScore

namespace Entries

variable {α β : Type} {bound : Option String}

@[simp] theorem find?_nil (key : String) : (nil : Entries α bound).find? key = none := rfl

theorem find?_cons (key key' : String) (above : KeyAbove bound key') (value : α)
    (rest : Entries α (some key')) :
    (cons key' above value rest).find? key = if key = key' then some value else rest.find? key :=
  rfl

/-- Only keys above the bound are present. -/
theorem above_of_find? {key : String} {value : α} {entries : Entries α bound}
    (h : entries.find? key = some value) : KeyAbove bound key := by
  induction entries with
  | nil => simp at h
  | cons key' above value' rest ih =>
    rw [find?_cons] at h
    split at h
    next same => exact same ▸ above
    next => exact above.trans (ih h)

/-- A key at or below the bound is absent. -/
theorem find?_eq_none_of_le {key low : String} (entries : Entries α (some low))
    (h : key ≤ low) : entries.find? key = none := by
  cases hfind : entries.find? key with
  | none => rfl
  | some value =>
    exact absurd (above_of_find? hfind low rfl) (Std.not_lt.mpr h)

/-- An entry is what a look-up of its key finds. -/
theorem find?_of_mem_toList {key : String} {value : α} {entries : Entries α bound}
    (h : (key, value) ∈ entries.toList) : entries.find? key = some value := by
  induction entries with
  | nil => cases h
  | cons key' above value' rest ih =>
    rw [find?_cons]
    rcases List.mem_cons.mp h with heq | hrest
    · cases heq
      exact if_pos rfl
    · have hne : key ≠ key' := by
        rintro rfl
        exact absurd (above_of_find? (ih hrest) key rfl) Std.lt_irrefl
      rw [if_neg hne, ih hrest]

theorem mem_toList_of_find? {key : String} {value : α} {entries : Entries α bound}
    (h : entries.find? key = some value) : (key, value) ∈ entries.toList := by
  induction entries with
  | nil => cases h
  | cons key' above value' rest ih =>
    rw [find?_cons] at h
    rw [toList, List.mem_cons]
    split at h
    next same =>
      cases h
      exact .inl (by rw [same])
    next => exact .inr (ih h)

/-- An entry stands between those before it and those after it, whose keys are greater. -/
theorem exists_toList_eq_append {key : String} {value : α} {entries : Entries α bound}
    (h : entries.find? key = some value) :
    ∃ before after, entries.toList = before ++ (key, value) :: after ∧
      ∀ later ∈ after, key < later.1 := by
  induction entries with
  | nil => cases h
  | cons key' above value' rest ih =>
    rw [find?_cons] at h
    split at h
    next same =>
      cases h
      subst same
      exact ⟨[], rest.toList, rfl, fun later hlater =>
        above_of_find? (find?_of_mem_toList hlater) key rfl⟩
    next =>
      obtain ⟨before, after, hlist, hafter⟩ := ih h
      exact ⟨(key', value') :: before, after, by rw [toList, hlist, List.cons_append], hafter⟩

theorem find?_insertAbove (key key' : String) (value : α) (above : KeyAbove bound key)
    (entries : Entries α bound) :
    (entries.insertAbove key value above).find? key' =
      if key' = key then some value else entries.find? key' := by
  induction entries with
  | nil => simp [insertAbove, find?_cons]
  | cons key₁ above₁ value₁ rest ih =>
    unfold insertAbove
    split
    · simp only [find?_cons]
    · split
      next same =>
        subst same
        simp only [find?_cons]
        split <;> rfl
      next different =>
        rw [find?_cons, find?_cons, ih]
        by_cases h₁ : key' = key₁
        · subst h₁
          simp [different]
        · simp [h₁]

theorem find?_weaken {bound' : Option String}
    (h : ∀ key, KeyAbove bound key → KeyAbove bound' key) (key : String)
    (entries : Entries α bound) : (entries.weaken h).find? key = entries.find? key := by
  cases entries <;> rfl

theorem find?_erase (key key' : String) (entries : Entries α bound) :
    (entries.erase key).find? key' = if key' = key then none else entries.find? key' := by
  induction entries with
  | nil => simp [erase]
  | cons key₁ above₁ value₁ rest ih =>
    unfold erase
    split
    next same =>
      subst same
      rw [find?_weaken, find?_cons]
      split
      next h => exact h ▸ find?_eq_none_of_le rest (Std.le_refl key)
      next => rfl
    next different =>
      rw [find?_cons, find?_cons, ih]
      by_cases h₁ : key' = key₁
      · subst h₁
        simp [Ne.symm different]
      · simp [h₁]

theorem find?_map (f : α → β) (key : String) (entries : Entries α bound) :
    (entries.map f).find? key = (entries.find? key).map f := by
  induction entries with
  | nil => rfl
  | cons key' above value rest ih =>
    simp only [map, find?_cons]
    split
    · rfl
    · exact ih

/-- Two dictionaries that answer every look-up alike are equal. -/
theorem ext {left right : Entries α bound} (h : ∀ key, left.find? key = right.find? key) :
    left = right := by
  induction left with
  | nil =>
    cases right with
    | nil => rfl
    | cons key above value rest =>
      have := h key
      simp [find?_cons] at this
  | cons key above value rest ih =>
    cases right with
    | nil =>
      have := h key
      simp [find?_cons] at this
    | cons key' above' value' rest' =>
      have hkey : key = key' := by
        have hleft := h key
        have hright := h key'
        simp only [find?_cons, if_true] at hleft hright
        by_cases same : key = key'
        · exact same
        · rw [if_neg same] at hleft
          rw [if_neg (Ne.symm same)] at hright
          have first := above_of_find? hleft.symm key' rfl
          have second := above_of_find? hright key rfl
          exact absurd (Std.lt_trans first second) (Std.lt_irrefl)
      subst hkey
      have hvalue : value = value' := by
        have := h key
        simpa [find?_cons] using this
      subst hvalue
      congr 1
      refine ih fun other => ?_
      by_cases same : other = key
      · subst same
        rw [find?_eq_none_of_le rest (Std.le_refl other),
          find?_eq_none_of_le rest' (Std.le_refl other)]
      · have := h other
        simpa [find?_cons, same] using this

theorem contains_iff_mem_keys {entries : Entries α bound} {key : String} :
    entries.contains key = true ↔ key ∈ entries.keys := by
  induction entries with
  | nil => simp [contains, keys, toList]
  | cons key' above value rest ih =>
    simp only [contains, find?_cons, keys, toList, List.map_cons, List.mem_cons] at ih ⊢
    by_cases h : key = key'
    · simp [h]
    · rw [if_neg h, ih]
      simp [h]

/-- The keys are in increasing order. -/
theorem pairwise_keys (entries : Entries α bound) : entries.keys.Pairwise (· < ·) := by
  induction entries with
  | nil => exact .nil
  | cons key above value rest ih =>
    refine List.pairwise_cons.mpr ⟨fun later hlater => ?_, ih⟩
    obtain ⟨value', hvalue'⟩ := Option.isSome_iff_exists.mp (contains_iff_mem_keys.mpr hlater)
    exact above_of_find? hvalue' key rfl

theorem nodup_keys (entries : Entries α bound) : entries.keys.Nodup := by
  refine entries.pairwise_keys.imp fun hlt heq => ?_
  exact Std.lt_irrefl (heq ▸ hlt)

theorem contains_erase (entries : Entries α bound) (key key' : String) :
    (entries.erase key).contains key' = (key' != key && entries.contains key') := by
  unfold contains
  rw [find?_erase]
  by_cases h : key' = key
  · simp [h]
  · simp [h]

end Entries

namespace Dict

variable {α : Type}

@[simp] theorem find?_insert (dict : Dict α) (key key' : String) (value : α) :
    (dict.insert key value).find? key' = if key' = key then some value else dict.find? key' :=
  Entries.find?_insertAbove key key' value (.of_none key) dict

theorem ext {left right : Dict α} (h : ∀ key, left.find? key = right.find? key) :
    left = right :=
  Entries.ext h

theorem contains_insert (dict : Dict α) (key key' : String) (value : α) :
    (dict.insert key value).contains key' = (key' == key || dict.contains key') := by
  unfold Entries.contains
  rw [find?_insert]
  by_cases h : key' = key
  · simp [h]
  · simp [h]

theorem find?_insertKeys (dict : Dict α) (keys : List String) (key : String) (value : α) :
    (dict.insertKeys keys value).find? key =
      if key ∈ keys then some value else dict.find? key := by
  unfold insertKeys
  induction keys generalizing dict with
  | nil => simp
  | cons k ks ih =>
    rw [List.foldl_cons, ih, find?_insert]
    by_cases hrest : key ∈ ks
    · simp [hrest]
    · by_cases hfirst : key = k
      · simp [hfirst]
      · simp [hrest, hfirst]

theorem contains_insertKeys (dict : Dict α) (keys : List String) (key : String) (value : α) :
    (dict.insertKeys keys value).contains key = (keys.contains key || dict.contains key) := by
  unfold Entries.contains
  rw [find?_insertKeys]
  by_cases hmem : key ∈ keys
  · simp [hmem]
  · simp [hmem]

/-- What is folded in comes before what was there. -/
theorem find?_foldl_insert (pairs : List (String × α)) (dict : Dict α) (key : String) :
    (pairs.foldl (fun dict pair => dict.insert pair.1 pair.2) dict).find? key =
      ((ofList pairs).find? key).or (dict.find? key) := by
  induction pairs generalizing dict with
  | nil => rfl
  | cons first rest ih =>
    rw [ofList, List.foldl_cons, List.foldl_cons, ih, ih (Dict.insert .nil first.1 first.2),
      find?_insert, find?_insert]
    cases (ofList rest).find? key with
    | some value => rfl
    | none => split <;> rfl

@[simp] theorem find?_ofList_nil (key : String) :
    (ofList ([] : List (String × α))).find? key = none :=
  rfl

/-- Of the pairs with a key the last one is found. -/
@[simp] theorem find?_ofList_append (first second : List (String × α)) (key : String) :
    (ofList (first ++ second)).find? key =
      ((ofList second).find? key).or ((ofList first).find? key) := by
  rw [ofList, List.foldl_append, find?_foldl_insert, ofList, ofList]

@[simp] theorem find?_ofList_cons (first : String × α) (rest : List (String × α)) (key : String) :
    (ofList (first :: rest)).find? key =
      ((ofList rest).find? key).or (if key = first.1 then some first.2 else none) := by
  rw [ofList, List.foldl_cons, find?_foldl_insert, find?_insert]
  rfl

theorem mem_of_find?_ofList {pairs : List (String × α)} {key : String} {value : α}
    (h : (ofList pairs).find? key = some value) : (key, value) ∈ pairs := by
  induction pairs with
  | nil => cases h
  | cons first rest ih =>
    rw [find?_ofList_cons, Option.or_eq_some_iff] at h
    rcases h with hrest | ⟨-, hfirst⟩
    · exact List.mem_cons_of_mem _ (ih hrest)
    · obtain ⟨rfl, hvalue⟩ := Option.ite_none_right_eq_some.mp hfirst
      cases hvalue
      exact List.mem_cons_self ..

theorem isSome_find?_ofList {pairs : List (String × α)} {key : String} {value : α}
    (h : (key, value) ∈ pairs) : ((ofList pairs).find? key).isSome := by
  induction pairs with
  | nil => cases h
  | cons first rest ih =>
    rw [find?_ofList_cons, Option.isSome_or]
    rcases List.mem_cons.mp h with rfl | hrest
    · simp
    · rw [ih hrest, Bool.true_or]

theorem ofList_map {β : Type} (f : α → β) (pairs : List (String × α)) :
    ofList (pairs.map fun pair => (pair.1, f pair.2)) = (ofList pairs).map f := by
  refine Dict.ext fun key => ?_
  rw [Entries.find?_map]
  induction pairs with
  | nil => rfl
  | cons first rest ih =>
    rw [List.map_cons, find?_ofList_cons, find?_ofList_cons, ih, Option.map_or]
    split <;> rfl

/-- A dictionary made from keys and a function of them answers with that function. -/
theorem find?_ofList_map (keys : List String) (f : String → α) (key : String) :
    (ofList (keys.map fun key => (key, f key))).find? key =
      if key ∈ keys then some (f key) else none := by
  induction keys with
  | nil => rfl
  | cons first rest ih =>
    rw [List.map_cons, find?_ofList_cons, ih]
    by_cases hrest : key ∈ rest
    · simp [hrest]
    · by_cases hfirst : key = first
      · subst hfirst
        simp [hrest]
      · simp [hrest, hfirst]

end Dict

theorem mem_sortDistinct {texts : List String} {text : String} :
    text ∈ sortDistinct texts ↔ text ∈ texts := by
  unfold sortDistinct
  rw [← Entries.contains_iff_mem_keys, Dict.contains_insertKeys]
  simp [Entries.contains]

end FactScore
