import FactScore.Proofs.Context.Writes

/-!
# Merging contexts

A merge is told path by path (`Context.merge_pathwise`).  What a path reaches in the context that
is merged in is laid over what it reaches in the other one (`Context.overlay`).  A path that
reaches nothing there is left as it was, unless a value that is no map stands in its way.
-/

namespace FactScore

namespace Value

/-- A value is a map. -/
def IsMap (value : Value) : Prop :=
  ∃ entries, value = .map entries

theorem descend_append (value : Value) (front rest : List String) :
    value.descend (front ++ rest) = (value.descend front).bind fun below => below.descend rest := by
  induction front generalizing value with
  | nil => rw [List.nil_append, descend_nil, Option.bind_some]
  | cons key front ih =>
    cases value with
    | map entries =>
      rw [List.cons_append, descend_map_cons, descend_map_cons, Option.bind_assoc]
      exact congrArg _ (funext fun below => ih below)
    | _ => rfl

/-- Nothing is below a value that is no map. -/
theorem descend_of_not_isMap {value : Value} (h : ¬ value.IsMap) {keys : List String}
    (hkeys : keys ≠ []) : value.descend keys = none := by
  cases keys with
  | nil => exact absurd rfl hkeys
  | cons key keys =>
    cases value with
    | map entries => exact absurd ⟨entries, rfl⟩ h
    | _ => rfl

/-- What is no map counts as the empty one. -/
theorem asMap_of_no_map {old : Option Value} (h : ∀ entries, old ≠ some (.map entries)) :
    asMap old = .nil := by
  unfold asMap
  split
  next entries => exact absurd rfl (h entries)
  next => rfl

end Value

namespace Context

theorem overlay_of_not_isMap {value : Value} (h : ¬ value.IsMap) (old : Option Value) :
    overlay old value = value := by
  cases value with
  | map entries => exact absurd ⟨entries, rfl⟩ h
  | _ => rfl

theorem overlay_none (value : Value) : overlay none value = value := by
  cases value <;> rfl

/-- What stands at a place where there was something or not, and where something or nothing is
    laid over it. -/
def laid (old : Option Value) : Option Value → Option Value
  | some value => some (overlay old value)
  | none => old

@[simp] theorem laid_none_left (new : Option Value) : laid none new = new := by
  cases new with
  | none => rfl
  | some value => rw [laid, overlay_none]

/-- Two maps are merged key by key. -/
theorem find?_mergeInto {bound : Option String} (target : Dict Value)
    (entries : Entries Value bound) (key : String) :
    (mergeInto target entries).find? key = laid (target.find? key) (entries.find? key) := by
  induction entries generalizing target with
  | nil => rfl
  | cons first above value rest ih =>
    rw [mergeInto, ih, Dict.find?_insert, Entries.find?_cons]
    by_cases hkey : key = first
    · subst hkey
      rw [if_pos rfl, if_pos rfl, rest.find?_eq_none_of_le (Std.le_refl key)]
      rfl
    · rw [if_neg hkey, if_neg hkey]

theorem mergeInto_nil (entries : Dict Value) : mergeInto .nil entries = entries :=
  Dict.ext fun key => by rw [find?_mergeInto, Entries.find?_nil, laid_none_left]

/-- A map is laid over whatever was there as over the map that it counts as. -/
theorem overlay_map (old : Option Value) (incoming : Dict Value) :
    overlay old (.map incoming) = .map (mergeInto (Value.asMap old) incoming) := by
  cases old with
  | none => exact (overlay_none _).trans (congrArg Value.map (mergeInto_nil incoming).symm)
  | some value =>
    cases value with
    | map existing => rfl
    | _ => exact congrArg Value.map (mergeInto_nil incoming).symm

mutual

/-- To lay a value over what is there twice is to lay it once. -/
theorem overlay_overlay : ∀ (value : Value) (old : Option Value),
    overlay (some (overlay old value)) value = overlay old value
  | .map incoming, old => by
    rw [overlay_map, overlay_map, Value.asMap]
    refine congrArg Value.map (Dict.ext fun key => ?_)
    rw [find?_mergeInto, find?_mergeInto]
    cases hfind : incoming.find? key with
    | none => rfl
    | some value => exact congrArg some (overlay_overlay_of_find? incoming hfind _)
  | .missing, _ | .bool _, _ | .number _, _ | .text _, _ | .list _, _ => rfl

theorem overlay_overlay_of_find? : ∀ {bound : Option String} (entries : Entries Value bound)
    {key : String} {value : Value}, entries.find? key = some value → ∀ old : Option Value,
      overlay (some (overlay old value)) value = overlay old value
  | _, .cons first _ value rest, key, _, hfind, old => by
    rw [Entries.find?_cons] at hfind
    split at hfind
    next =>
      cases hfind
      exact overlay_overlay value old
    next => exact overlay_overlay_of_find? rest hfind old

end

section

variable {old new : Option Value} {key : String} {keys : List String} {value : Value}

/-- Below a key the parts under that key are laid over each other. -/
theorem bind_descend_laid_map (old : Option Value) (incoming : Dict Value) (key : String)
    (keys : List String) :
    ((laid old (some (.map incoming))).bind fun value => value.descend (key :: keys)) =
      (laid ((Value.asMap old).find? key) (incoming.find? key)).bind
        fun value => value.descend keys := by
  rw [laid, overlay_map, Option.bind_some, Value.descend_map_cons, find?_mergeInto]

/-- What keys lead to in the new value is laid over what they led to in the old one. -/
theorem bind_descend_laid_of_some
    (h : (new.bind fun value => value.descend keys) = some value) :
    ((laid old new).bind fun value => value.descend keys) =
      some (overlay (old.bind fun value => value.descend keys) value) := by
  induction keys generalizing old new with
  | nil =>
    rw [Value.bind_descend_nil] at h
    simp only [Value.bind_descend_nil, h, laid]
  | cons key keys ih =>
    cases new with
    | none => cases h
    | some incoming =>
      cases incoming with
      | map incoming =>
        rw [Option.bind_some, Value.descend_map_cons] at h
        rw [bind_descend_laid_map, Value.bind_descend_cons, ih h]
      | _ => cases h

/-- Keys that lead to nothing in the new value lead to nothing any more, if on the way there they
    lead to a value that is no map. -/
theorem bind_descend_laid_of_blocked {front : List String}
    (hkeys : keys ≠ []) (hfront : (new.bind fun value => value.descend front) = some value)
    (hvalue : ¬ value.IsMap) :
    ((laid old new).bind fun value => value.descend (front ++ keys)) = none := by
  have hlaid : ((laid old new).bind fun value => value.descend front) = some (overlay _ value) :=
    bind_descend_laid_of_some hfront
  rw [overlay_of_not_isMap hvalue] at hlaid
  cases hresult : laid old new with
  | none => rfl
  | some result =>
    rw [hresult, Option.bind_some] at hlaid
    rw [Option.bind_some, Value.descend_append, hlaid, Option.bind_some,
      Value.descend_of_not_isMap hvalue hkeys]

/-- Keys that lead to nothing in the new value lead to what they led to before, if on the way
    there they lead to maps or to nothing. -/
theorem bind_descend_laid_of_open
    (h : (new.bind fun value => value.descend keys) = none)
    (hopen : ∀ front rest value, keys = front ++ rest → rest ≠ [] →
      (new.bind fun value => value.descend front) = some value → value.IsMap) :
    ((laid old new).bind fun value => value.descend keys) =
      old.bind fun value => value.descend keys := by
  induction keys generalizing old new with
  | nil =>
    rw [Value.bind_descend_nil] at h
    simp only [Value.bind_descend_nil, h, laid]
  | cons key keys ih =>
    cases new with
    | none => rfl
    | some incoming =>
      obtain ⟨entries, rfl⟩ : incoming.IsMap :=
        hopen [] (key :: keys) incoming rfl (List.cons_ne_nil key keys)
          (by rw [Option.bind_some, Value.descend_nil])
      rw [Option.bind_some, Value.descend_map_cons] at h
      rw [bind_descend_laid_map, Value.bind_descend_cons]
      refine ih h fun front rest value hkeys hrest hfront => ?_
      exact hopen (key :: front) rest value (by rw [hkeys, List.cons_append]) hrest
        (by rw [Option.bind_some, Value.descend_map_cons, hfront])

end

/-- On the way to the end of a path, after at least one segment, a context has a value that is no
    map. -/
def Blocks (context : Context) (path : FactPath) : Prop :=
  ∃ front rest value, path.segments = front ++ rest ∧ front ≠ [] ∧ rest ≠ [] ∧
    context.lookupAt front = some value ∧ ¬ value.IsMap

section

variable (context other : Context) {path : FactPath} {value : Value}

theorem lookup_merge_eq_descend (hpath : path.segments ≠ []) :
    (context.merge other).lookup path =
      (laid (some (.map context.root)) (some (.map other.root))).bind
        fun value => value.descend path.segments :=
  lookup_eq_descend _ hpath

/-- What a path reaches in the context that is merged in is laid over what it reached. -/
theorem lookup_merge_of_some (h : other.lookup path = some value) :
    (context.merge other).lookup path = some (overlay (context.lookup path) value) := by
  have hpath : path.segments ≠ [] := fun hnil => by
    rw [lookup_eq_none other hnil] at h
    cases h
  rw [lookup_eq_descend _ hpath] at h
  rw [lookup_merge_eq_descend _ _ hpath, lookup_eq_descend _ hpath]
  exact bind_descend_laid_of_some h

theorem lookup_merge_of_blocks (h : other.Blocks path) :
    (context.merge other).lookup path = none := by
  obtain ⟨front, rest, value, hsegments, hfront, hrest, hlookup, hvalue⟩ := h
  have hpath : path.segments ≠ [] := by simp [hsegments, hfront]
  rw [lookupAt_eq_descend _ hfront] at hlookup
  rw [lookup_merge_eq_descend _ _ hpath, hsegments]
  exact bind_descend_laid_of_blocked hrest hlookup hvalue

theorem lookup_merge_of_none (h : other.lookup path = none) (hopen : ¬ other.Blocks path) :
    (context.merge other).lookup path = context.lookup path := by
  by_cases hpath : path.segments = []
  · rw [lookup_eq_none _ hpath, lookup_eq_none _ hpath]
  · rw [lookup_eq_descend _ hpath] at h
    rw [lookup_merge_eq_descend _ _ hpath, lookup_eq_descend _ hpath]
    refine bind_descend_laid_of_open h fun front rest value hsegments hrest hfront => ?_
    refine Classical.byContradiction fun hvalue => ?_
    cases front with
    | nil =>
      rw [Option.bind_some, Value.descend_nil] at hfront
      cases hfront
      exact hvalue ⟨_, rfl⟩
    | cons key keys =>
      exact hopen ⟨key :: keys, rest, value, hsegments, List.cons_ne_nil key keys, hrest, hfront,
        hvalue⟩

/-- What a path reaches after a merge is told by what it reaches in the two contexts.  If it
    reaches a value that is no map in the one that is merged in, then that one.  If it reaches a
    map there, then the merge of that map into the one that it reached before, or the map as it is
    if it reached none.  If it reaches nothing there, then nothing, provided that a value that is
    no map blocks its way there, and else what it reached before.  The empty context changes
    nothing on either side, and a second merge of the same context changes nothing more. -/
theorem merge_pathwise :
    (∀ path value, other.lookup path = some value → ¬ value.IsMap →
      (context.merge other).lookup path = some value) ∧
    (∀ path incoming, other.lookup path = some (.map incoming) →
      (∀ existing, context.lookup path = some (.map existing) →
        (context.merge other).lookup path =
          some (.map (merge ⟨existing⟩ ⟨incoming⟩).root)) ∧
      ((∀ existing, context.lookup path ≠ some (.map existing)) →
        (context.merge other).lookup path = some (.map incoming))) ∧
    (∀ path, other.lookup path = none →
      (other.Blocks path → (context.merge other).lookup path = none) ∧
      (¬ other.Blocks path → (context.merge other).lookup path = context.lookup path)) ∧
    context.merge empty = context ∧ empty.merge context = context ∧
    (context.merge other).merge other = context.merge other := by
  refine ⟨?single, ?maps, ?absent, rfl, ?left, ?twice⟩
  case single =>
    intro path value hlookup hvalue
    rw [lookup_merge_of_some context other hlookup, overlay_of_not_isMap hvalue]
  case maps =>
    intro path incoming hlookup
    rw [lookup_merge_of_some context other hlookup, overlay_map]
    constructor
    · intro existing hexisting
      rw [hexisting]
      rfl
    · intro hnone
      rw [Value.asMap_of_no_map hnone, mergeInto_nil]
  case absent =>
    intro path hlookup
    exact ⟨lookup_merge_of_blocks context other, lookup_merge_of_none context other hlookup⟩
  case left => exact congrArg Context.mk (mergeInto_nil context.root)
  case twice =>
    have htwice := overlay_overlay (.map other.root) (some (.map context.root))
    exact congrArg Context.mk (Value.map.inj htwice)

end

/-- A null that is merged in stands in the place of a map and hides what was below it, and a map
    takes in another one. -/
theorem merge_pathwise_null :
    let context : Context := ⟨Dict.ofList
      [("day", .map (Dict.ofList [("stem", .text "gap"), ("branch", .text "ja")])),
        ("hour", .map (Dict.ofList [("stem", .text "eul")]))]⟩
    let other : Context := ⟨Dict.ofList
      [("day", .map (Dict.ofList [("branch", .text "chuk")])), ("hour", .missing)]⟩
    (context.merge other).lookup ⟨"hour"⟩ = some .missing ∧
      (context.merge other).lookup ⟨"hour.stem"⟩ = none ∧
      (context.merge other).lookup ⟨"day.stem"⟩ = some (.text "gap") ∧
      (context.merge other).lookup ⟨"day"⟩ =
        some (.map (Dict.ofList [("stem", .text "gap"), ("branch", .text "chuk")])) := by
  intro context other
  obtain ⟨hsingle, hmaps, habsent, -⟩ := merge_pathwise context other
  have hmissing : ¬ Value.missing.IsMap := fun ⟨_, h⟩ => nomatch h
  have hhour : other.lookup ⟨"hour"⟩ = some .missing := rfl
  have hopen : ¬ other.Blocks ⟨"day.stem"⟩ := by
    rintro ⟨front, rest, value, hsegments, hfront, hrest, hlookup, hvalue⟩
    have hday : (FactPath.mk "day.stem").segments = ["day", "stem"] := rfl
    rw [hday] at hsegments
    cases front with
    | nil => exact hfront rfl
    | cons key front =>
      obtain ⟨rfl, hstem⟩ := List.cons.inj hsegments
      rcases List.append_eq_singleton_iff.mp hstem.symm with ⟨rfl, -⟩ | ⟨-, rfl⟩
      · cases hlookup
        exact hvalue ⟨_, rfl⟩
      · exact hrest rfl
  refine ⟨hsingle _ _ hhour hmissing, ?_, ?_, ?_⟩
  · refine (habsent ⟨"hour.stem"⟩ rfl).1 ?_
    exact ⟨["hour"], ["stem"], .missing, rfl, by simp, by simp, rfl, hmissing⟩
  · rw [(habsent ⟨"day.stem"⟩ rfl).2 hopen]
    rfl
  · exact ((hmaps ⟨"day"⟩ _ rfl).1 _ rfl).trans rfl

end Context

end FactScore
