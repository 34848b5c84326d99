import FactScore.Context
import FactScore.Dict.Lemmas

/-!
# Reading what was written

A write at one path and a read at another meet only when one path runs along the other
(`FactPath.Overlaps`).  What the write leaves there is settled by the two paths, by the value that
is written, and by what was there before (`Value.afterWrite`, `Context.lookup_set`).  Of a path
only its segments count, and stray dots make none (`FactPath.StrayDot`).
-/

namespace FactScore

theorem splitAtDots_ne_nil (cs : List Char) : splitAtDots cs ≠ [] := by
  fun_induction splitAtDots cs with
  | case1 => exact List.cons_ne_nil _ _
  | case2 => exact List.cons_ne_nil _ _
  | case3 c cs _ ih =>
    cases hparts : splitAtDots cs with
    | nil => exact absurd hparts ih
    | cons part parts => exact List.cons_ne_nil _ _

/-- A dot ends the part before it and begins the one after it. -/
theorem splitAtDots_append_dot (before after : List Char) :
    splitAtDots (before ++ '.' :: after) = splitAtDots before ++ splitAtDots after := by
  fun_induction splitAtDots before with
  | case1 => rfl
  | case2 cs ih => rw [List.cons_append, splitAtDots, ih, List.cons_append]
  | case3 c cs hdot ih =>
    rw [List.cons_append, splitAtDots, ih]
    · cases hparts : splitAtDots cs with
      | nil => exact absurd hparts (splitAtDots_ne_nil cs)
      | cons part parts => rfl
    · exact hdot

/-- A path and the same path without one of its stray dots: one at the front, one at the end, or
    one beside another dot. -/
inductive FactPath.StrayDot : FactPath → FactPath → Prop
  | front (text : String) : StrayDot ⟨"." ++ text⟩ ⟨text⟩
  | back (text : String) : StrayDot ⟨text ++ "."⟩ ⟨text⟩
  | beside (before after : String) :
      StrayDot ⟨before ++ ".." ++ after⟩ ⟨before ++ "." ++ after⟩

theorem FactPath.segments_empty : (FactPath.mk "").segments = [] := rfl

/-- A path with a dot in it has the segments of what is on both sides. -/
theorem FactPath.segments_append_dot (before after : String) :
    (FactPath.mk (before ++ "." ++ after)).segments =
      (FactPath.mk before).segments ++ (FactPath.mk after).segments := by
  have hchars : (before ++ "." ++ after).toList = before.toList ++ '.' :: after.toList := by
    simp
  rw [segments, hchars, splitAtDots_append_dot, List.filter_append, List.map_append]
  rfl

/-- A name without dots is one more segment. -/
theorem FactPath.segments_join (path : FactPath) {name : String}
    (hname : (FactPath.mk name).segments = [name]) :
    (path.join name).segments = path.segments ++ [name] := by
  unfold join
  split
  next hempty =>
    obtain ⟨text⟩ := path
    cases hempty
    rw [hname, segments_empty, List.nil_append]
  next => rw [segments_append_dot, hname]

theorem FactPath.segments_eq_of_strayDot {path plain : FactPath} (h : path.StrayDot plain) :
    path.segments = plain.segments := by
  cases h with
  | front text =>
    have hfront := segments_append_dot "" text
    rw [segments_empty, List.nil_append] at hfront
    exact hfront
  | back text =>
    have hback := segments_append_dot text ""
    rw [segments_empty, List.append_nil, String.append_empty] at hback
    exact hback
  | beside before after =>
    have hdots : before ++ ".." ++ after = before ++ "." ++ "" ++ "." ++ after := by
      simp [String.append_assoc]
    rw [hdots, segments_append_dot, segments_append_dot, segments_append_dot, segments_empty,
      List.append_nil]

/-- The segments of one path begin with those of the other, and both have some. -/
def FactPath.Overlaps (path other : FactPath) : Prop :=
  path.segments ≠ [] ∧ other.segments ≠ [] ∧
    (path.segments <+: other.segments ∨ other.segments <+: path.segments)

theorem FactPath.overlaps_self {path : FactPath} (h : path.segments ≠ []) : path.Overlaps path :=
  ⟨h, h, .inl (List.prefix_refl _)⟩

namespace Value

/-- A value with another one put in below it, in place of whatever is no map on the way. -/
def writeAt (old : Option Value) : List String → Value → Value
  | [], value => value
  | key :: keys, value =>
    .map ((asMap old).insert key (writeAt ((asMap old).find? key) keys value))

/-- What is read along a path after a write along another one, given what was read before. -/
def afterWrite (old : Option Value) (path written : List String) (value : Value) : Option Value :=
  if written <+: path then value.descend (path.drop written.length)
  else if path <+: written then some (writeAt old (written.drop path.length) value)
  else old

@[simp] theorem descend_nil (value : Value) : value.descend [] = some value := by
  cases value <;> rfl

@[simp] theorem descend_map_cons (entries : Dict Value) (key : String) (keys : List String) :
    (map entries).descend (key :: keys) =
      (entries.find? key).bind fun value => value.descend keys :=
  rfl

@[simp] theorem bind_descend_nil (old : Option Value) :
    (old.bind fun value => value.descend []) = old := by
  cases old with
  | none => rfl
  | some value => exact descend_nil value

/-- Going down from a value starts with a look-up in the map that it counts as. -/
theorem bind_descend_cons (old : Option Value) (key : String) (keys : List String) :
    (old.bind fun value => value.descend (key :: keys)) =
      ((asMap old).find? key).bind fun value => value.descend keys := by
  cases old with
  | none => rfl
  | some value => cases value <;> rfl

theorem map_setAt (entries : Dict Value) {keys : List String} (hkeys : keys ≠ [])
    (value : Value) :
    map (Context.setAt entries keys value) = writeAt (some (map entries)) keys value := by
  induction keys generalizing entries with
  | nil => exact absurd rfl hkeys
  | cons key keys ih =>
    cases keys with
    | nil => rfl
    | cons next keys =>
      rw [Context.setAt, ih (asMap (entries.find? key)) (List.cons_ne_nil next keys)]
      · rfl
      · simp

/-- The path of the write either begins with the path of the read, or the other way round, or the
    read does not meet the write. -/
theorem descend_writeAt (old : Option Value) (path written : List String) (value : Value) :
    (writeAt old written value).descend path =
      afterWrite (old.bind fun value => value.descend path) path written value := by
  induction written generalizing old path with
  | nil => simp [writeAt, afterWrite]
  | cons key written ih =>
    cases path with
    | nil => simp [afterWrite]
    | cons other path =>
      rw [writeAt, descend_map_cons, Dict.find?_insert, bind_descend_cons]
      by_cases hother : other = key
      · subst hother
        rw [if_pos rfl, Option.bind_some, ih]
        simp [afterWrite]
      · rw [if_neg hother]
        simp [afterWrite, hother, Ne.symm hother]

end Value

namespace Context

variable {context : Context} {path written : FactPath}

theorem lookupAt_eq_descend (context : Context) {keys : List String} (h : keys ≠ []) :
    context.lookupAt keys = (Value.map context.root).descend keys := by
  cases keys with
  | nil => exact absurd rfl h
  | cons key keys => rfl

theorem lookup_eq_descend (context : Context) (hpath : path.segments ≠ []) :
    context.lookup path = (Value.map context.root).descend path.segments :=
  lookupAt_eq_descend context hpath

theorem lookup_eq_none (context : Context) (hpath : path.segments = []) :
    context.lookup path = none := by
  rw [lookup, hpath, lookupAt]

theorem set_eq_self (context : Context) (hwritten : written.segments = []) (value : Value) :
    context.set written value = context := by
  rw [set, hwritten, setAt]

/-- A read after a write, whatever the two paths are. -/
theorem lookup_set (context : Context) (hpath : path.segments ≠ [])
    (hwritten : written.segments ≠ []) (value : Value) :
    (context.set written value).lookup path =
      Value.afterWrite (context.lookup path) path.segments written.segments value := by
  rw [lookup_eq_descend _ hpath, lookup_eq_descend _ hpath, set,
    Value.map_setAt context.root hwritten value, Value.descend_writeAt, Option.bind_some]

/-- A write changes nothing at a path that it does not overlap. -/
theorem lookup_set_of_not_overlaps (context : Context) (h : ¬ written.Overlaps path)
    (value : Value) : (context.set written value).lookup path = context.lookup path := by
  by_cases hpath : path.segments = []
  · rw [lookup_eq_none _ hpath, lookup_eq_none _ hpath]
  · by_cases hwritten : written.segments = []
    · rw [set_eq_self context hwritten]
    · have happart : ¬ (written.segments <+: path.segments ∨ path.segments <+: written.segments) :=
        fun halong => h ⟨hwritten, hpath, halong⟩
      obtain ⟨habove, hbelow⟩ := not_or.mp happart
      rw [lookup_set context hpath hwritten, Value.afterWrite, if_neg habove, if_neg hbelow]

/-- At a path that goes on from that of a write, what was written is read. -/
theorem lookup_set_of_prefix (context : Context) (hwritten : written.segments ≠ [])
    (h : written.segments <+: path.segments) (value : Value) :
    (context.set written value).lookup path =
      value.descend (path.segments.drop written.segments.length) := by
  have hpath : path.segments ≠ [] := fun hnil => hwritten (List.prefix_nil.mp (hnil ▸ h))
  rw [lookup_set context hpath hwritten, Value.afterWrite, if_pos h]

/-- Above a write, the map that was there is read with one of its entries changed. -/
theorem lookup_set_of_append (context : Context) {key : String} {rest : List String}
    (hpath : path.segments ≠ []) (h : written.segments = path.segments ++ key :: rest)
    (value : Value) :
    (context.set written value).lookup path =
      some (Value.writeAt (context.lookup path) (key :: rest) value) := by
  have hwritten : written.segments ≠ [] := by simp [h]
  have hnot : ¬ written.segments <+: path.segments := fun hback => by
    have hlength := hback.length_le
    rw [h, List.length_append, List.length_cons] at hlength
    omega
  rw [lookup_set context hpath hwritten, Value.afterWrite, if_neg hnot,
    if_pos (h ▸ List.prefix_append _ _), h, List.drop_left]

/-- Above a write, a map is read. -/
theorem lookup_set_of_above (context : Context) (hpath : path.segments ≠ [])
    (h : path.segments <+: written.segments) (hne : path.segments ≠ written.segments)
    (value : Value) : ∃ entries, (context.set written value).lookup path = some (.map entries) := by
  obtain ⟨rest, hrest⟩ := h
  cases rest with
  | nil => exact absurd (by simpa using hrest) hne
  | cons key keys => exact ⟨_, lookup_set_of_append context hpath hrest.symm value⟩

/-- A write at a path settles what is read at any path.  Where the segments of the read go on from
    those of the write, it goes down into the value that was written.  Where the two part, it finds
    what was there before.  Where those of the write go on from those of the read, it finds a map:
    the one that was there, or the empty one in place of anything else, with a new entry under the
    next key.  A path without segments writes nothing, paths with the same segments read and write
    alike, and stray dots make no difference to the segments. -/
theorem reads_after_write (context : Context) (value : Value) :
    (∀ (written path : FactPath) (rest : List String), written.segments ≠ [] →
      path.segments = written.segments ++ rest →
      (context.set written value).lookup path = value.descend rest) ∧
    (∀ written path : FactPath, ¬ written.segments <+: path.segments →
      ¬ path.segments <+: written.segments →
      (context.set written value).lookup path = context.lookup path) ∧
    (∀ (written path : FactPath) (key : String) (rest : List String), path.segments ≠ [] →
      written.segments = path.segments ++ key :: rest →
      (context.set written value).lookup path =
        some (.map ((Value.asMap (context.lookup path)).insert key
          (Value.writeAt ((Value.asMap (context.lookup path)).find? key) rest value)))) ∧
    (∀ written : FactPath, written.segments = [] → context.set written value = context) ∧
    (∀ path other : FactPath, path.segments = other.segments →
      context.set path value = context.set other value ∧
        context.lookup path = context.lookup other) ∧
    ∀ path plain : FactPath, path.StrayDot plain → path.segments = plain.segments := by
  refine ⟨?along, ?apart, ?above, ?nowhere, ?same, fun _ _ => FactPath.segments_eq_of_strayDot⟩
  case along =>
    intro written path rest hwritten hpath
    have hbelow : written.segments <+: path.segments := hpath ▸ List.prefix_append _ _
    have hread := lookup_set_of_prefix context hwritten hbelow value
    rw [hread, hpath, List.drop_left]
  case apart =>
    intro written path habove hbelow
    exact lookup_set_of_not_overlaps context (fun h => h.2.2.elim habove hbelow) value
  case above =>
    intro written path key rest hpath hwritten
    rw [lookup_set_of_append context hpath hwritten, Value.writeAt]
  case nowhere =>
    intro written hwritten
    exact set_eq_self context hwritten value
  case same =>
    intro path other hsegments
    rw [set, set, lookup, lookup, hsegments]
    exact ⟨rfl, rfl⟩

/-- A write below a text puts a map in its place.  Only the new entry is read there, and what is
    beside the new entry is as absent as it was. -/
theorem reads_after_write_below_text :
    let context := Context.empty.set ⟨"day"⟩ (.text "gap")
    let changed := context.set ⟨".day..stem"⟩ (.map (Dict.insert .nil "yang" (.bool true)))
    changed.lookup ⟨"day.stem.yang"⟩ = some (.bool true) ∧
      changed.lookup ⟨"day.branch"⟩ = context.lookup ⟨"day.branch"⟩ ∧
      changed.lookup ⟨"day"⟩ =
        some (.map (Dict.insert .nil "stem" (.map (Dict.insert .nil "yang" (.bool true))))) := by
  intro context changed
  have hwritten : (FactPath.mk ".day..stem").segments = ["day", "stem"] := by cbv
  have hbelow : (FactPath.mk "day.stem.yang").segments = ["day", "stem", "yang"] := by cbv
  have hbeside : (FactPath.mk "day.branch").segments = ["day", "branch"] := by cbv
  have habove : (FactPath.mk "day").segments = ["day"] := by cbv
  obtain ⟨hday, -⟩ := reads_after_write Context.empty (.text "gap")
  obtain ⟨halong, hapart, hmap, -⟩ :=
    reads_after_write context (.map (Dict.insert .nil "yang" (.bool true)))
  refine ⟨?_, ?_, ?_⟩
  · exact halong _ _ ["yang"] (by simp [hwritten]) (by simp [hwritten, hbelow])
  · exact hapart _ _ (by simp [hwritten, hbeside]) (by simp [hwritten, hbeside])
  · have htext : context.lookup ⟨"day"⟩ = some (.text "gap") :=
      hday _ _ [] (by simp [habove]) (by simp [habove])
    rw [hmap _ _ "stem" [] (by simp [habove]) (by simp [hwritten, habove]), htext]
    rfl

end Context

end FactScore
