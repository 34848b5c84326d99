import FactScore.Proofs.Number.Order
import FactScore.Proofs.Scoring.Accounts
import Mathlib.Data.List.Induction
import Mathlib.Data.String.Basic
import Mathlib.Order.Defs.LinearOrder

/-!
# Rankings

A category is ranked before another one if its total is greater, or if the totals are equal and its
key comes first (`Scoreboard.Outranks`).  As long as every total is a number, this is the order of
one key for each category (`Scoreboard.rankKey`), so sorting by it gives the ranking
(`Scoreboard.Numeric.ranks_ranked`).  What has been added to a category, and in which order, settles
its tally (`Scoreboard.find?_ofAdditions`), whatever was added to other categories in between.
-/

namespace FactScore

namespace Scoreboard

/-- A category has a total. -/
def HasTotal (scores : Scoreboard) (category : String) (total : Float) : Prop :=
  ∃ tally, scores.get? category = some tally ∧ tally.total = total

/-- Every total is a number. -/
def Numeric (scores : Scoreboard) : Prop :=
  ∀ category total, scores.HasTotal category total → total.isNaN = false

/-- One category comes strictly before another in a ranking.  Zero and minus zero are equal. -/
def Outranks (left right : String × Float) : Prop :=
  right.2 < left.2 ∨ (left.2 == right.2) = true ∧ left.1 < right.1

instance : DecidableRel Outranks :=
  fun _ _ => inferInstanceAs (Decidable (_ ∨ _))

example : Outranks ("a", -0.0) ("b", 0.0) ∧ ¬ Outranks ("b", 0.0) ("a", -0.0) := by decide

/-- A list ranks some scores: it has every category once, with its total, and in order. -/
structure Ranks (scores : Scoreboard) (ranking : List (String × Float)) : Prop where
  nodup : (ranking.map Prod.fst).Nodup
  mem_iff : ∀ category total, (category, total) ∈ ranking ↔ scores.HasTotal category total
  ordered : ranking.Pairwise Outranks

/-- A category leads some scores: no other total is greater, and among equal ones no other key comes
    first. -/
structure Leads (scores : Scoreboard) (category : String) (total : Float) : Prop where
  hasTotal : scores.HasTotal category total
  greatest : ∀ other total', scores.HasTotal other total' → total' ≤ total
  least : ∀ other total', scores.HasTotal other total' → (total' == total) = true →
    category ≤ other

/-- Rankings go by this. -/
def rankKey (entry : String × Float) : (ℤ ×ₗ ℤ ×ₗ ℤ)ᵒᵈ ×ₗ String :=
  toLex (OrderDual.toDual (Number.place entry.2), entry.1)

section

variable {left right : String × Float}

theorem rankKey_le_iff (hleft : left.2.isNaN = false) (hright : right.2.isNaN = false) :
    rankKey left ≤ rankKey right ↔
      right.2 ≤ left.2 ∧ ((right.2 == left.2) = true → left.1 ≤ right.1) := by
  rw [Number.le_iff_place hright hleft, Number.beq_iff_place hright hleft]
  exact Prod.Lex.toLex_le_toLex'.trans
    (and_congr OrderDual.toDual_le_toDual (imp_congr_left (OrderDual.toDual_inj.trans eq_comm)))

theorem outranks_iff (hleft : left.2.isNaN = false) (hright : right.2.isNaN = false) :
    Outranks left right ↔ rankKey left < rankKey right := by
  rw [Outranks, Number.lt_iff_place hright hleft, Number.beq_iff_place hleft hright, rankKey,
    rankKey, Prod.Lex.toLex_lt_toLex, OrderDual.toDual_lt_toDual, OrderDual.toDual_inj]

/-- Numbers are sorted by their keys. -/
theorem ranksBefore_eq (hleft : left.2.isNaN = false) (hright : right.2.isNaN = false) :
    ranksBefore left right = decide (rankKey left ≤ rankKey right) := by
  simp only [ranksBefore, Number.lt_iff_place hright hleft, Number.lt_iff_place hleft hright]
  rcases lt_trichotomy (Number.place right.2) (Number.place left.2) with hlt | heq | hgt
  · have hle : rankKey left ≤ rankKey right := Prod.Lex.toLex_le_toLex.mpr (.inl hlt)
    rw [if_pos hlt, decide_eq_true hle]
  · have hle : rankKey left ≤ rankKey right ↔ left.1 ≤ right.1 := by
      simp [rankKey, Prod.Lex.toLex_le_toLex, heq]
    rw [if_neg (by simp [heq]), if_neg (by simp [heq]), decide_eq_decide.mpr hle]
  · have hle : ¬ rankKey left ≤ rankKey right := not_le.mpr (Prod.Lex.toLex_lt_toLex.mpr (.inl hgt))
    rw [if_neg hgt.not_gt, if_pos hgt, decide_eq_false hle]

end

section

variable {scores : Scoreboard} {category : String} {total : Float}

theorem mem_totals_iff : (category, total) ∈ scores.totals ↔ scores.HasTotal category total := by
  simp only [totals, List.mem_map, Prod.mk.injEq]
  constructor
  · rintro ⟨⟨key, tally⟩, hentry, rfl, rfl⟩
    exact ⟨tally, Entries.find?_of_mem_toList hentry, rfl⟩
  · rintro ⟨tally, htally, rfl⟩
    exact ⟨(category, tally), Entries.mem_toList_of_find? htally, rfl, rfl⟩

theorem mem_ranked_iff : (category, total) ∈ scores.ranked ↔ scores.HasTotal category total := by
  rw [ranked, List.mem_mergeSort, mem_totals_iff]

theorem nodup_ranked (scores : Scoreboard) : (scores.ranked.map Prod.fst).Nodup := by
  have hperm : (scores.ranked.map Prod.fst).Perm (scores.totals.map Prod.fst) :=
    (List.mergeSort_perm scores.totals ranksBefore).map Prod.fst
  have hkeys : scores.totals.map Prod.fst = scores.categories.keys := by
    rw [totals, List.map_map]
    rfl
  rw [hperm.nodup_iff, hkeys]
  exact scores.categories.nodup_keys

namespace Numeric

theorem of_mem_ranked (h : scores.Numeric) {entry : String × Float}
    (hentry : entry ∈ scores.ranked) : entry.2.isNaN = false :=
  h entry.1 entry.2 (mem_ranked_iff.mp hentry)

/-- The ranking is sorted by keys. -/
theorem pairwise_rankKey_le (h : scores.Numeric) :
    scores.ranked.Pairwise fun left right => rankKey left ≤ rankKey right := by
  have hsort : (scores.totals.mergeSort ranksBefore).map id =
      (scores.totals.map id).mergeSort fun left right => decide (rankKey left ≤ rankKey right) := by
    refine List.map_mergeSort fun left hleft right hright => ranksBefore_eq ?_ ?_
    · exact h _ _ (mem_totals_iff.mp hleft)
    · exact h _ _ (mem_totals_iff.mp hright)
  have htrans (first second third : String × Float) :
      decide (rankKey first ≤ rankKey second) = true →
      decide (rankKey second ≤ rankKey third) = true →
      decide (rankKey first ≤ rankKey third) = true := fun h₁ h₂ =>
    decide_eq_true (le_trans (of_decide_eq_true h₁) (of_decide_eq_true h₂))
  have htotal (left right : String × Float) :
      (decide (rankKey left ≤ rankKey right) || decide (rankKey right ≤ rankKey left)) = true := by
    simpa using le_total (rankKey left) (rankKey right)
  have hsorted := List.pairwise_mergeSort htrans htotal scores.totals
  rw [List.map_id, List.map_id] at hsort
  rw [ranked, hsort]
  exact hsorted.imp of_decide_eq_true

/-- Sorting the totals gives the ranking. -/
theorem ranks_ranked (h : scores.Numeric) : scores.Ranks scores.ranked where
  nodup := scores.nodup_ranked
  mem_iff := fun _ _ => mem_ranked_iff
  ordered := by
    have hdistinct := List.pairwise_map.mp scores.nodup_ranked
    refine (h.pairwise_rankKey_le.and hdistinct).imp_of_mem ?_
    rintro left right hleft hright ⟨hle, hne⟩
    rw [outranks_iff (h.of_mem_ranked hleft) (h.of_mem_ranked hright)]
    refine lt_of_le_of_ne hle fun heq => hne ?_
    exact congrArg (fun key => (ofLex key).2) heq

theorem leads_iff (h : scores.Numeric) : scores.Leads category total ↔
    (category, total) ∈ scores.ranked ∧
      ∀ entry ∈ scores.ranked, rankKey (category, total) ≤ rankKey entry := by
  have hcompare (hmem : (category, total) ∈ scores.ranked) {entry : String × Float}
      (hentry : entry ∈ scores.ranked) : rankKey (category, total) ≤ rankKey entry ↔
        entry.2 ≤ total ∧ ((entry.2 == total) = true → category ≤ entry.1) :=
    rankKey_le_iff (h.of_mem_ranked hmem) (h.of_mem_ranked hentry)
  constructor
  · intro hleads
    have hmem := mem_ranked_iff.mpr hleads.hasTotal
    refine ⟨hmem, fun entry hentry => (hcompare hmem hentry).mpr ?_⟩
    have hother := mem_ranked_iff.mp hentry
    exact ⟨hleads.greatest _ _ hother, hleads.least _ _ hother⟩
  · rintro ⟨hmem, hfirst⟩
    have hall (other : String) (total' : Float) (hother : scores.HasTotal other total') :=
      (hcompare hmem (mem_ranked_iff.mpr hother)).mp (hfirst _ (mem_ranked_iff.mpr hother))
    exact ⟨mem_ranked_iff.mp hmem, fun other total' hother => (hall other total' hother).1,
      fun other total' hother => (hall other total' hother).2⟩

/-- The first one of the ranking is the leader. -/
theorem leader_eq_some_iff (h : scores.Numeric) :
    scores.leader = some (category, total) ↔ scores.Leads category total := by
  have hsorted := h.pairwise_rankKey_le
  rw [h.leads_iff, leader]
  constructor
  · intro hhead
    obtain ⟨rest, hranked⟩ := List.head?_eq_some_iff.mp hhead
    rw [hranked] at hsorted ⊢
    refine ⟨List.mem_cons_self, fun entry hentry => ?_⟩
    rcases List.mem_cons.mp hentry with rfl | hrest
    · exact le_refl _
    · exact (List.pairwise_cons.mp hsorted).1 entry hrest
  · rintro ⟨hmem, hfirst⟩
    cases hranked : scores.ranked with
    | nil =>
      rw [hranked] at hmem
      cases hmem
    | cons first rest =>
      rw [hranked] at hsorted hmem hfirst
      rcases List.mem_cons.mp hmem with rfl | hrest
      · rfl
      · -- both come first, so they have one key, and the ranking has each key once
        have hkey := le_antisymm (hfirst first List.mem_cons_self)
          ((List.pairwise_cons.mp hsorted).1 _ hrest)
        have hcategory : category = first.1 := congrArg (fun key => (ofLex key).2) hkey
        have hnodup := scores.nodup_ranked
        rw [hranked, List.map_cons, List.nodup_cons] at hnodup
        exact absurd (hcategory ▸ List.mem_map_of_mem hrest) hnodup.1

end Numeric

theorem leader_eq_none_iff : scores.leader = none ↔ ∀ category, scores.get? category = none := by
  rw [leader, List.head?_eq_none_iff, List.eq_nil_iff_forall_not_mem]
  constructor
  · intro hempty category
    cases htally : scores.get? category with
    | none => rfl
    | some tally => exact absurd (mem_ranked_iff.mpr ⟨tally, htally, rfl⟩) (hempty _)
  · rintro hnone ⟨category, total⟩ hmem
    obtain ⟨tally, htally, -⟩ := mem_ranked_iff.mp hmem
    cases (hnone category).symm.trans htally

end

/-- The scores after some contributions were added, each to its category. -/
def ofAdditions (additions : List (String × Contribution)) : Scoreboard :=
  additions.foldl (fun scores addition => scores.add addition.1 addition.2) {}

/-- The contributions that were added to a category, in their order. -/
def addedTo (category : String) (additions : List (String × Contribution)) : List Contribution :=
  (additions.filter fun addition => addition.1 == category).map Prod.snd

section

variable {additions : List (String × Contribution)}

/-- Only what was added to a category makes up its tally. -/
theorem find?_ofAdditions (additions : List (String × Contribution)) (category : String) :
    (ofAdditions additions).categories.find? category = Tally.of? (addedTo category additions) := by
  induction additions using List.reverseRecOn with
  | nil => rfl
  | append_singleton additions last ih =>
    have hadded : addedTo category (additions ++ [last]) =
        addedTo category additions ++ if last.1 = category then [last.2] else [] := by
      by_cases hlast : last.1 = category <;> simp [addedTo, hlast]
    have hstep : ofAdditions (additions ++ [last]) =
        (ofAdditions additions).add last.1 last.2 := by
      rw [ofAdditions, List.foldl_append]
      rfl
    rw [hstep, add, Dict.find?_insert, hadded]
    by_cases hlast : category = last.1
    · rw [if_pos hlast, if_pos hlast.symm, ← hlast, ih, Tally.of?_concat]
    · rw [if_neg hlast, if_neg (Ne.symm hlast), ih, List.append_nil]

theorem diagnostics_ofAdditions (additions : List (String × Contribution)) :
    (ofAdditions additions).diagnostics = [] := by
  induction additions using List.reverseRecOn with
  | nil => rfl
  | append_singleton additions last ih => rwa [ofAdditions, List.foldl_append]

/-- In which order contributions to different categories were added does not matter. -/
theorem ofAdditions_congr {additions' : List (String × Contribution)}
    (h : ∀ category, addedTo category additions' = addedTo category additions) :
    ofAdditions additions' = ofAdditions additions := by
  have hcategories : (ofAdditions additions').categories = (ofAdditions additions).categories :=
    Dict.ext fun category => by rw [find?_ofAdditions, find?_ofAdditions, h]
  have hdiagnostics :
      (ofAdditions additions').diagnostics = (ofAdditions additions).diagnostics := by
    rw [diagnostics_ofAdditions, diagnostics_ofAdditions]
  calc ofAdditions additions'
      = ⟨(ofAdditions additions').categories, (ofAdditions additions').diagnostics⟩ := rfl
    _ = ofAdditions additions := by rw [hcategories, hdiagnostics]

theorem leader_ofAdditions_eq_none_iff :
    (ofAdditions additions).leader = none ↔ additions = [] := by
  rw [leader_eq_none_iff]
  constructor
  · intro hnone
    cases additions with
    | nil => rfl
    | cons first rest =>
      have hfirst := hnone first.1
      rw [get?, find?_ofAdditions] at hfirst
      simp [addedTo, Tally.of?] at hfirst
  · rintro rfl category
    rfl

end

/-- A category has been added to, its tally is made up of what was added to it, in that order, and
    its total is the sum from the left, starting at zero.  As long as the totals are numbers, they
    are ranked, and the leader is the least key among those with the greatest total; there is none
    just when nothing was added.  The order of additions to different categories does not matter. -/
theorem ranking_of_additions (additions : List (String × Contribution)) :
    (∀ category tally, (ofAdditions additions).get? category = some tally →
      tally.contributions ≠ [] ∧ tally.contributions = addedTo category additions ∧
      tally.total = (tally.contributions.map Contribution.amount).foldl (· + ·) 0) ∧
    (∀ category, addedTo category additions ≠ [] →
      ∃ tally, (ofAdditions additions).get? category = some tally) ∧
    ((ofAdditions additions).Numeric →
      (ofAdditions additions).Ranks (ofAdditions additions).ranked ∧
      ∀ category total, (ofAdditions additions).leader = some (category, total) ↔
        (ofAdditions additions).Leads category total) ∧
    ((ofAdditions additions).leader = none ↔ additions = []) ∧
    ∀ additions', (∀ category, addedTo category additions' = addedTo category additions) →
      ofAdditions additions' = ofAdditions additions ∧
      (ofAdditions additions').ranked = (ofAdditions additions).ranked ∧
      (ofAdditions additions').leader = (ofAdditions additions).leader := by
  refine ⟨fun category tally htally => ?_, fun category hadded => ?_,
    fun hnumeric => ⟨hnumeric.ranks_ranked, fun category total => hnumeric.leader_eq_some_iff⟩,
    leader_ofAdditions_eq_none_iff, fun additions' hsame => ?_⟩
  · rw [get?, find?_ofAdditions, Tally.of?_eq_some_iff] at htally
    obtain ⟨hadded, rfl⟩ := htally
    exact ⟨hadded, rfl, rfl⟩
  · refine ⟨Tally.ofContributions (addedTo category additions), ?_⟩
    rw [get?, find?_ofAdditions, Tally.of?_eq_some_iff]
    exact ⟨hadded, rfl⟩
  · rw [ofAdditions_congr hsame]
    exact ⟨rfl, rfl, rfl⟩

/-- Additions that give two categories equal totals. -/
def tyingAdditions : List (String × Contribution) :=
  [("b", ⟨"r1", 2, ""⟩), ("a", ⟨"r1", 1.5, ""⟩), ("c", ⟨"r2", 7, ""⟩), ("a", ⟨"r3", 0.5, ""⟩)]

/-- The same, with those to different categories in another order. -/
def reorderedAdditions : List (String × Contribution) :=
  [("a", ⟨"r1", 1.5, ""⟩), ("a", ⟨"r3", 0.5, ""⟩), ("c", ⟨"r2", 7, ""⟩), ("b", ⟨"r1", 2, ""⟩)]

theorem ranking_tyingAdditions :
    (ofAdditions tyingAdditions).Numeric ∧
    (ofAdditions tyingAdditions).Ranks [("c", 7), ("a", 2), ("b", 2)] ∧
    (ofAdditions tyingAdditions).Leads "c" 7 ∧
    (∀ category, addedTo category reorderedAdditions = addedTo category tyingAdditions) ∧
    (ofAdditions reorderedAdditions).ranked = [("c", 7), ("a", 2), ("b", 2)] := by
  have htotals : (ofAdditions tyingAdditions).totals = [("a", 2), ("b", 2), ("c", 7)] := by
    decide +kernel
  have hranked : (ofAdditions tyingAdditions).ranked = [("c", 7), ("a", 2), ("b", 2)] := by
    have htie : ranksBefore ("a", 2) ("b", 2) = true := by decide +kernel
    have hless : ranksBefore ("a", 2) ("c", 7) = false := by decide +kernel
    rw [ranked, htotals]
    simp [List.mergeSort, htie, hless]
  have hnumeric : (ofAdditions tyingAdditions).Numeric := by
    intro category total htotal
    rw [← mem_totals_iff, htotals] at htotal
    simp only [List.mem_cons, Prod.mk.injEq, List.not_mem_nil, or_false] at htotal
    rcases htotal with ⟨-, rfl⟩ | ⟨-, rfl⟩ | ⟨-, rfl⟩ <;> decide
  have hsame (category : String) :
      addedTo category reorderedAdditions = addedTo category tyingAdditions := by
    rcases eq_or_ne "a" category with rfl | ha
    · rfl
    rcases eq_or_ne "b" category with rfl | hb
    · rfl
    rcases eq_or_ne "c" category with rfl | hc
    · rfl
    simp [addedTo, reorderedAdditions, tyingAdditions, ha, hb, hc]
  obtain ⟨-, -, hranking, -, hreordered⟩ := ranking_of_additions tyingAdditions
  obtain ⟨hranks, hleads⟩ := hranking hnumeric
  have hleader : (ofAdditions tyingAdditions).leader = some ("c", 7) := by
    rw [leader, hranked]
    rfl
  refine ⟨hnumeric, hranked ▸ hranks, (hleads "c" 7).mp hleader, hsame, ?_⟩
  rw [(hreordered reorderedAdditions hsame).2.1, hranked]

end Scoreboard

end FactScore
