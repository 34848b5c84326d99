import FactScore.Dict.Lemmas

/-!
# Counting

Quantities that shrink while a search goes on: how many elements of a list still have a property,
and how many are not yet among the keys of a dictionary.
-/

namespace FactScore

variable {α β : Type}

/-- Fewer elements have a property when it gets stronger and some element loses it. -/
theorem countP_lt_countP {p q : α → Bool} {xs : List α} (himp : ∀ x ∈ xs, p x → q x)
    (hlost : ∃ x ∈ xs, q x ∧ ¬ p x) : xs.countP p < xs.countP q := by
  induction xs with
  | nil =>
    obtain ⟨x, hx, _⟩ := hlost
    cases hx
  | cons y ys ih =>
    have hle : ys.countP p ≤ ys.countP q :=
      List.countP_mono_left fun x hx => himp x (List.mem_cons_of_mem y hx)
    have hy := himp y List.mem_cons_self
    rw [List.countP_cons, List.countP_cons]
    obtain ⟨x, hx, hq, hp⟩ := hlost
    rcases List.mem_cons.mp hx with rfl | hx
    · rw [if_pos hq, if_neg hp]
      omega
    · have hlt := ih (fun x hx => himp x (List.mem_cons_of_mem y hx)) ⟨x, hx, hq, hp⟩
      by_cases hpy : p y
      · rw [if_pos hpy, if_pos (hy hpy)]
        omega
      · rw [if_neg hpy]
        omega

namespace Dict

/-- How many of some keys are not in a dictionary. -/
def missing (dict : Dict α) (keys : List String) : Nat :=
  keys.countP fun key => !dict.contains key

/-- Fewer keys are missing once one of them has been put in. -/
theorem missing_insert_lt {dict : Dict α} {keys : List String} {key : String} (value : α)
    (hkey : key ∈ keys) (habsent : dict.contains key = false) :
    (dict.insert key value).missing keys < dict.missing keys := by
  refine countP_lt_countP (fun other _ h => ?_) ⟨key, hkey, ?_, ?_⟩
  · rw [contains_insert] at h
    revert h
    cases other == key <;> simp
  · simp [habsent]
  · simp [contains_insert]

end Dict

end FactScore
