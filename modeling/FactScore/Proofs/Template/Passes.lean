import FactScore.Template

/-!
# Filling templates in passes

A template can be filled in two passes: the first one knows some names, and the second one fills
what the first one left.  If no text that the first pass puts in has an opening brace, this is
filling it once with all the names known (`Template.fill_fill`).  A text is taken apart from the
left for this (`Template.textInduction`): a pass copies a plain character, fills a placeholder or
copies the rest, and goes on with what follows.
-/

namespace FactScore

namespace Template

variable {cs name rest : List Char}

/-- A text is cut at the first closing brace, which is dropped. -/
theorem untilClosed_eq_some_iff :
    untilClosed cs = some (name, rest) ↔ cs = name ++ '}' :: rest ∧ '}' ∉ name := by
  induction cs generalizing name with
  | nil => simp [untilClosed]
  | cons c cs ih =>
    by_cases hc : c = '}'
    · subst hc
      cases name with
      | nil => simp [untilClosed, eq_comm]
      | cons d name => simp +contextual [untilClosed, eq_comm]
    · rw [untilClosed.eq_3 c cs hc, Option.map_eq_some_iff]
      constructor
      · rintro ⟨⟨name', rest'⟩, hcut, hpair⟩
        cases hpair
        obtain ⟨rfl, hname⟩ := ih.mp hcut
        simp [hname, Ne.symm hc]
      · rintro ⟨heq, hname⟩
        cases name with
        | nil => exact absurd (List.cons.inj heq).1 hc
        | cons d name =>
          obtain ⟨rfl, rfl⟩ := List.cons.inj heq
          exact ⟨(name, rest), ih.mpr ⟨rfl, fun h => hname (List.mem_cons_of_mem _ h)⟩, rfl⟩

theorem untilClosed_eq_none_iff : untilClosed cs = none ↔ '}' ∉ cs := by
  induction cs with
  | nil => simp [untilClosed]
  | cons c cs ih =>
    by_cases hc : c = '}'
    · simp [hc, untilClosed]
    · rw [untilClosed.eq_3 c cs hc, Option.map_eq_none_iff, ih]
      simp [Ne.symm hc]

/-- An opening brace that is never closed takes the rest of the text. -/
theorem pieces_unclosed (h : '}' ∉ rest) : pieces ('{' :: rest) = [.unclosed rest] := by
  rw [pieces]
  split
  next hcut =>
    rw [untilClosed_eq_none_iff.mpr h] at hcut
    cases hcut
  next => rfl

/-- A name that is closed is a placeholder, and what follows it is cut on its own. -/
theorem pieces_placeholder (rest : List Char) (h : '}' ∉ name) :
    pieces ('{' :: (name ++ '}' :: rest)) = .placeholder name :: pieces rest := by
  have hcut : untilClosed (name ++ '}' :: rest) = some (name, rest) :=
    untilClosed_eq_some_iff.mpr ⟨rfl, h⟩
  rw [pieces]
  split
  next heq =>
    cases hcut.symm.trans heq
    rfl
  next heq => cases hcut.symm.trans heq

/-- The characters of a filled template. -/
def fillChars (lookup : String → Option String) (cs : List Char) : List Char :=
  (pieces cs).flatMap (Piece.fill lookup)

@[simp] theorem toList_fill (lookup : String → Option String) (template : String) :
    (fill lookup template).toList = fillChars lookup template.toList :=
  String.toList_ofList

@[simp] theorem fillChars_nil (lookup : String → Option String) : fillChars lookup [] = [] := by
  simp [fillChars, pieces]

/-- An opening brace that is never closed ends the template, and the rest stays as it is. -/
theorem fillChars_unclosed (lookup : String → Option String) (h : '}' ∉ rest) :
    fillChars lookup ('{' :: rest) = '{' :: rest := by
  rw [fillChars, pieces_unclosed h, List.flatMap_singleton, Piece.fill]

/-- A placeholder is filled, and what follows it is filled on its own. -/
theorem fillChars_placeholder (lookup : String → Option String) (rest : List Char)
    (h : '}' ∉ name) :
    fillChars lookup ('{' :: (name ++ '}' :: rest)) =
      (Piece.placeholder name).fill lookup ++ fillChars lookup rest := by
  rw [fillChars, pieces_placeholder rest h, List.flatMap_cons, fillChars]

/-- The characters up to the first opening brace stay as they are. -/
theorem fillChars_eq (lookup : String → Option String) (cs : List Char) :
    fillChars lookup cs =
      cs.takeWhile (· != '{') ++ fillChars lookup (cs.dropWhile (· != '{')) := by
  cases cs with
  | nil => rfl
  | cons c cs =>
    by_cases hc : c = '{'
    · simp [hc]
    · unfold fillChars
      rw [pieces.eq_3 c cs hc]
      simp [hc, Piece.fill]

theorem fillChars_cons (lookup : String → Option String) {c : Char} (hc : c ≠ '{')
    (cs : List Char) : fillChars lookup (c :: cs) = c :: fillChars lookup cs := by
  rw [fillChars_eq lookup (c :: cs), fillChars_eq lookup cs]
  simp [hc]

/-- Text without an opening brace stays as it is, whatever follows it. -/
theorem fillChars_append (lookup : String → Option String) {literal : List Char}
    (h : '{' ∉ literal) (cs : List Char) :
    fillChars lookup (literal ++ cs) = literal ++ fillChars lookup cs := by
  induction literal with
  | nil => rfl
  | cons c literal ih =>
    obtain ⟨hc, hrest⟩ := List.ne_and_not_mem_of_not_mem_cons h
    rw [List.cons_append, fillChars_cons lookup (Ne.symm hc), ih hrest, List.cons_append]

/-- Every text ends, or starts with a plain character, with a placeholder, or with an opening
    brace that is never closed. -/
theorem textInduction {motive : List Char → Prop} (nil : motive [])
    (plain : ∀ c cs, c ≠ '{' → motive cs → motive (c :: cs))
    (placeholder : ∀ name rest, '}' ∉ name → motive rest → motive ('{' :: (name ++ '}' :: rest)))
    (unclosed : ∀ rest, '}' ∉ rest → motive ('{' :: rest)) (cs : List Char) : motive cs := by
  match cs with
  | [] => exact nil
  | c :: cs =>
    by_cases hc : c = '{'
    · subst hc
      cases hcut : untilClosed cs with
      | none => exact unclosed cs (untilClosed_eq_none_iff.mp hcut)
      | some cut =>
        have hlength := length_of_untilClosed hcut
        obtain ⟨rfl, hname⟩ := untilClosed_eq_some_iff.mp hcut
        exact placeholder cut.1 cut.2 hname
          (textInduction nil plain placeholder unclosed cut.2)
    · exact plain c cs hc (textInduction nil plain placeholder unclosed cs)
termination_by cs.length

/-- What a first pass puts in or leaves, a second pass finds as it was. -/
theorem fillChars_fillChars {first second : String → Option String}
    (hfirst : ∀ name text, first name = some text → '{' ∉ text.toList) (cs : List Char) :
    fillChars second (fillChars first cs) =
      fillChars (fun name => (first name).or (second name)) cs := by
  induction cs using textInduction with
  | nil => simp
  | plain c cs hc ih => rw [fillChars_cons _ hc, fillChars_cons _ hc, fillChars_cons _ hc, ih]
  | unclosed rest hrest =>
    rw [fillChars_unclosed _ hrest, fillChars_unclosed _ hrest, fillChars_unclosed _ hrest]
  | placeholder name rest hname ih =>
    rw [fillChars_placeholder _ _ hname, fillChars_placeholder _ _ hname]
    cases hknown : first (String.ofList name) with
    | some text =>
      have hplain := hfirst _ _ hknown
      simp only [Piece.fill, hknown, Option.some_or]
      rw [fillChars_append _ hplain, ih]
    | none =>
      -- the placeholder is copied with its braces, so the second pass finds it again
      simp only [Piece.fill, hknown, Option.none_or]
      rw [List.append_assoc, List.cons_append, List.singleton_append,
        fillChars_placeholder _ _ hname, ih, Piece.fill]

theorem fill_fill {first second : String → Option String}
    (hfirst : ∀ name text, first name = some text → '{' ∉ text.toList) (template : String) :
    fill second (fill first template) =
      fill (fun name => (first name).or (second name)) template := by
  rw [← String.toList_inj]
  simp only [toList_fill]
  exact fillChars_fillChars hfirst template.toList

/-- With no name known, a template stays as it is. -/
theorem fill_unknown (template : String) : fill (fun _ => none) template = template := by
  rw [← String.toList_inj, toList_fill]
  induction template.toList using textInduction with
  | nil => simp
  | plain c cs hc ih => rw [fillChars_cons _ hc, ih]
  | unclosed rest hrest => rw [fillChars_unclosed _ hrest]
  | placeholder name rest hname ih =>
    rw [fillChars_placeholder _ _ hname, ih, Piece.fill]
    simp

end Template

end FactScore
