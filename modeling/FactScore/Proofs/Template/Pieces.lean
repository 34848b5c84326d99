import FactScore.Proofs.Template.Passes
import Mathlib.Data.List.Chain
import Mathlib.Data.List.TakeWhile

/-!
# Templates in pieces

A template can be cut into pieces in just one way (`Template.pieces_eq_iff`): literals that are as
long as they can be, placeholders that go up to the first closing brace, and at most one unclosed
piece, at the end.  Filling goes through these pieces one by one.  Where none of them is unclosed,
what is put after a template is filled on its own (`Template.Closed.fill_append`), and the text that
a placeholder stands for is not looked at again (`Template.Closed.fill_placeholder_append`).
-/

namespace FactScore

namespace Template

namespace Piece

/-- A piece as it is written in a template. -/
def text : Piece → List Char
  | literal cs => cs
  | placeholder name => '{' :: name ++ ['}']
  | unclosed cs => '{' :: cs

/-- A literal has characters, but no opening brace.  Neither a name nor what is never closed has a
    closing one. -/
def WellFormed : Piece → Prop
  | literal cs => cs ≠ [] ∧ '{' ∉ cs
  | placeholder name => '}' ∉ name
  | unclosed cs => '}' ∉ cs

/-- One piece can come right before another.  Two literals would be one, and an unclosed piece is
    the last. -/
def CanPrecede : Piece → Piece → Prop
  | literal _, literal _ => False
  | unclosed _, _ => False
  | _, _ => True

variable {piece : Piece}

/-- What can come after a literal starts with an opening brace. -/
theorem head?_text {cs : List Char} (h : (literal cs).CanPrecede piece) :
    piece.text.head? = some '{' := by
  cases piece with
  | literal => exact h.elim
  | placeholder name => rfl
  | unclosed cs => rfl

end Piece

/-- Some pieces make up a text, and they are the ones that the braces of the text call for. -/
structure Splits (cs : List Char) (ps : List Piece) : Prop where
  wellFormed : ∀ piece ∈ ps, piece.WellFormed
  ordered : ps.IsChain Piece.CanPrecede
  text_eq : ps.flatMap Piece.text = cs

variable {cs literal rest : List Char} {piece : Piece} {ps : List Piece}

/-- Plain characters up to an opening brace, or up to the end, are one literal. -/
theorem pieces_literal (hne : literal ≠ []) (hplain : '{' ∉ literal)
    (hrest : ∀ c ∈ rest.head?, c = '{') :
    pieces (literal ++ rest) = .literal literal :: pieces rest := by
  have htake : rest.takeWhile (· != '{') = [] ∧ rest.dropWhile (· != '{') = rest := by
    cases rest with
    | nil => exact ⟨rfl, rfl⟩
    | cons d rest => simp [hrest d rfl]
  cases literal with
  | nil => exact absurd rfl hne
  | cons c cs =>
    obtain ⟨hc, hcs⟩ := List.ne_and_not_mem_of_not_mem_cons hplain
    have hall : ∀ d ∈ cs, (d != '{') = true := fun d hd => by
      rw [bne_iff_ne]
      exact fun heq => hcs (heq ▸ hd)
    rw [List.cons_append, pieces.eq_3 c _ (Ne.symm hc), List.takeWhile_append_of_pos hall,
      List.dropWhile_append_of_pos hall, htake.1, htake.2, List.append_nil]

namespace Splits

theorem nil : Splits [] [] where
  wellFormed := by simp
  ordered := List.isChain_nil
  text_eq := rfl

/-- A piece goes in front of pieces that it can precede. -/
theorem cons (h : Splits cs ps) (hpiece : piece.WellFormed)
    (hfirst : ∀ next ∈ ps.head?, piece.CanPrecede next) :
    Splits (piece.text ++ cs) (piece :: ps) where
  wellFormed := List.forall_mem_cons.mpr ⟨hpiece, h.wellFormed⟩
  ordered := List.isChain_cons.mpr ⟨hfirst, h.ordered⟩
  text_eq := by rw [List.flatMap_cons, h.text_eq]

theorem tail (h : Splits cs (piece :: ps)) : Splits (ps.flatMap Piece.text) ps where
  wellFormed := (List.forall_mem_cons.mp h.wellFormed).2
  ordered := h.ordered.of_cons
  text_eq := rfl

/-- After a literal the text ends or goes on with an opening brace. -/
theorem head?_rest (h : Splits cs (.literal literal :: ps)) :
    ∀ c ∈ (ps.flatMap Piece.text).head?, c = '{' := by
  cases ps with
  | nil => simp
  | cons next ps =>
    have hnext := Piece.head?_text ((List.isChain_cons_cons.mp h.ordered).1)
    intro c hc
    rw [List.flatMap_cons, List.head?_append, hnext, Option.some_or] at hc
    exact (Option.some.inj hc).symm

/-- Nothing comes after an unclosed piece. -/
theorem eq_nil_of_unclosed (h : Splits cs (.unclosed rest :: ps)) : ps = [] := by
  cases ps with
  | nil => rfl
  | cons next ps => exact ((List.isChain_cons_cons.mp h.ordered).1).elim

/-- A text that does not go on with plain characters does not go on with a literal. -/
theorem canPrecede_of_literal (h : Splits cs ps) (hcs : ∀ c ∈ cs.head?, c = '{') :
    ∀ next ∈ ps.head?, (Piece.literal literal).CanPrecede next := by
  cases ps with
  | nil => simp
  | cons first ps =>
    rintro next ⟨⟩
    cases first with
    | literal cs' =>
      obtain ⟨hne, hplain⟩ := h.wellFormed _ List.mem_cons_self
      obtain ⟨c, rest, rfl⟩ := List.exists_cons_of_ne_nil hne
      have hc : c = '{' := hcs c (by rw [← h.text_eq]; rfl)
      exact absurd (hc ▸ List.mem_cons_self) hplain
    | placeholder name => trivial
    | unclosed cs' => trivial

end Splits

/-- Cutting a text splits it. -/
theorem splits_pieces (cs : List Char) : Splits cs (pieces cs) := by
  induction cs using pieces.induct with
  | case1 =>
    rw [pieces]
    exact .nil
  | case2 rest name rest' hcut ih =>
    obtain ⟨rfl, hname⟩ := untilClosed_eq_some_iff.mp hcut
    rw [pieces_placeholder rest' hname]
    have hpiece : (Piece.placeholder name).WellFormed := hname
    have hsplits := ih.cons hpiece fun next _ => by cases next <;> trivial
    simpa [Piece.text] using hsplits
  | case3 rest hcut =>
    have hopen := untilClosed_eq_none_iff.mp hcut
    rw [pieces_unclosed hopen]
    exact ⟨by simpa [Piece.WellFormed] using hopen, List.isChain_singleton _, by simp [Piece.text]⟩
  | case4 c rest hc ih =>
    rw [pieces.eq_3 c rest hc]
    have hplain : '{' ∉ c :: rest.takeWhile (· != '{') := by
      rw [List.mem_cons, not_or]
      exact ⟨Ne.symm hc, fun hmem => by simpa using List.mem_takeWhile_imp hmem⟩
    have hrest : ∀ d ∈ (rest.dropWhile (· != '{')).head?, d = '{' := by
      intro d hd
      have hstop := List.head?_dropWhile_not (· != '{') rest
      rw [hd] at hstop
      simpa using hstop
    have hpiece : (Piece.literal (c :: rest.takeWhile (· != '{'))).WellFormed :=
      ⟨List.cons_ne_nil _ _, hplain⟩
    have hsplits := ih.cons hpiece (ih.canPrecede_of_literal hrest)
    rwa [Piece.text, List.cons_append, List.takeWhile_append_dropWhile] at hsplits

/-- Whatever splits a text is what cutting it gives. -/
theorem Splits.pieces_eq (h : Splits cs ps) : pieces cs = ps := by
  induction ps generalizing cs with
  | nil =>
    obtain rfl : [] = cs := h.text_eq
    rw [pieces]
  | cons piece ps ih =>
    have htail := ih h.tail
    have hpiece := h.wellFormed piece List.mem_cons_self
    rw [← h.text_eq, List.flatMap_cons]
    cases piece with
    | literal literal => rw [Piece.text, pieces_literal hpiece.1 hpiece.2 h.head?_rest, htail]
    | placeholder name =>
      rw [Piece.text, List.append_assoc, List.cons_append, List.singleton_append,
        pieces_placeholder _ hpiece, htail]
    | unclosed rest =>
      obtain rfl := h.eq_nil_of_unclosed
      rw [Piece.text, List.flatMap_nil, List.append_nil, pieces_unclosed hpiece]

theorem pieces_eq_iff : pieces cs = ps ↔ Splits cs ps :=
  ⟨fun h => h ▸ splits_pieces cs, Splits.pieces_eq⟩

/-- A template that has no unclosed piece. -/
def Closed (template : String) : Prop :=
  ∀ ps, Splits template.toList ps → ∀ cs, .unclosed cs ∉ ps

/-- Pieces that are closed are filled one by one, and what follows them is filled on its own. -/
theorem fillChars_flatMap_text_append (lookup : String → Option String)
    (hwell : ∀ piece ∈ ps, piece.WellFormed) (hclosed : ∀ cs, .unclosed cs ∉ ps)
    (rest : List Char) :
    fillChars lookup (ps.flatMap Piece.text ++ rest) =
      ps.flatMap (Piece.fill lookup) ++ fillChars lookup rest := by
  induction ps with
  | nil => rfl
  | cons piece ps ih =>
    obtain ⟨hpiece, hps⟩ := List.forall_mem_cons.mp hwell
    have hrest := ih hps fun cs hcs => hclosed cs (List.mem_cons_of_mem piece hcs)
    rw [List.flatMap_cons, List.flatMap_cons, List.append_assoc, List.append_assoc, ← hrest]
    cases piece with
    | literal cs => exact fillChars_append lookup hpiece.2 _
    | placeholder name =>
      rw [Piece.text, List.append_assoc, List.cons_append, List.singleton_append]
      exact fillChars_placeholder lookup _ hpiece
    | unclosed cs => exact absurd List.mem_cons_self (hclosed cs)

namespace Closed

variable {template : String} {lookup : String → Option String}

theorem fillChars_append (h : Closed template) (lookup : String → Option String)
    (rest : List Char) :
    fillChars lookup (template.toList ++ rest) =
      fillChars lookup template.toList ++ fillChars lookup rest := by
  have hsplits := splits_pieces template.toList
  have hfill := fillChars_flatMap_text_append lookup hsplits.wellFormed (h _ hsplits) rest
  rwa [hsplits.text_eq] at hfill

/-- Nothing that is put after a closed template changes what comes of it. -/
theorem fill_append (h : Closed template) (lookup : String → Option String) (rest : String) :
    fill lookup (template ++ rest) = fill lookup template ++ fill lookup rest := by
  rw [← String.toList_inj]
  simp only [String.toList_append, toList_fill]
  exact h.fillChars_append lookup rest.toList

/-- The text that a placeholder stands for is put in as it is, braces and all. -/
theorem fill_placeholder_append (h : Closed template) {name value : String}
    (hname : '}' ∉ name.toList) (hvalue : lookup name = some value) (rest : String) :
    fill lookup (template ++ "\x7b" ++ name ++ "\x7d" ++ rest) =
      fill lookup template ++ value ++ fill lookup rest := by
  have hfill : fillChars lookup ('{' :: (name.toList ++ '}' :: rest.toList)) =
      value.toList ++ fillChars lookup rest.toList := by
    rw [fillChars_placeholder lookup _ hname, Piece.fill, String.ofList_toList, hvalue]
  have happend := h.fillChars_append lookup ('{' :: (name.toList ++ '}' :: rest.toList))
  rw [← String.toList_inj]
  simp only [String.toList_append, toList_fill, List.append_assoc]
  rw [← hfill, ← happend]
  rfl

end Closed

/-- A template is split in just one way.  Filling it puts the pieces together again, a text in place
    of each placeholder that is known, and with no name known nothing changes.  What comes after a
    template without an unclosed piece is filled on its own, and a text that a placeholder between
    the two stands for comes out as it is, whatever braces it has. -/
theorem fill_piece_by_piece (template : String) :
    (∃! ps, Splits template.toList ps) ∧
    (∀ ps, Splits template.toList ps → ∀ lookup,
      fill lookup template = String.ofList (ps.flatMap (Piece.fill lookup))) ∧
    fill (fun _ => none) template = template ∧
    (Closed template → ∀ lookup rest,
      fill lookup (template ++ rest) = fill lookup template ++ fill lookup rest ∧
      ∀ name value, '}' ∉ name.toList → lookup name = some value →
        fill lookup (template ++ "\x7b" ++ name ++ "\x7d" ++ rest) =
          fill lookup template ++ value ++ fill lookup rest) := by
  refine ⟨⟨pieces template.toList, splits_pieces _, fun ps h => h.pieces_eq.symm⟩,
    fun ps h lookup => ?_, fill_unknown template, fun hclosed lookup rest =>
      ⟨hclosed.fill_append lookup rest, fun name value hname hvalue =>
        hclosed.fill_placeholder_append hname hvalue rest⟩⟩
  rw [fill, h.pieces_eq]

/-- A name with a brace in it and, for `x`, a text that looks like a placeholder. -/
def bracedNames : String → Option String
  | "a\x7bb" => some "1"
  | "x" => some "\x7by\x7d"
  | "y" => some "2"
  | _ => none

theorem fill_bracedNames :
    Closed "\x7ba\x7bb\x7d is " ∧
    fill bracedNames ("\x7ba\x7bb\x7d is " ++ "\x7b" ++ "x" ++ "\x7d" ++ "\x7d, \x7by") =
      "1 is " ++ "\x7by\x7d" ++ "\x7d, \x7by" := by
  have hpieces : pieces "\x7ba\x7bb\x7d is ".toList =
      [.placeholder "a\x7bb".toList, .literal " is ".toList] := by
    cbv
  have hclosed : Closed "\x7ba\x7bb\x7d is " := by
    intro ps hps cs
    rw [← hps.pieces_eq, hpieces]
    simp
  obtain ⟨-, -, -, happend⟩ := fill_piece_by_piece "\x7ba\x7bb\x7d is "
  obtain ⟨-, hplaceholder⟩ := happend hclosed bracedNames "\x7d, \x7by"
  have hfirst : fill bracedNames "\x7ba\x7bb\x7d is " = "1 is " := by
    cbv
  have hrest : fill bracedNames "\x7d, \x7by" = "\x7d, \x7by" := by
    cbv
  refine ⟨hclosed, ?_⟩
  rw [hplaceholder "x" "\x7by\x7d" (by decide) rfl, hfirst, hrest]

end Template

end FactScore
