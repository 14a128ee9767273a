import Mathlib
import SourceChunks.Proofs.Declaration.Parameters
import SourceChunks.Proofs.Text.SingleSpaced

/-!
# Parameter lists in normal form

A list is cut at its commas outside brackets.  Every piece begins outside brackets, whatever
closes without an opening one, and every piece but the last one also ends there.  White space
neither cuts nor nests, so pieces that are written on one line, and joined again without the
blank ones among them, are cut in the same places as before.

* `depthThrough`: the nesting depth behind a text that is not cut.
* `ArePieces`, `piecesOf_eq_iff`: the pieces of a list are the ones that it is joined from.
* `parametersOf_intercalate`: a list in normal form is split into the same parameters.
* `withoutCuts`: a list without the commas that cut it.
* `splitParameters_normal`: what splitting a list keeps, and what it gives.
* `visible_join_iff`: when joining gives back all of a list.
-/

namespace SourceChunks

/-! ## Depth -/

/-- The nesting depth behind a text; none if a comma outside brackets stands in it. -/
def depthThrough : (depth : Nat) → List Char → Option Nat
  | depth, [] => some depth
  | depth, c :: rest =>
      if c = ',' && depth = 0 then none else depthThrough (depthBehind depth c) rest

@[simp] theorem depthThrough_cons (depth : Nat) (c : Char) (rest : List Char) :
    depthThrough depth (c :: rest) =
      if c = ',' && depth = 0 then none else depthThrough (depthBehind depth c) rest :=
  rfl

/-- White space neither cuts nor nests. -/
@[simp] theorem depthThrough_visible (depth : Nat) (s : List Char) :
    depthThrough depth (Text.visible s) = depthThrough depth s := by
  induction s generalizing depth with
  | nil => rfl
  | cons c s ih =>
      by_cases hc : Text.isBlank c = true
      · have hmem := notMem_separators_of_isBlank hc
        rw [Text.visible_cons_of_isBlank hc, depthThrough_cons, depthBehind_of_notMem depth hmem,
          if_neg (by simp [ne_comma_of_notMem hmem]), ih]
      · rw [Text.visible_cons (Bool.eq_false_iff.mpr hc), depthThrough_cons, depthThrough_cons, ih]

theorem depthThrough_congr {s t : List Char} (h : Text.visible s = Text.visible t) (depth : Nat) :
    depthThrough depth s = depthThrough depth t := by
  rw [← depthThrough_visible, h, depthThrough_visible]

/-- A text is not cut, or it is cut for the first time at some comma. -/
theorem depthThrough_cases (depth : Nat) (s : List Char) :
    (∃ depth', depthThrough depth s = some depth') ∨
      ∃ front behind, s = front ++ ',' :: behind ∧ depthThrough depth front = some 0 := by
  induction s generalizing depth with
  | nil => exact .inl ⟨depth, rfl⟩
  | cons c s ih =>
      by_cases hcut : (c = ',' && depth = 0) = true
      · obtain ⟨rfl, rfl⟩ : c = ',' ∧ depth = 0 := by simpa using hcut
        exact .inr ⟨[], s, rfl, rfl⟩
      · rcases ih (depthBehind depth c) with ⟨depth', h⟩ | ⟨front, behind, rfl, h⟩
        · exact .inl ⟨depth', by rw [depthThrough_cons, if_neg hcut, h]⟩
        · exact .inr ⟨c :: front, behind, rfl, by rw [depthThrough_cons, if_neg hcut, h]⟩

/-! ## Pieces -/

/-- The pieces of a text between its commas outside brackets. -/
def piecesOf (text : List Char) : List (List Char) :=
  piecesFrom 0 [] text

theorem piecesFrom_of_depthThrough {depth depth' : Nat} {s : List Char}
    (h : depthThrough depth s = some depth') (piece : List Char) :
    piecesFrom depth piece s = [piece.reverse ++ s] := by
  induction s generalizing depth piece with
  | nil => rw [piecesFrom, List.append_nil]
  | cons c s ih =>
      rw [depthThrough_cons] at h
      rw [piecesFrom]
      split_ifs at h ⊢
      rw [ih h, List.reverse_cons, List.append_assoc, List.singleton_append]

theorem piecesFrom_of_cut {depth : Nat} {front : List Char}
    (h : depthThrough depth front = some 0) (piece behind : List Char) :
    piecesFrom depth piece (front ++ ',' :: behind) =
      (piece.reverse ++ front) :: piecesOf behind := by
  induction front generalizing depth piece with
  | nil =>
      obtain rfl := Option.some.inj h
      rw [List.nil_append, piecesFrom, if_pos (by simp), List.append_nil]
      rfl
  | cons c front ih =>
      rw [depthThrough_cons] at h
      rw [List.cons_append, piecesFrom]
      split_ifs at h ⊢
      rw [ih h, List.reverse_cons, List.append_assoc, List.singleton_append]

/-- Texts that can be the pieces of a list: each of them is not cut, and all but the last one
end outside brackets. -/
inductive ArePieces : List (List Char) → Prop
  | last {piece : List Char} {depth : Nat} (hpiece : depthThrough 0 piece = some depth) :
      ArePieces [piece]
  | next {piece : List Char} {pieces : List (List Char)} (hpiece : depthThrough 0 piece = some 0)
      (hmore : ArePieces pieces) : ArePieces (piece :: pieces)

namespace ArePieces

variable {pieces : List (List Char)}

theorem ne_nil (h : ArePieces pieces) : pieces ≠ [] := by
  cases h <;> exact List.cons_ne_nil _ _

/-- White space around and in pieces does not matter. -/
theorem congr {pieces' : List (List Char)} (h : ArePieces pieces)
    (hvisible : pieces'.map Text.visible = pieces.map Text.visible) : ArePieces pieces' := by
  induction h generalizing pieces' with
  | last hpiece =>
      obtain ⟨piece', rfl, hsame⟩ := List.map_eq_singleton_iff.mp hvisible
      exact .last ((depthThrough_congr hsame 0).trans hpiece)
  | next hpiece _ ih =>
      obtain ⟨piece', more', rfl, hsame, hmore⟩ := List.map_eq_cons_iff.mp hvisible
      exact .next ((depthThrough_congr hsame 0).trans hpiece) (ih hmore)

/-- Some of the pieces of a list are the pieces of another one. -/
theorem filter (h : ArePieces pieces) (keeps : List Char → Bool) :
    pieces.filter keeps = [] ∨ ArePieces (pieces.filter keeps) := by
  induction h with
  | @last piece _ hpiece =>
      rw [List.filter_cons, List.filter_nil]
      split_ifs
      · exact .inr (.last hpiece)
      · exact .inl rfl
  | @next piece pieces hpiece _ ih =>
      rw [List.filter_cons]
      split_ifs
      · rcases ih with hnil | hpieces
        · exact .inr (hnil ▸ .last hpiece)
        · exact .inr (.next hpiece hpieces)
      · exact ih

end ArePieces

/-- What is joined from pieces is cut into these pieces. -/
theorem piecesOf_intercalate {pieces : List (List Char)} (h : ArePieces pieces) :
    piecesOf (List.intercalate [','] pieces) = pieces := by
  induction h with
  | last hpiece =>
      rw [List.intercalate_singleton, piecesOf, piecesFrom_of_depthThrough hpiece]
      rfl
  | @next piece pieces hpiece hmore ih =>
      obtain ⟨piece', pieces, rfl⟩ := List.exists_cons_of_ne_nil hmore.ne_nil
      rw [List.intercalate_cons_cons, List.append_assoc, List.singleton_append, piecesOf,
        piecesFrom_of_cut hpiece, ih]
      rfl

/-- Every text is joined from its pieces. -/
theorem arePieces_piecesOf (text : List Char) :
    ArePieces (piecesOf text) ∧ List.intercalate [','] (piecesOf text) = text := by
  induction hlength : text.length using Nat.strongRecOn generalizing text with
  | ind n ih =>
      rcases depthThrough_cases 0 text with ⟨depth, h⟩ | ⟨front, behind, rfl, h⟩
      · rw [piecesOf, piecesFrom_of_depthThrough h]
        exact ⟨.last h, List.intercalate_singleton⟩
      · obtain ⟨hpieces, hjoined⟩ := ih behind.length (by simp at hlength; omega) behind rfl
        have hcut : piecesOf (front ++ ',' :: behind) = front :: piecesOf behind :=
          piecesFrom_of_cut h [] behind
        rw [hcut]
        refine ⟨.next h hpieces, ?_⟩
        obtain ⟨piece, pieces, hcons⟩ := List.exists_cons_of_ne_nil hpieces.ne_nil
        rw [hcons] at hjoined ⊢
        rw [List.intercalate_cons_cons, hjoined, List.append_assoc, List.singleton_append]

/-- The pieces of a text are the texts that can be pieces and that it is joined from. -/
theorem piecesOf_eq_iff {text : List Char} {pieces : List (List Char)} :
    piecesOf text = pieces ↔ ArePieces pieces ∧ List.intercalate [','] pieces = text := by
  constructor
  · rintro rfl
    exact arePieces_piecesOf text
  · rintro ⟨hpieces, rfl⟩
    exact piecesOf_intercalate hpieces

/-! ## Parameters -/

/-- The parameters of a list: its pieces, each on one line, without the blank ones. -/
def parametersOf (list : List Char) : List (List Char) :=
  ((piecesOf list).filter (!Text.allBlank ·)).map Text.collapse

theorem splitParameters_eq_map (raw : String) :
    splitParameters raw = (parametersOf raw.toList).map String.ofList := by
  rw [parametersOf, List.map_map]
  rfl

theorem toList_intercalate_splitParameters (raw : String) :
    (", ".intercalate (splitParameters raw)).toList =
      List.intercalate [',', ' '] (parametersOf raw.toList) := by
  rw [String.toList_intercalate, splitParameters_eq_map, List.map_map]
  simp [Function.comp_def]

theorem allBlank_congr {s t : List Char} (h : Text.visible s = Text.visible t) :
    Text.allBlank s = Text.allBlank t := by
  rw [Bool.eq_iff_iff, ← Text.visible_eq_nil_iff, ← Text.visible_eq_nil_iff, h]

/-- A list that is joined from pieces that are not blank has them as its parameters, on one line
each. -/
theorem parametersOf_eq_map {pieces : List (List Char)} (hpieces : ArePieces pieces)
    (hblank : ∀ piece ∈ pieces, Text.allBlank piece = false) :
    parametersOf (List.intercalate [','] pieces) = pieces.map Text.collapse := by
  have hkept : pieces.filter (!Text.allBlank ·) = pieces :=
    List.filter_eq_self.mpr fun piece hpiece => by rw [hblank piece hpiece]; rfl
  rw [parametersOf, piecesOf_intercalate hpieces, hkept]

/-- A space behind a comma begins the next piece. -/
theorem intercalate_comma_space (first : List Char) (rest : List (List Char)) :
    List.intercalate [',', ' '] (first :: rest) =
      List.intercalate [','] (first :: rest.map (' ' :: ·)) := by
  induction rest generalizing first with
  | nil => rfl
  | cons second rest ih =>
      rw [List.map_cons, List.intercalate_cons_cons, List.intercalate_cons_cons, ih]
      cases rest with
      | nil => simp
      | cons third rest => simp [List.intercalate_cons_cons]

@[simp] theorem collapse_cons_space (s : List Char) :
    Text.collapse (' ' :: s) = Text.collapse s := by
  have hgap : ∀ x ∈ [' '], Text.isBlank x = true := by simp [Text.isBlank_space]
  have hwords : Text.words (' ' :: s) = Text.words s := Text.words_blanks_append hgap s
  rw [Text.collapse, Text.collapse, hwords]

/-- Pieces that are not blank, on one line each and joined again, are split into the same
parameters. -/
theorem parametersOf_join {first : List Char} {rest : List (List Char)}
    (hpieces : ArePieces (first :: rest))
    (hblank : ∀ piece ∈ first :: rest, Text.allBlank piece = false) :
    parametersOf (List.intercalate [',', ' '] ((first :: rest).map Text.collapse)) =
      (first :: rest).map Text.collapse := by
  rw [List.map_cons, intercalate_comma_space, List.map_map]
  have hvisible : (Text.collapse first :: rest.map ((' ' :: ·) ∘ Text.collapse)).map Text.visible =
      (first :: rest).map Text.visible := by
    simp [Function.comp_def, Text.visible_collapse, Text.visible_cons_of_isBlank Text.isBlank_space]
  have hblank' : ∀ piece ∈ Text.collapse first :: rest.map ((' ' :: ·) ∘ Text.collapse),
      Text.allBlank piece = false := by
    intro piece hpiece
    have hmem := List.mem_map_of_mem (f := Text.visible) hpiece
    rw [hvisible] at hmem
    obtain ⟨piece', hpiece', hsame⟩ := List.mem_map.mp hmem
    rw [← allBlank_congr hsame]
    exact hblank piece' hpiece'
  rw [parametersOf_eq_map (hpieces.congr hvisible) hblank']
  simp [Function.comp_def, collapse_cons_space, Text.collapse_collapse]

/-- The parameters of a list, joined again, are the parameters of what they are joined to. -/
@[simp] theorem parametersOf_intercalate (list : List Char) :
    parametersOf (List.intercalate [',', ' '] (parametersOf list)) = parametersOf list := by
  rcases (arePieces_piecesOf list).1.filter (!Text.allBlank ·) with hnil | hpieces
  · have hnone : parametersOf list = [] := by
      rw [parametersOf, hnil, List.map_nil]
    rw [hnone]
    rfl
  · have hkept : ∀ piece ∈ (piecesOf list).filter (!Text.allBlank ·),
        Text.allBlank piece = false := by
      intro piece hpiece
      simpa using (List.mem_filter.mp hpiece).2
    obtain ⟨first, rest, hcons⟩ := List.exists_cons_of_ne_nil hpieces.ne_nil
    rw [hcons] at hpieces hkept
    have hparameters : parametersOf list = (first :: rest).map Text.collapse := by
      rw [parametersOf, hcons]
    rw [hparameters, parametersOf_join hpieces hkept]

/-- Every parameter is on one line. -/
theorem singleSpaced_of_mem_parametersOf {list parameter : List Char}
    (h : parameter ∈ parametersOf list) : Text.SingleSpaced parameter := by
  obtain ⟨piece, hpiece, rfl⟩ := List.mem_map.mp h
  exact Text.singleSpaced_collapse (by simpa using (List.mem_filter.mp hpiece).2)

/-! ## What is kept -/

/-- A text without its commas outside brackets, where `depth` brackets are open. -/
def withoutCuts : (depth : Nat) → List Char → List Char
  | _, [] => []
  | depth, c :: rest =>
      if c = ',' && depth = 0 then withoutCuts 0 rest
      else c :: withoutCuts (depthBehind depth c) rest

/-- Cutting a text leaves out the commas at which it is cut. -/
theorem flatten_piecesFrom (depth : Nat) (piece s : List Char) :
    (piecesFrom depth piece s).flatten = piece.reverse ++ withoutCuts depth s := by
  induction s generalizing depth piece with
  | nil => simp [piecesFrom, withoutCuts]
  | cons c s ih =>
      rw [piecesFrom, withoutCuts]
      split_ifs
      · rw [List.flatten_cons, ih, List.reverse_nil, List.nil_append]
      · rw [ih, List.reverse_cons, List.append_assoc, List.singleton_append]

/-- Blank pieces have nothing to lose. -/
theorem visible_flatten_filter (pieces : List (List Char)) :
    Text.visible (pieces.filter (!Text.allBlank ·)).flatten = Text.visible pieces.flatten := by
  induction pieces with
  | nil => rfl
  | cons piece pieces ih =>
      rw [List.filter_cons]
      split_ifs with hpiece
      · rw [List.flatten_cons, List.flatten_cons, Text.visible_append, ih, Text.visible_append]
      · have hblank : Text.visible piece = [] :=
          Text.visible_eq_nil_iff.mpr (by simpa using hpiece)
        rw [ih, List.flatten_cons, Text.visible_append, hblank, List.nil_append]

/-- The parameters of a list hold all of it but white space and the commas that cut it. -/
theorem visible_parametersOf (list : List Char) :
    Text.visible (parametersOf list).flatten = Text.visible (withoutCuts 0 list) := by
  have hcollapse : ∀ pieces : List (List Char),
      Text.visible (pieces.map Text.collapse).flatten = Text.visible pieces.flatten := by
    intro pieces
    simp only [Text.visible_flatten, List.map_map, Function.comp_def, Text.visible_collapse]
  rw [parametersOf, hcollapse, visible_flatten_filter, piecesOf, flatten_piecesFrom]
  rfl

/-- Splitting a list of parameters gives a normal form of it: joined again, with a space behind
each comma, the parameters are split in the same way.  Each of them is on one line, and together
they hold all of the list but white space and its commas outside brackets. -/
theorem splitParameters_normal (raw : String) :
    splitParameters (", ".intercalate (splitParameters raw)) = splitParameters raw ∧
      (∀ parameter ∈ splitParameters raw, Text.SingleSpaced parameter.toList) ∧
      Text.visible (String.join (splitParameters raw)).toList =
        Text.visible (withoutCuts 0 raw.toList) := by
  refine ⟨?_, fun parameter hparameter => ?_, ?_⟩
  · rw [splitParameters_eq_map, toList_intercalate_splitParameters, parametersOf_intercalate,
      ← splitParameters_eq_map]
  · rw [splitParameters_eq_map] at hparameter
    obtain ⟨piece, hpiece, rfl⟩ := List.mem_map.mp hparameter
    rw [String.toList_ofList]
    exact singleSpaced_of_mem_parametersOf hpiece
  · rw [String.toList_join, splitParameters_eq_map, List.flatMap_map]
    simp only [String.toList_ofList, List.flatMap_id', visible_parametersOf]

/-- What closes nothing does not nest, and what is never closed nests to the end. -/
example : splitParameters "a  => b , ,c( d, e" = ["a => b", "c( d, e"] := by decide

/-! ## What joining gives back -/

theorem length_intercalate_comma (first : List Char) (rest : List (List Char)) :
    (List.intercalate [','] (first :: rest)).length =
      (first :: rest).flatten.length + rest.length := by
  induction rest generalizing first with
  | nil => simp
  | cons second rest ih =>
      rw [List.intercalate_cons_cons, List.length_append, List.length_append, ih]
      simp only [List.flatten_cons, List.length_append, List.length_cons, List.length_nil]
      omega

/-- Rows of texts that are joined with commas lose a comma for each empty one that is left out,
unless there is only one text. -/
theorem intercalate_filter_iff {rows : List (List Char)} (hne : rows ≠ []) :
    List.intercalate [','] (rows.filter (!·.isEmpty)) = List.intercalate [','] rows ↔
      rows = [[]] ∨ ∀ row ∈ rows, row ≠ [] := by
  constructor
  · intro h
    obtain ⟨first, rest, rfl⟩ := List.exists_cons_of_ne_nil hne
    have hlength := congrArg List.length h
    have hflatten : ((first :: rest).filter (!·.isEmpty)).flatten = (first :: rest).flatten :=
      List.flatten_filter_not_isEmpty
    rw [length_intercalate_comma] at hlength
    cases hkept : (first :: rest).filter (!·.isEmpty) with
    | nil =>
        -- Nothing is left, so there was no comma to lose.
        rw [hkept] at hlength hflatten
        obtain rfl : rest = [] := List.eq_nil_of_length_eq_zero (by simp at hlength; omega)
        left
        simpa using hflatten.symm
    | cons first' rest' =>
        right
        rw [hkept, length_intercalate_comma, ← hkept, hflatten] at hlength
        have hall : ((first :: rest).filter (!·.isEmpty)).length = (first :: rest).length := by
          rw [hkept, List.length_cons, List.length_cons]
          omega
        intro row hrow
        have hkeeps := List.length_filter_eq_length_iff.mp hall row hrow
        simpa using hkeeps
  · rintro (rfl | hall)
    · rfl
    · rw [List.filter_eq_self.mpr fun row hrow => by simpa using hall row hrow]

theorem map_visible_piecesOf_eq (list : List Char) :
    (piecesOf list).map Text.visible = [[]] ↔ Text.allBlank list = true := by
  obtain ⟨hpieces, hjoined⟩ := arePieces_piecesOf list
  rw [← Text.visible_eq_nil_iff]
  nth_rewrite 2 [← hjoined]
  rw [Text.visible_intercalate, show Text.visible [','] = [','] by decide]
  constructor
  · intro h
    rw [h]
    rfl
  · intro h
    obtain ⟨first, rest, hcons⟩ := List.exists_cons_of_ne_nil hpieces.ne_nil
    rw [hcons, List.map_cons] at h ⊢
    have hlength := congrArg List.length h
    rw [length_intercalate_comma, List.length_nil, List.length_map] at hlength
    obtain rfl : rest = [] := List.eq_nil_of_length_eq_zero (by omega)
    rw [List.map_nil, List.intercalate_singleton] at h
    rw [h]
    rfl

/-- The parameters of a list, joined again, are all of the list but white space, exactly if it
is blank or no piece of it is. -/
theorem visible_join_iff (list : List Char) :
    Text.visible (List.intercalate [',', ' '] (parametersOf list)) = Text.visible list ↔
      Text.allBlank list = true ∨ ∀ piece ∈ piecesOf list, Text.allBlank piece = false := by
  obtain ⟨hpieces, hjoined⟩ := arePieces_piecesOf list
  have hkept : (parametersOf list).map Text.visible =
      ((piecesOf list).map Text.visible).filter (!·.isEmpty) := by
    rw [parametersOf, List.map_map, List.filter_map]
    have hkeeps : ∀ piece : List Char, (!(Text.visible piece).isEmpty) = !Text.allBlank piece := by
      intro piece
      apply congrArg (!·)
      rw [Bool.eq_iff_iff, List.isEmpty_iff, Text.visible_eq_nil_iff]
    simp only [Function.comp_def, Text.visible_collapse, hkeeps]
  have hmap : (piecesOf list).map Text.visible ≠ [] := by simpa using hpieces.ne_nil
  have htext : Text.visible list = List.intercalate [','] ((piecesOf list).map Text.visible) := by
    nth_rewrite 1 [← hjoined]
    rw [Text.visible_intercalate]
    rfl
  have hseparator : Text.visible [',', ' '] = [','] := by decide
  rw [htext, Text.visible_intercalate, hseparator, hkept, intercalate_filter_iff hmap,
    map_visible_piecesOf_eq]
  refine or_congr_right ?_
  rw [List.forall_mem_map]
  refine forall₂_congr fun piece _ => ?_
  rw [Ne, Text.visible_eq_nil_iff, Bool.not_eq_true]

end SourceChunks
