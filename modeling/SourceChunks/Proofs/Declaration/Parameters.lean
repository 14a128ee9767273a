import Mathlib
import SourceChunks.Proofs.Chunk.Ownership
import SourceChunks.Proofs.Declaration.Listing
import SourceChunks.Proofs.Declaration.Overlap

/-!
# Parameters and the mask

The parentheses of a parameter list are found in the mask of a text, but the list between them
is cut at the commas of the text itself.  So a comma in a default value cuts a parameter in two,
a bracket in one keeps two parameters together, and a comment behind the last comma counts as a
parameter.  The parameters are those that the mask tells exactly if none of this happens.

* `Span.masked`: a stretch of a text together with its mask.
* `parametersBy`: the parameters of a list that is cut at the commas that one side shows.
* `Reads`: a stretch and its mask come from a scan.
* `parametersBy_eq_iff`: when text and mask tell the same parameters.
* `parameters_of_callable`: the parameters of the chunks of a function or resource.
-/

namespace SourceChunks

/-! ## Text and mask side by side -/

/-- A character of a text, and what the mask shows in its place. -/
structure Masked where
  char : Char
  shown : Char
  deriving Repr, DecidableEq

/-- A stretch of a text together with its mask. -/
def Span.masked (span : Span) (text : List Char) : List Masked :=
  List.zipWith Masked.mk (span.slice text) (span.slice (mask text))

@[simp] theorem Span.length_slice_mask (span : Span) (text : List Char) :
    (span.slice (mask text)).length = (span.slice text).length := by
  simp [slice]

@[simp] theorem Span.map_char_masked (span : Span) (text : List Char) :
    (span.masked text).map Masked.char = span.slice text :=
  List.ext_getElem (by simp [masked, length_slice_mask]) (by simp [masked])

@[simp] theorem Span.map_shown_masked (span : Span) (text : List Char) :
    (span.masked text).map Masked.shown = span.slice (mask text) :=
  List.ext_getElem (by simp [masked, length_slice_mask]) (by simp [masked])

/-! ## Pieces -/

section

variable {side side' : Masked → Char} {list front behind : List Masked} {comma : Masked}

/-- The parameters of a list that is cut at the commas of one side: the text of each piece that
is not blank on that side. -/
def parametersBy (side : Masked → Char) (list : List Masked) : List String :=
  ((piecesBy side list).filter fun piece => !Text.allBlank (piece.map side)).map fun piece =>
    String.ofList (Text.collapse (piece.map Masked.char))

/-- A list is split at the commas of its text. -/
theorem splitParameters_eq (list : List Masked) :
    splitParameters (String.ofList (list.map Masked.char)) = parametersBy Masked.char list := by
  rw [splitParameters, String.toList_ofList, ← map_piecesBy, List.filter_map, List.map_map]
  rfl

theorem piecesByFrom_cases (side : Masked → Char) (depth : Nat) (piece list : List Masked) :
    piecesByFrom side depth piece list = [piece.reverse ++ list] ∨
      ∃ front comma behind, list = front ++ comma :: behind ∧ side comma = ',' ∧
        piecesByFrom side depth piece list = (piece.reverse ++ front) :: piecesBy side behind := by
  induction list generalizing depth piece with
  | nil => exact .inl (by rw [piecesByFrom, List.append_nil])
  | cons m rest ih =>
      rw [piecesByFrom]
      split_ifs with hcut
      · have hm : side m = ',' := by
          rw [Bool.and_eq_true, decide_eq_true_eq] at hcut
          exact hcut.1
        exact .inr ⟨[], m, rest, rfl, hm, by rw [List.append_nil]; rfl⟩
      · rcases ih (depthBehind depth (side m)) (m :: piece) with
          h | ⟨front, comma, behind, hrest, hcomma, h⟩
        · exact .inl (by rw [h]; simp)
        · exact .inr ⟨m :: front, comma, behind, by rw [hrest, List.cons_append], hcomma, by
            rw [h]; simp⟩

/-- A list is one piece, or the first one stands before a comma. -/
theorem piecesBy_cases (side : Masked → Char) (list : List Masked) :
    piecesBy side list = [list] ∨
      ∃ front comma behind, list = front ++ comma :: behind ∧ side comma = ',' ∧
        piecesBy side list = front :: piecesBy side behind :=
  piecesByFrom_cases side 0 [] list

/-- The characters that cut a list or nest it. -/
def separators : List Char :=
  [',', '(', ')', '[', ']', '{', '}', '<', '>']

theorem depthBehind_of_notMem (depth : Nat) {c : Char} (hc : c ∉ separators) :
    depthBehind depth c = depth := by
  simp only [separators, List.mem_cons, not_or] at hc
  simp [depthBehind, hc]

theorem notMem_separators_of_isBlank {c : Char} (hc : Text.isBlank c = true) : c ∉ separators := by
  intro hmem
  have hall : separators.all (!Text.isBlank ·) = true := by decide
  have hnot := List.all_eq_true.mp hall c hmem
  rw [hc] at hnot
  contradiction

theorem ne_comma_of_notMem {c : Char} (hc : c ∉ separators) : c ≠ ',' :=
  ne_of_mem_of_not_mem (by decide : ',' ∈ separators) hc |>.symm

/-- If one side differs from the other one in no comma and no bracket, it cuts a list in the
same places. -/
theorem piecesBy_congr
    (h : ∀ m ∈ list, side m ≠ side' m → side m ∉ separators ∧ side' m ∉ separators) :
    piecesBy side list = piecesBy side' list := by
  have hfrom : ∀ depth piece, piecesByFrom side depth piece list =
      piecesByFrom side' depth piece list := by
    induction list with
    | nil => exact fun _ _ => rfl
    | cons m rest ih =>
        intro depth piece
        have ih := ih fun m hm => h m (List.mem_cons_of_mem _ hm)
        rw [piecesByFrom, piecesByFrom, ih, ih]
        by_cases hsame : side m = side' m
        · rw [hsame]
        · obtain ⟨hside, hside'⟩ := h m List.mem_cons_self hsame
          rw [depthBehind_of_notMem depth hside, depthBehind_of_notMem depth hside',
            if_neg (by simp [ne_comma_of_notMem hside]),
            if_neg (by simp [ne_comma_of_notMem hside'])]
  exact hfrom 0 []

/-- Behind white space, a comma cuts. -/
theorem piecesBy_of_blank (hfront : Text.allBlank (front.map side) = true)
    (hcomma : side comma = ',') (behind : List Masked) :
    piecesBy side (front ++ comma :: behind) = front :: piecesBy side behind := by
  have hcut : ∀ piece, piecesByFrom side 0 piece (front ++ comma :: behind) =
      (piece.reverse ++ front) :: piecesBy side behind := by
    induction front with
    | nil =>
        intro piece
        rw [List.nil_append, piecesByFrom, hcomma, List.append_nil]
        rfl
    | cons m front ih =>
        intro piece
        obtain ⟨hm, hfront⟩ :
            Text.isBlank (side m) = true ∧ Text.allBlank (front.map side) = true := by
          simpa [Text.allBlank] using hfront
        have hm := notMem_separators_of_isBlank hm
        rw [List.cons_append, piecesByFrom, if_neg (by simp [ne_comma_of_notMem hm]),
          depthBehind_of_notMem 0 hm, ih hfront, List.reverse_cons, List.append_assoc]
        rfl
  exact hcut []

/-- What is neither white space nor a comma in a text. -/
def content (s : List Char) : List Char :=
  (s.filter (!Text.isBlank ·)).filter (· ≠ ',')

@[simp] theorem content_append (s t : List Char) : content (s ++ t) = content s ++ content t := by
  simp [content]

@[simp] theorem content_collapse (s : List Char) : content (Text.collapse s) = content s := by
  rw [content, Text.filter_collapse, content]

theorem content_of_allBlank {s : List Char} (h : Text.allBlank s = true) : content s = [] := by
  have hnone : s.filter (!Text.isBlank ·) = [] := by
    simpa [Text.allBlank] using h
  rw [content, hnone, List.filter_nil]

/-- Cutting a list at commas leaves the rest of it. -/
theorem content_piecesBy (side : Masked → Char) (list : List Masked)
    (hcommas : ∀ m ∈ list, side m = ',' → m.char = ',') :
    ((piecesBy side list).flatMap fun piece => content (piece.map Masked.char)) =
      content (list.map Masked.char) := by
  induction hlength : list.length using Nat.strongRecOn generalizing list with
  | ind n ih =>
      rcases piecesBy_cases side list with h | ⟨front, comma, behind, rfl, hcomma, h⟩
      · rw [h, List.flatMap_singleton]
      · have hchar : comma.char = ',' := hcommas comma (by simp) hcomma
        have hbehind := ih behind.length (by simp at hlength; omega) behind
          (fun m hm => hcommas m (by simp [hm])) rfl
        rw [h, List.flatMap_cons, hbehind, List.map_append, List.map_cons, content_append, hchar]
        rfl

theorem content_parametersBy (side : Masked → Char) (list : List Masked) :
    ((parametersBy side list).flatMap fun parameter => content parameter.toList) =
      ((piecesBy side list).filter fun piece => !Text.allBlank (piece.map side)).flatMap
        fun piece => content (piece.map Masked.char) := by
  rw [parametersBy, List.flatMap_map]
  simp only [String.toList_ofList, content_collapse]

/-- Blank pieces have nothing to tell. -/
theorem content_filter (pieces : List (List Masked)) :
    ((pieces.filter fun piece => !Text.allBlank (piece.map Masked.char)).flatMap
        fun piece => content (piece.map Masked.char)) =
      pieces.flatMap fun piece => content (piece.map Masked.char) := by
  induction pieces with
  | nil => rfl
  | cons piece pieces ih =>
      rw [List.filter_cons, List.flatMap_cons, ← ih]
      by_cases hblank : Text.allBlank (piece.map Masked.char) = true
      · simp [hblank, content_of_allBlank hblank]
      · simp [hblank]

/-- A list that loses nothing to a filter has nothing in what is dropped. -/
theorem eq_nil_of_flatMap_filter {α β : Type} {f : α → List β} {keeps : α → Bool} {items : List α}
    (h : (items.filter keeps).flatMap f = items.flatMap f) {x : α} (hx : x ∈ items)
    (hdropped : keeps x = false) : f x = [] := by
  induction items with
  | nil => contradiction
  | cons y items ih =>
      rw [List.filter_cons, List.flatMap_cons] at h
      have hle : ((items.filter keeps).flatMap f).length ≤ (items.flatMap f).length :=
        (List.filter_sublist.flatMap f).length_le
      split_ifs at h with hy
      · rw [List.flatMap_cons] at h
        rcases List.mem_cons.mp hx with rfl | hx
        · rw [hy] at hdropped
          contradiction
        · exact ih (List.append_cancel_left h) hx
      · have hlengths := congrArg List.length h
        rw [List.length_append] at hlengths
        have hnil : f y = [] := List.eq_nil_of_length_eq_zero (by omega)
        rcases List.mem_cons.mp hx with rfl | hx
        · exact hnil
        · rw [hnil, List.nil_append] at h
          exact ih h hx

end

/-! ## Stretches of a mask -/

/-- A stretch and its mask come from a scan that is in a mode where the stretch begins. -/
inductive Reads : MaskMode → List Masked → Prop
  | nil {mode : MaskMode} : Reads mode []
  | cons {mode : MaskMode} {c : Char} {behind : List Char} {more : List Masked}
      (hmore : Reads (mode.next c behind) more) :
      Reads mode (⟨c, if mode.blanks c behind then ' ' else c⟩ :: more)

namespace Reads

variable {mode : MaskMode} {list front behind : List Masked} {m : Masked} {fresh : Bool}

theorem of_maskFrom (mode : MaskMode) (text : List Char) (n : Nat) :
    Reads mode ((List.zipWith Masked.mk text (maskFrom mode text)).take n) := by
  induction text generalizing mode n with
  | nil =>
      rw [List.zipWith_nil_left, List.take_nil]
      exact .nil
  | cons c rest ih =>
      cases n with
      | zero => exact .nil
      | succ n =>
          rw [maskFrom, List.zipWith_cons_cons, List.take_succ_cons]
          exact .cons (ih _ n)

theorem of_cons (h : Reads mode (m :: list)) :
    ∃ behind, (if mode.blanks m.char behind then ' ' else m.char) = m.shown ∧
      Reads (mode.next m.char behind) list := by
  cases h with
  | @cons _ c behind _ hmore => exact ⟨behind, rfl, hmore⟩

/-- What is not blanked is shown. -/
theorem shown_eq (h : Reads mode list) (hm : m ∈ list) : m.shown = m.char ∨ m.shown = ' ' := by
  induction list generalizing mode with
  | nil => contradiction
  | cons x list ih =>
      obtain ⟨rest, hshown, hmore⟩ := h.of_cons
      rcases List.mem_cons.mp hm with rfl | hm
      · split_ifs at hshown
        · exact .inr hshown.symm
        · exact .inl hshown.symm
      · exact ih hmore hm

/-- A comma that the mask shows stands in the text. -/
theorem char_of_shown (h : Reads mode list) (hm : m ∈ list) (hcomma : m.shown = ',') :
    m.char = ',' := by
  rcases h.shown_eq hm with heq | heq
  · rw [← heq, hcomma]
  · rw [heq] at hcomma
    exact absurd hcomma (by decide)

/-- What is blank in a text is blank in its mask. -/
theorem allBlank_shown (h : Reads mode (front ++ behind))
    (hfront : Text.allBlank (front.map Masked.char) = true) :
    Text.allBlank (front.map Masked.shown) = true := by
  simp only [Text.allBlank, List.all_map, List.all_eq_true] at hfront ⊢
  intro m hm
  rcases h.shown_eq (List.mem_append_left behind hm) with heq | heq
  · rw [Function.comp_apply, heq]
    exact hfront m hm
  · rw [Function.comp_apply, heq]
    exact Text.isBlank_space

theorem of_append (h : Reads mode (front ++ behind)) : Reads mode front := by
  induction front generalizing mode with
  | nil => exact .nil
  | cons m front ih =>
      rw [List.cons_append] at h
      cases h with
      | cons hmore => exact .cons (ih hmore)

/-- Behind a comma that the mask shows, there is program text. -/
theorem behind_comma (h : Reads mode (front ++ m :: behind)) (hm : m.shown = ',') :
    ∃ fresh, Reads (.code fresh) behind := by
  induction front generalizing mode with
  | nil =>
      obtain ⟨rest, hshown, hmore⟩ := h.of_cons
      rw [hm] at hshown
      split_ifs at hshown with hblanks
      · exact absurd hshown (by decide)
      · rw [hshown] at hblanks hmore
        obtain ⟨fresh, hnext⟩ := MaskMode.next_of_shown (Bool.eq_false_iff.mpr hblanks)
          (by decide) (by decide) (by decide)
        exact ⟨fresh, hnext ▸ hmore⟩
  | cons x front ih =>
      obtain ⟨rest, -, hmore⟩ := h.of_cons
      exact ih hmore

/-- A character that opens a comment. -/
theorem opener_of_opensComment {c : Char} {rest : List Char}
    (h : MaskMode.opensComment fresh c rest = true) : c = '/' ∨ c = '#' := by
  simp only [MaskMode.opensComment, Bool.or_eq_true, Bool.and_eq_true, beq_iff_eq] at h
  exact h.imp And.left And.left

/-- White space in program text leads nowhere else. -/
theorem next_of_isBlank {c : Char} (hc : Text.isBlank c = true) (rest : List Char) :
    ∃ fresh', (MaskMode.code fresh).next c rest = .code fresh' := by
  have hne : ∀ d, Text.isBlank d = false → c ≠ d := fun d hd h => by
    rw [h, hd] at hc
    contradiction
  have hopens : ¬ MaskMode.opensComment fresh c rest = true := fun hopens =>
    (opener_of_opensComment hopens).elim (hne '/' rfl) (hne '#' rfl)
  rw [MaskMode.next, if_neg hopens, if_neg (hne '"' rfl), if_neg (hne MaskMode.backtick rfl)]
  exact ⟨_, rfl⟩

/-- Behind white space in program text, a character is shown unless it opens a comment. -/
theorem shown_of_blank (h : Reads (.code fresh) (front ++ m :: behind))
    (hfront : Text.allBlank (front.map Masked.char) = true) :
    m.shown = m.char ∨ m.char = '/' ∨ m.char = '#' := by
  induction front generalizing fresh with
  | nil =>
      obtain ⟨rest, hshown, -⟩ := h.of_cons
      split_ifs at hshown with hblanks
      · exact .inr (opener_of_opensComment hblanks)
      · exact .inl hshown.symm
  | cons x front ih =>
      obtain ⟨hx, hfront⟩ :
          Text.isBlank x.char = true ∧ Text.allBlank (front.map Masked.char) = true := by
        simpa [Text.allBlank] using hfront
      obtain ⟨rest, -, hmore⟩ := h.of_cons
      obtain ⟨fresh', hnext⟩ := next_of_isBlank hx rest
      exact ih (hnext ▸ hmore) hfront

/-- All pieces of a list begin in program text, if the list does. -/
theorem of_mem_piecesBy (h : Reads (.code fresh) list) {piece : List Masked}
    (hpiece : piece ∈ piecesBy Masked.shown list) : ∃ fresh, Reads (.code fresh) piece := by
  induction hlength : list.length using Nat.strongRecOn generalizing list fresh with
  | ind n ih =>
      rcases piecesBy_cases Masked.shown list with hone | ⟨front, comma, behind, rfl, hcomma, hmore⟩
      · rw [hone, List.mem_singleton] at hpiece
        exact ⟨fresh, hpiece ▸ h⟩
      · rw [hmore] at hpiece
        rcases List.mem_cons.mp hpiece with rfl | hpiece
        · exact ⟨fresh, h.of_append⟩
        · obtain ⟨fresh', hbehind⟩ := h.behind_comma hcomma
          exact ih behind.length (by simp at hlength; omega) hbehind hpiece rfl

/-- What the mask blanks in program text is a comment, and what opens it is text. -/
theorem content_of_hidden (h : Reads (.code fresh) list)
    (hhidden : Text.allBlank (list.map Masked.shown) = true)
    (htext : Text.allBlank (list.map Masked.char) = false) :
    content (list.map Masked.char) ≠ [] := by
  -- The first character that is not white space opens the comment.
  obtain ⟨m, hfind⟩ : ∃ m, list.find? (!Text.isBlank ·.char) = some m := by
    rw [← Option.isSome_iff_exists, List.find?_isSome]
    simpa [Text.allBlank] using htext
  obtain ⟨hm, front, behind, rfl, hfront⟩ := List.find?_eq_some_iff_append.mp hfind
  have hfront : Text.allBlank (front.map Masked.char) = true := by
    simpa [Text.allBlank] using hfront
  have hm : Text.isBlank m.char = false := by simpa using hm
  have hblank : Text.isBlank m.shown = true := by
    simp only [Text.allBlank, List.map_append, List.map_cons, List.all_append, List.all_cons,
      Bool.and_eq_true] at hhidden
    exact hhidden.2.1
  have hopener : m.char = '/' ∨ m.char = '#' := by
    rcases h.shown_of_blank hfront with hshown | hopener
    · rw [hshown, hm] at hblank
      contradiction
    · exact hopener
  have hcontent : content [m.char] = [m.char] := by
    rcases hopener with hm | hm
    · rw [hm]; rfl
    · rw [hm]; rfl
  rw [List.map_append, List.map_cons, content_append, ← List.singleton_append, content_append,
    hcontent]
  simp

end Reads

/-! ## When both sides tell the same -/

section

variable {side side' : Masked → Char} {list front behind : List Masked} {comma : Masked}
  {more more' : List (List Masked)} {fresh : Bool}

/-- What pieces tell: the text of those that are not blank. -/
def told (pieces : List (List Masked)) : List (List Char) :=
  (pieces.filter fun piece => !Text.allBlank (piece.map Masked.char)).map fun piece =>
    Text.collapse (piece.map Masked.char)

/-- If one side cuts a list at a comma of its text where the other one goes on, then they tell
different things, unless the other one has to cut there as well. -/
theorem not_longer_of_told (htold : told (piecesBy side list) = told (piecesBy side' list))
    (hlist : list = front ++ comma :: behind) (hside : piecesBy side list = front :: more)
    (hcomma : comma.char = ',')
    (hblank : Text.allBlank (front.map Masked.char) = true →
      Text.allBlank (front.map side') = true ∧ side' comma = ',') (inside : List Masked) :
    piecesBy side' list ≠ (front ++ comma :: inside) :: more' := by
  intro hside'
  by_cases hfront : Text.allBlank (front.map Masked.char) = true
  · obtain ⟨hfront', hcomma'⟩ := hblank hfront
    rw [hlist, piecesBy_of_blank hfront' hcomma' behind] at hside'
    have hlength := congrArg List.length (List.cons.inj hside').1
    simp at hlength
  · have hlonger : ¬ Text.allBlank ((front ++ comma :: inside).map Masked.char) = true := by
      intro h
      simp only [Text.allBlank, List.map_append, List.all_append, Bool.and_eq_true] at h
      exact hfront h.1
    rw [hside', hside, told, told, List.filter_cons_of_pos (by simp [hfront]),
      List.filter_cons_of_pos (by simp only [hlonger]; rfl), List.map_cons, List.map_cons] at htold
    have hwords := congrArg (·.filter (!Text.isBlank ·)) (List.cons.inj htold).1
    simp only [Text.filter_collapse, List.map_append, List.map_cons, List.filter_append,
      hcomma] at hwords
    have hnil := List.self_eq_append_right.mp hwords
    rw [List.filter_cons_of_pos (by decide)] at hnil
    contradiction

/-- Pieces that tell the same behind a first one that they share. -/
theorem told_tail {first : List Masked} (h : told (first :: more) = told (first :: more')) :
    told more = told more' := by
  rw [told, told, List.filter_cons, List.filter_cons] at h
  split_ifs at h
  · exact (List.cons.inj h).2
  · exact h

/-- The two sides cut a list first in the same place if they tell the same. -/
theorem front_eq_of_told {front' behind' : List Masked} {comma' : Masked}
    (htold : told (piecesBy side list) = told (piecesBy side' list))
    (hlist : list = front ++ comma :: behind) (hlist' : list = front' ++ comma' :: behind')
    (hcut : piecesBy side list = front :: more) (hcut' : piecesBy side' list = front' :: more')
    (hcomma : comma.char = ',') (hcomma' : comma'.char = ',')
    (hblank : Text.allBlank (front.map Masked.char) = true →
      Text.allBlank (front.map side') = true ∧ side' comma = ',')
    (hblank' : Text.allBlank (front'.map Masked.char) = true →
      Text.allBlank (front'.map side) = true ∧ side comma' = ',') : front = front' := by
  rcases List.append_eq_append_iff.mp (hlist.symm.trans hlist') with
    ⟨inside, hfront, hinside⟩ | ⟨inside, hfront, hinside⟩
  · cases inside with
    | nil => rw [hfront, List.append_nil]
    | cons m inside =>
        obtain ⟨rfl, -⟩ := List.cons.inj hinside
        rw [hfront] at hcut'
        exact absurd hcut' (not_longer_of_told htold hlist hcut hcomma hblank inside)
  · cases inside with
    | nil => rw [hfront, List.append_nil]
    | cons m inside =>
        obtain ⟨rfl, -⟩ := List.cons.inj hinside
        rw [hfront] at hcut
        exact absurd hcut (not_longer_of_told htold.symm hlist' hcut' hcomma' hblank' inside)

/-- Behind white space, a comma of the text is in the mask. -/
theorem Reads.comma_of_blank (h : Reads (.code fresh) list) (hlist : list = front ++ comma :: behind)
    (hcomma : comma.char = ',') (hfront : Text.allBlank (front.map Masked.char) = true) :
    Text.allBlank (front.map Masked.shown) = true ∧ comma.shown = ',' := by
  subst hlist
  refine ⟨h.allBlank_shown hfront, ?_⟩
  rcases h.shown_of_blank hfront with heq | heq | heq
  · rw [heq, hcomma]
  · rw [heq] at hcomma
    contradiction
  · rw [heq] at hcomma
    contradiction

/-- The two sides cut a list in the same places if they tell the same. -/
theorem piecesBy_eq_of_told (h : Reads (.code fresh) list)
    (htold : told (piecesBy Masked.char list) = told (piecesBy Masked.shown list)) :
    piecesBy Masked.char list = piecesBy Masked.shown list := by
  induction hlength : list.length using Nat.strongRecOn generalizing list fresh with
  | ind n ih =>
      have hshown : ∀ {front comma behind}, list = front ++ comma :: behind →
          comma.shown = ',' → comma.char = ',' :=
        fun hlist => h.char_of_shown (hlist ▸ List.mem_append_right _ List.mem_cons_self)
      rcases piecesBy_cases Masked.char list with hone | ⟨front, comma, behind, hlist, hcomma, hcut⟩
      · rcases piecesBy_cases Masked.shown list with
          hone' | ⟨front', comma', behind', hlist', hcomma', hcut'⟩
        · rw [hone, hone']
        · have hchar := hshown hlist' hcomma'
          exact absurd (hone.trans (by rw [← hlist'])) (not_longer_of_told htold.symm hlist' hcut'
            hchar (fun hfront => ⟨hfront, hchar⟩) behind')
      · rcases piecesBy_cases Masked.shown list with
          hone' | ⟨front', comma', behind', hlist', hcomma', hcut'⟩
        · exact absurd (hone'.trans (by rw [← hlist])) (not_longer_of_told htold hlist hcut hcomma
            (h.comma_of_blank hlist hcomma) behind)
        · have hchar := hshown hlist' hcomma'
          obtain rfl := front_eq_of_told htold hlist hlist' hcut hcut' hcomma hchar
            (h.comma_of_blank hlist hcomma) fun hfront => ⟨hfront, hchar⟩
          obtain ⟨rfl, rfl⟩ := List.cons.inj (List.append_cancel_left (hlist.symm.trans hlist'))
          subst hlist
          obtain ⟨fresh', hbehind⟩ := h.behind_comma hcomma'
          rw [hcut, hcut'] at htold ⊢
          rw [ih behind.length (by simp at hlength; omega) hbehind (told_tail htold) rfl]

/-- No piece that the mask shows blank has a text; it would be a comment. -/
def NoneHidden (list : List Masked) : Prop :=
  ∀ piece ∈ piecesBy Masked.shown list, Text.allBlank (piece.map Masked.shown) = true →
    Text.allBlank (piece.map Masked.char) = true

theorem parametersBy_char (list : List Masked) :
    parametersBy Masked.char list = (told (piecesBy Masked.char list)).map String.ofList := by
  rw [parametersBy, told, List.map_map]
  rfl

theorem parametersBy_shown (h : Reads (.code fresh) list) (hnone : NoneHidden list) :
    parametersBy Masked.shown list = (told (piecesBy Masked.shown list)).map String.ofList := by
  have hsame : ∀ piece ∈ piecesBy Masked.shown list,
      (!Text.allBlank (piece.map Masked.shown)) = !Text.allBlank (piece.map Masked.char) := by
    intro piece hpiece
    obtain ⟨fresh', hreads⟩ := h.of_mem_piecesBy hpiece
    rw [← List.append_nil piece] at hreads
    rw [Bool.eq_iff_iff.mpr ⟨hnone piece hpiece, hreads.allBlank_shown⟩]
  rw [parametersBy, told, List.map_map, List.filter_congr hsame]
  rfl

/-- What a piece hides is missing in what the mask tells. -/
theorem noneHidden_of_eq (h : Reads (.code fresh) list)
    (heq : parametersBy Masked.char list = parametersBy Masked.shown list) : NoneHidden list := by
  have hall : (piecesBy Masked.char list).flatMap (fun piece => content (piece.map Masked.char)) =
      (piecesBy Masked.shown list).flatMap fun piece => content (piece.map Masked.char) := by
    rw [content_piecesBy _ _ fun _ _ hcomma => hcomma,
      content_piecesBy _ _ fun m hm => h.char_of_shown hm]
  have hkept := congrArg (·.flatMap fun parameter : String => content parameter.toList) heq
  simp only [content_parametersBy, content_filter, hall] at hkept
  intro piece hpiece hhidden
  by_contra htext
  obtain ⟨fresh', hreads⟩ := h.of_mem_piecesBy hpiece
  exact hreads.content_of_hidden hhidden (Bool.eq_false_iff.mpr htext)
    (eq_nil_of_flatMap_filter hkept.symm hpiece (by rw [hhidden]; rfl))

/-- Text and mask tell the same parameters exactly if they cut the list in the same places and
none of its pieces is only a comment. -/
theorem parametersBy_eq_iff (h : Reads (.code fresh) list) :
    parametersBy Masked.char list = parametersBy Masked.shown list ↔
      piecesBy Masked.char list = piecesBy Masked.shown list ∧ NoneHidden list := by
  constructor
  · intro heq
    have hnone := noneHidden_of_eq h heq
    rw [parametersBy_char, parametersBy_shown h hnone] at heq
    have htold := List.map_injective_iff.mpr (fun _ _ => String.ofList_inj.mp) heq
    exact ⟨piecesBy_eq_of_told h htold, hnone⟩
  · rintro ⟨hpieces, hnone⟩
    rw [parametersBy_char, parametersBy_shown h hnone, hpieces]

end

/-! ## The parameters of a declaration -/

/-- The parameter list of a function or resource together with its mask. -/
def Callable.list (text : List Char) (callable : Callable Span) : List Masked :=
  callable.parameters.masked text

/-- The header of a function or resource. -/
def Shape.callable? {α : Type} : Shape α → Option (Callable α)
  | .function _ _ callable => some callable
  | .resource _ _ _ callable => some callable
  | _ => none

namespace Locate

variable {text mask : List Char} {d : Declaration Span} {callable : Callable Span}

/-- What has parameters is a function or a resource of a service. -/
theorem mem_of_callable (hd : d ∈ declarations (all mask))
    (hcallable : d.shape.callable? = some callable) :
    d ∈ declarations (functions mask) ∨ ∃ service ∈ declarations (services mask),
      d ∈ declarations (resourcesOf mask (.declared service)) := by
  have hkind : d.kind = .function ∨ d.kind = .resource := by
    rw [Declaration.kind]
    revert hcallable
    cases d.shape <;> simp [Shape.callable?, Shape.kind]
  have hother : ∀ kind, kind ≠ .function → kind ≠ .resource →
      d ∉ declarations (ofKind mask kind) := by
    intro kind hfunction hresource hd
    rw [← kind_of_mem_ofKind hd] at hfunction hresource
    exact hkind.elim hfunction hresource
  simp only [all, declarations_append, declarations_servicesWithResources, List.mem_append,
    List.mem_flatMap, List.mem_cons] at hd
  rcases hd with (((((((hd | hd) | hd) | hd) | hd) | ⟨service, hservice, rfl | hd⟩) | hd) | hd)
  · exact absurd hd (hother .importClause (by decide) (by decide))
  · exact absurd hd (hother .configurable (by decide) (by decide))
  · exact absurd hd (hother .moduleVariable (by decide) (by decide))
  · exact absurd hd (hother .typeDefinition (by decide) (by decide))
  · exact .inl hd
  · exact absurd hservice (hother .service (by decide) (by decide))
  · exact .inr ⟨service, hservice, hd⟩
  · exact absurd hd (hother .classDefinition (by decide) (by decide))
  · exact absurd hd (hother .constant (by decide) (by decide))

/-- The parameters of a function or resource stand behind a parenthesis. -/
theorem opening_of_callable (hd : d ∈ declarations (all mask))
    (hcallable : d.shape.callable? = some callable) :
    0 < callable.parameters.start ∧ mask[callable.parameters.start - 1]? = some '(' := by
  rcases mem_of_callable hd hcallable with hd | ⟨service, hservice, hd⟩
  · obtain ⟨m, hm, -, parts, hparts, rfl⟩ := mem_functions.mp hd
    obtain rfl := Option.some.inj hcallable
    exact opening_of_parts List.prefix_rfl (Pattern.found_of_mem_allMatches hm) hparts
  · obtain ⟨header, front, inside, behind, -, hmask, -, -, heq⟩ := exists_body_of_service hservice
    have hlength : front.length + inside.length ≤ mask.length := by
      rw [hmask, List.length_append, List.length_append]
      omega
    rw [heq] at hd
    obtain ⟨m, hm, -, parts, hparts, -, rfl⟩ := mem_resources.mp hd
    obtain rfl := Option.some.inj hcallable
    exact opening_of_parts (List.take_prefix _ _)
      (Pattern.found_of_mem_matchesIn (Nat.le_add_right _ _) hlength hm) hparts

end Locate

/-- Behind a parenthesis that a mask shows, a stretch is read as program text. -/
theorem reads_of_opening {span : Span} {text : List Char} (hstart : 0 < span.start)
    (hopening : (mask text)[span.start - 1]? = some '(') :
    ∃ fresh, Reads (.code fresh) (span.masked text) := by
  obtain ⟨hlt, hat⟩ := List.getElem?_eq_some_iff.mp hopening
  have hmask : maskFrom (.code true) text =
      (mask text).take (span.start - 1) ++ '(' :: (mask text).drop span.start := by
    have hsplit := List.take_append_drop (span.start - 1) (mask text)
    rw [List.drop_eq_getElem_cons hlt, hat, Nat.sub_add_cancel hstart] at hsplit
    exact hsplit.symm
  obtain ⟨front, rest, htext, hrest⟩ := exists_split_of_maskFrom hmask
  obtain ⟨fresh, more, rfl, hmore⟩ :=
    exists_code_of_visible hrest (by decide) (by decide) (by decide)
  have hdrop : text.drop span.start = more := by
    have hbehind : more.length = text.length - span.start := by
      rw [← maskFrom_length (.code fresh) more, hmore, List.length_drop, mask_length]
    have hlength := congrArg List.length htext
    rw [List.length_append, List.length_cons] at hlength
    rw [mask_length] at hlt
    rw [htext, List.append_cons]
    exact List.drop_left' (by rw [List.length_append, List.length_singleton]; omega)
  refine ⟨fresh, ?_⟩
  rw [Span.masked, Span.slice, Span.slice, hdrop, ← hmore, ← List.take_zipWith]
  exact .of_maskFrom _ _ _

section

variable {limit : Limit} {file : String} {text : List Char} {d : Declaration Span}
  {callable : Callable Span} {chunk : Chunk}

theorem parameters_of_mem_chunksOf {index : LineIndex}
    (hcallable : d.shape.callable? = some callable)
    (hchunk : chunk ∈ chunksOf file text index (d.read text)) :
    chunk.parameters = some (splitParameters (readPart text callable.parameters)) := by
  rw [chunksOf_eq] at hchunk
  obtain ⟨span, shape⟩ := d
  cases shape with
  | function isPublic name header =>
      obtain rfl := Option.some.inj hcallable
      rcases List.mem_pair.mp hchunk with rfl | rfl
      · rfl
      · rfl
  | resource owner method path header =>
      obtain rfl := Option.some.inj hcallable
      rcases List.mem_pair.mp hchunk with rfl | rfl
      · rfl
      · rfl
  | _ => contradiction

/-- The chunks of a function or resource tell the parameters that its list is split into. -/
theorem parameters_of_mem_boundedChunks (hcallable : d.shape.callable? = some callable)
    (hchunk : chunk ∈ boundedChunks limit file text (d.read text)) :
    chunk.parameters = some (parametersBy Masked.char (callable.list text)) := by
  obtain ⟨whole, hwhole, hpiece⟩ := List.mem_flatMap.mp hchunk
  rw [isPieceOf_of_mem_bound (describes_of_mem_chunksOf hwhole).hash hpiece]
  show whole.parameters = _
  rw [parameters_of_mem_chunksOf hcallable hwhole, readPart, ← Span.map_char_masked,
    splitParameters_eq]
  rfl

/-- The chunks of a function or resource tell, as its parameters, the pieces of its list between
the commas of the text.  These are the pieces of the masked list that are not blank if and only
if text and mask have the same commas outside brackets and no piece is only a comment.  For the
former it is enough that the mask blanks no comma and no bracket of the list. -/
theorem parameters_of_callable (limit : Limit) (file : String)
    (hd : d ∈ declarations (Locate.all (mask text)))
    (hcallable : d.shape.callable? = some callable) :
    ((callable.list text).map Masked.char = callable.parameters.slice text ∧
        (callable.list text).map Masked.shown = callable.parameters.slice (mask text)) ∧
      (∀ side, (piecesBy side (callable.list text)).map (·.map side) =
        piecesFrom 0 [] ((callable.list text).map side)) ∧
      boundedChunks limit file text (d.read text) ≠ [] ∧
      (∀ chunk ∈ boundedChunks limit file text (d.read text),
        chunk.parameters = some (parametersBy Masked.char (callable.list text))) ∧
      (parametersBy Masked.char (callable.list text) =
          parametersBy Masked.shown (callable.list text) ↔
        piecesBy Masked.char (callable.list text) = piecesBy Masked.shown (callable.list text) ∧
          NoneHidden (callable.list text)) ∧
      ((∀ m ∈ callable.list text, m.shown ≠ m.char → m.char ∉ separators) →
        piecesBy Masked.char (callable.list text) =
          piecesBy Masked.shown (callable.list text)) := by
  obtain ⟨hstart, hopening⟩ := Locate.opening_of_callable hd hcallable
  obtain ⟨fresh, hreads⟩ := reads_of_opening hstart hopening
  refine ⟨⟨Span.map_char_masked _ _, Span.map_shown_masked _ _⟩,
    fun side => map_piecesBy side _, boundedChunks_ne_nil (d.read text),
    fun chunk hchunk => parameters_of_mem_boundedChunks hcallable hchunk,
    parametersBy_eq_iff hreads, fun hvisible => piecesBy_congr fun m hm hne => ?_⟩
  refine ⟨hvisible m hm hne.symm, ?_⟩
  rcases hreads.shown_eq hm with heq | heq
  · exact absurd heq.symm hne
  · rw [heq]
    decide

end

/-- A function with a comma in the default value of a parameter. -/
def commaInDefault : List Char :=
  "function f(string s = \"a,b\", int c) \x7b\n\x7d".toList

theorem function_of_commaInDefault :
    ⟨⟨0, 39⟩, .function false ⟨9, 10⟩ ⟨[], ⟨11, 34⟩, none, 36⟩⟩ ∈
      declarations (Locate.all (mask commaInDefault)) := by
  decide +kernel

theorem parameters_of_callable_commaInDefault :
    ∃ d ∈ declarations (Locate.all (mask commaInDefault)),
      ∀ chunk ∈ boundedChunks .standard "a.bal" commaInDefault (d.read commaInDefault),
        chunk.parameters = some ["string s = \"a", "b\"", "int c"] := by
  refine ⟨_, function_of_commaInDefault, fun chunk hchunk => ?_⟩
  obtain ⟨-, -, -, hparameters, -⟩ :=
    parameters_of_callable .standard "a.bal" function_of_commaInDefault rfl
  rw [hparameters chunk hchunk]
  decide +kernel

/-- A comma in a default value cuts a parameter in two, which the mask does not. -/
theorem commaInDefault_cut :
    ∃ d ∈ declarations (Locate.all (mask commaInDefault)), ∃ callable,
      d.shape.callable? = some callable ∧
      parametersBy Masked.shown (callable.list commaInDefault) = ["string s = \"a,b\"", "int c"] ∧
      ∀ chunk ∈ boundedChunks .standard "a.bal" commaInDefault (d.read commaInDefault),
        chunk.parameters = some ["string s = \"a", "b\"", "int c"] := by
  refine ⟨_, function_of_commaInDefault, _, rfl, by decide +kernel, fun chunk hchunk => ?_⟩
  rw [parameters_of_mem_boundedChunks rfl hchunk]
  decide +kernel

end SourceChunks
