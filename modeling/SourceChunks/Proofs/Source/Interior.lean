import Mathlib
import SourceChunks.Declaration.Locate
import SourceChunks.Proofs.Source.Lines
import SourceChunks.Proofs.Source.Scan

/-!
# Comments and literals have no influence

If a comment or literal of a text is replaced by another one of the same form and
length, with its line ends in the same places, then the mask of the text does not change,
and neither does anything that is found in it: not what there is, nor where it stands.

* `StringBody`, `StringInterior`: what may stand in a string, and in one that is closed on its line.
* `LiteralForm.Holds`: a stretch of a text is a comment or literal of some form.
* `LiteralForm.maskFrom_literal`: its mask is told by its form and the places of its line ends.
* `found_congr_of_interior`: what two such texts have in common.
-/

namespace SourceChunks

/-! ## Forms -/

/-- What a string goes through before it ends: no quote and no line end but behind a backslash,
which takes the character behind it along. -/
inductive StringBody : List Char → Prop where
  | nil : StringBody []
  | plain {c : Char} {rest : List Char} (hquote : c ≠ '"') (hslash : c ≠ '\\') (hline : c ≠ '\n')
      (hrest : StringBody rest) : StringBody (c :: rest)
  | escaped {c : Char} {rest : List Char} (hrest : StringBody rest) :
      StringBody ('\\' :: c :: rest)

/-- What stands between the quotes of a string: no line end, and no quote but behind a
backslash, which takes the character behind it along. -/
inductive StringInterior : List Char → Prop where
  | nil : StringInterior []
  | plain {c : Char} {rest : List Char} (hquote : c ≠ '"') (hslash : c ≠ '\\') (hline : c ≠ '\n')
      (hrest : StringInterior rest) : StringInterior (c :: rest)
  | escaped {c : Char} {rest : List Char} (hline : c ≠ '\n') (hrest : StringInterior rest) :
      StringInterior ('\\' :: c :: rest)

theorem StringInterior.body {interior : List Char} (h : StringInterior interior) :
    StringBody interior := by
  induction h with
  | nil => exact .nil
  | plain hquote hslash hline _ ih => exact .plain hquote hslash hline ih
  | escaped _ _ ih => exact .escaped ih

/-- A character between two parts of a text opens a comment: the first one of two slashes, or a
number sign with only white space before it on its line. -/
def OpensComment (front : List Char) (c : Char) (rest : List Char) : Prop :=
  (c = '/' ∧ rest.head? = some '/') ∨ (c = '#' ∧ Text.allBlank (lineBefore front) = true)

theorem opensComment_iff {front rest : List Char} {c : Char} : OpensComment front c rest ↔
    MaskMode.opensComment (Text.allBlank (lineBefore front)) c rest = true := by
  simp [OpensComment, MaskMode.opensComment]

theorem OpensComment.append {front body : List Char} {c : Char} (h : OpensComment front c body)
    (rest : List Char) : OpensComment front c (body ++ rest) := by
  rcases h with ⟨hc, hhead⟩ | hsign
  · exact .inl ⟨hc, by rw [List.head?_append, hhead, Option.some_or]⟩
  · exact .inr hsign

/-- The forms in which a stretch of a text is blanked in its mask. -/
inductive LiteralForm where
  /-- A comment behind two slashes, or behind a number sign that begins its line. -/
  | comment
  /-- A string that is closed on its line. -/
  | string
  /-- A template that is closed. -/
  | template
  deriving Repr, DecidableEq

namespace LiteralForm

/-- A stretch between two parts of a text has a form: it is a whole comment, up to the end
of its line or of the text, or a whole literal, up to the first character that closes it. -/
def Holds (form : LiteralForm) (front literal rest : List Char) : Prop :=
  match form with
  | comment => ∃ c body, literal = c :: body ∧ OpensComment front c body ∧ '\n' ∉ literal ∧
      (rest = [] ∨ rest.head? = some '\n')
  | string => ∃ interior, literal = '"' :: (interior ++ ['"']) ∧ StringInterior interior
  | template => ∃ interior, literal = MaskMode.backtick :: (interior ++ [MaskMode.backtick]) ∧
      MaskMode.backtick ∉ interior

/-- The mode behind a stretch. -/
def modeBehind : LiteralForm → MaskMode
  | comment => .comment
  | string => .code false
  | template => .code false

end LiteralForm

/-! ## Blanking -/

/-- A space for every character but the line ends. -/
def blankOut (text : List Char) : List Char :=
  text.map fun c => if c = '\n' then '\n' else ' '

/-- The places of the line ends tell which characters are kept. -/
theorem blankOut_congr {offset : Nat} {text text' : List Char} (hlength : text.length = text'.length)
    (hlines : newlinesFrom offset text = newlinesFrom offset text') :
    blankOut text = blankOut text' := by
  induction text generalizing offset text' with
  | nil => rw [List.eq_nil_of_length_eq_zero hlength.symm]
  | cons c text ih =>
      obtain ⟨c', text', rfl⟩ := List.exists_cons_of_length_eq_add_one hlength.symm
      have hlength' : text.length = text'.length := Nat.succ.inj hlength
      -- All later line ends stand further on, so that the two first places agree.
      have hbehind : ∀ more, offset ∉ newlinesFrom (offset + 1) more := fun more h =>
        absurd (bounds_of_mem_newlinesFrom h).1 (by omega)
      rw [newlinesFrom, newlinesFrom] at hlines
      show (if c = '\n' then '\n' else ' ') :: blankOut text =
        (if c' = '\n' then '\n' else ' ') :: blankOut text'
      split_ifs at hlines ⊢ with hc hc' hc'
      · rw [ih hlength' (List.cons.inj hlines).2]
      · exact absurd (hlines ▸ List.mem_cons_self) (hbehind text')
      · exact absurd (hlines.symm ▸ List.mem_cons_self) (hbehind text)
      · rw [ih hlength' hlines]

theorem maskFrom_comment {body : List Char} (hbody : '\n' ∉ body) (rest : List Char) :
    maskFrom .comment (body ++ rest) = blankOut body ++ maskFrom .comment rest := by
  induction body with
  | nil => rfl
  | cons c body ih =>
      obtain ⟨hc, hbody⟩ := not_or.mp (List.mem_cons.not.mp hbody)
      have hc : c ≠ '\n' := Ne.symm hc
      rw [List.cons_append, maskFrom]
      simp only [MaskMode.next, MaskMode.blanks, hc, if_false, bne_iff_ne, ne_eq, not_false_iff,
        if_true, blankOut, List.map_cons, List.cons_append]
      exact congrArg _ (ih hbody)

/-- A string goes through its body without an end. -/
theorem maskFrom_stringBody {body : List Char} (h : StringBody body) (rest : List Char) :
    maskFrom (.string false) (body ++ rest) = blankOut body ++ maskFrom (.string false) rest := by
  induction h with
  | nil => rfl
  | @plain c more hquote hslash hline _ ih =>
      have hstay : (MaskMode.string false).next c (more ++ rest) = .string false := by
        simp [MaskMode.next, hquote, hline, hslash]
      have hblank : (MaskMode.string false).blanks c (more ++ rest) = true := by
        simp [MaskMode.blanks, hquote, hline]
      rw [List.cons_append, maskFrom, hstay, hblank, ih]
      simp [blankOut, hline]
  | @escaped c more _ ih =>
      have hescape : (MaskMode.string false).next '\\' (c :: (more ++ rest)) = .string true := rfl
      have hback : (MaskMode.string true).next c (more ++ rest) = .string false := rfl
      rw [List.cons_append, List.cons_append, maskFrom, maskFrom, hescape, hback, ih]
      by_cases hline : c = '\n'
      · simp [blankOut, hline, MaskMode.blanks]
      · simp [blankOut, hline, MaskMode.blanks]

/-- The scan of a string leaves it at its closing quote and nowhere before. -/
theorem maskFrom_string {interior : List Char} (h : StringInterior interior) (rest : List Char) :
    maskFrom (.string false) (interior ++ '"' :: rest) =
      blankOut interior ++ '"' :: maskFrom (.code false) rest := by
  rw [maskFrom_stringBody h.body]
  rfl

/-- A template goes through what has no backtick without an end. -/
theorem maskFrom_templateBody {body : List Char} (h : MaskMode.backtick ∉ body)
    (rest : List Char) :
    maskFrom .template (body ++ rest) = blankOut body ++ maskFrom .template rest := by
  induction body with
  | nil => rfl
  | cons c body ih =>
      obtain ⟨hc, hbody⟩ := not_or.mp (List.mem_cons.not.mp h)
      have hc : c ≠ MaskMode.backtick := Ne.symm hc
      rw [List.cons_append, maskFrom, show MaskMode.template.next c _ = .template from if_neg hc,
        ih hbody]
      by_cases hline : c = '\n'
      · simp [MaskMode.blanks, blankOut, hline]
      · simp [MaskMode.blanks, blankOut, hline, hc]

theorem maskFrom_template {interior : List Char} (h : MaskMode.backtick ∉ interior)
    (rest : List Char) :
    maskFrom .template (interior ++ MaskMode.backtick :: rest) =
      blankOut interior ++ MaskMode.backtick :: maskFrom (.code false) rest := by
  rw [maskFrom_templateBody h]
  rfl

/-! ## The mask of a stretch -/

namespace LiteralForm

/-- The mask of a stretch: blank, but for the quotes of a literal. -/
def outline (form : LiteralForm) (literal : List Char) : List Char :=
  match form with
  | comment => blankOut literal
  | string => '"' :: ((blankOut literal).tail.dropLast ++ ['"'])
  | template => MaskMode.backtick :: ((blankOut literal).tail.dropLast ++ [MaskMode.backtick])

theorem tail_dropLast_blankOut (c d : Char) (interior : List Char) :
    (blankOut (c :: (interior ++ [d]))).tail.dropLast = blankOut interior := by
  rw [blankOut, List.map_cons, List.tail_cons, List.map_append, List.map_singleton,
    List.dropLast_concat]
  rfl

/-- From program text, the mask of a stretch is its outline. -/
theorem maskFrom_literal {form : LiteralForm} {front literal rest : List Char}
    (h : form.Holds front literal rest) :
    maskFrom (.code (Text.allBlank (lineBefore front))) (literal ++ rest) =
      form.outline literal ++ maskFrom form.modeBehind rest := by
  cases form with
  | comment =>
      obtain ⟨c, body, rfl, hopens, hline, -⟩ := h
      have hopens := opensComment_iff.mp (hopens.append rest)
      have hblank : blankOut (c :: body) = ' ' :: blankOut body :=
        congrArg (· :: blankOut body) (if_neg (List.ne_of_not_mem_cons hline).symm)
      rw [List.cons_append, maskFrom]
      simp only [MaskMode.blanks, MaskMode.next, hopens, if_true]
      rw [maskFrom_comment (List.not_mem_of_not_mem_cons hline), outline, hblank]
      rfl
  | string =>
      obtain ⟨interior, rfl, hinterior⟩ := h
      rw [outline, tail_dropLast_blankOut, List.cons_append, maskFrom, List.append_assoc]
      show '"' :: maskFrom (.string false) (interior ++ '"' :: rest) = _
      rw [maskFrom_string hinterior, List.cons_append, List.append_assoc]
      rfl
  | template =>
      obtain ⟨interior, rfl, hinterior⟩ := h
      rw [outline, tail_dropLast_blankOut, List.cons_append, maskFrom, List.append_assoc]
      show MaskMode.backtick :: maskFrom .template (interior ++ MaskMode.backtick :: rest) = _
      rw [maskFrom_template hinterior, List.cons_append, List.append_assoc]
      rfl

/-- In a comment, two slashes begin nothing new. -/
theorem maskFrom_within_comment {form : LiteralForm} {front literal rest : List Char}
    (h : form.Holds front literal rest) (hhead : (literal ++ rest).head? = some '/') :
    maskFrom .comment (literal ++ rest) =
      form.outline literal ++ maskFrom form.modeBehind rest := by
  cases form with
  | comment =>
      obtain ⟨c, body, -, -, hline, -⟩ := h
      exact maskFrom_comment hline rest
  | string =>
      obtain ⟨interior, rfl, -⟩ := h
      exact absurd (Option.some.inj hhead) (by decide)
  | template =>
      obtain ⟨interior, rfl, -⟩ := h
      exact absurd (Option.some.inj hhead) (by decide)

/-- Behind program text, the mask of a stretch is its outline.  The scan of the front ends in program
text, or a slash of it meets one of the stretch. -/
theorem maskFrom_scan {form : LiteralForm} {front literal rest : List Char} {fresh : Bool}
    (hscan : scan (.code true) front [] = .code fresh) (h : form.Holds front literal rest) :
    maskFrom (scan (.code true) front (literal ++ rest)) (literal ++ rest) =
      form.outline literal ++ maskFrom form.modeBehind rest := by
  rcases scan_eq_or_comment hscan (literal ++ rest) with hmode | ⟨hmode, hslash⟩
  · rw [hmode, scan_fresh hscan, maskFrom_literal h]
  · rw [hmode, maskFrom_within_comment h hslash]

/-- Two stretches of one form begin with the same character, unless one of them is a comment that
begins its line. -/
theorem head_eq_or_blank {form : LiteralForm} {front literal literal' rest : List Char}
    (h : form.Holds front literal rest) (h' : form.Holds front literal' rest) :
    (literal ++ rest).head? = (literal' ++ rest).head? ∨
      Text.allBlank (lineBefore front) = true := by
  cases form with
  | comment =>
      obtain ⟨c, body, rfl, hopens, -⟩ := h
      obtain ⟨c', body', rfl, hopens', -⟩ := h'
      rcases hopens with ⟨rfl, -⟩ | ⟨-, hblank⟩
      · rcases hopens' with ⟨rfl, -⟩ | ⟨-, hblank⟩
        · exact .inl rfl
        · exact .inr hblank
      · exact .inr hblank
  | string =>
      obtain ⟨interior, rfl, -⟩ := h
      obtain ⟨interior', rfl, -⟩ := h'
      exact .inl rfl
  | template =>
      obtain ⟨interior, rfl, -⟩ := h
      obtain ⟨interior', rfl, -⟩ := h'
      exact .inl rfl

end LiteralForm

/-- The mask of a text does not depend on what is in a comment or literal. -/
theorem mask_congr_of_interior {form : LiteralForm} {front literal literal' rest : List Char}
    {fresh : Bool} (hscan : scan (.code true) front [] = .code fresh)
    (h : form.Holds front literal rest) (h' : form.Holds front literal' rest)
    (hlength : literal.length = literal'.length)
    (hlines : newlinesFrom 0 literal = newlinesFrom 0 literal') :
    mask (front ++ literal ++ rest) = mask (front ++ literal' ++ rest) := by
  have hblank : blankOut literal = blankOut literal' := blankOut_congr hlength hlines
  have houtline : form.outline literal = form.outline literal' := by
    cases form <;> simp only [LiteralForm.outline, hblank]
  have hbefore : maskBefore (.code true) front (literal ++ rest) =
      maskBefore (.code true) front (literal' ++ rest) := by
    rcases LiteralForm.head_eq_or_blank h h' with hhead | hfresh
    · exact maskBefore_congr _ _ hhead
    · exact maskBefore_congr_of_blank _ hfresh _ _
  rw [mask, mask, List.append_assoc, List.append_assoc, maskFrom_append _ front,
    maskFrom_append _ front, LiteralForm.maskFrom_scan hscan h, LiteralForm.maskFrom_scan hscan h',
    hbefore, houtline]

/-! ## What is found -/

/-- Where a declaration stands, without what it says. -/
structure Footprint where
  kind : Kind
  span : Span
  headerEnd? : Option Nat
  body? : Option Span
  deriving Repr, DecidableEq

/-- Where a declaration stands. -/
def Declaration.footprint {α : Type} (d : Declaration α) : Footprint :=
  ⟨d.kind, d.span, d.headerEnd?, d.body?⟩

@[simp] theorem Declaration.footprint_read (text : List Char) (d : Declaration Span) :
    (d.read text).footprint = d.footprint := by
  rw [footprint, body?, read_kind, read_headerEnd]
  rfl

/-- The declarations of a kind in a text. -/
def found (text : List Char) (kind : Kind) : List (Declaration String) :=
  (declarations (Locate.ofKind (mask text) kind)).map (·.read text)

/-- The resources of each service of a text. -/
def foundByService (text : List Char) : List (List (Declaration String)) :=
  (Locate.services (mask text)).map fun service =>
    (declarations (Locate.resourcesOf (mask text) service)).map (·.read text)

theorem footprints_read (text : List Char) (ds : List (Declaration Span)) :
    (ds.map (·.read text)).map (·.footprint) = ds.map (·.footprint) := by
  rw [List.map_map]
  exact List.map_congr_left fun d _ => d.footprint_read text

/-- Texts with one mask have the same declarations in the same places. -/
theorem footprints_congr_of_mask {text text' : List Char} (h : mask text = mask text') :
    (∀ kind, (found text kind).map (·.footprint) = (found text' kind).map (·.footprint)) ∧
      (foundByService text).map (·.map (·.footprint)) =
        (foundByService text').map (·.map (·.footprint)) := by
  constructor
  · intro kind
    rw [found, found, footprints_read, footprints_read, h]
  · rw [foundByService, foundByService, List.map_map, List.map_map, h]
    exact List.map_congr_left fun service _ => by
      rw [Function.comp_apply, Function.comp_apply, footprints_read, footprints_read]

/-- A comment or literal behind program text can be replaced by another one of its form
and length, with line ends in the same places: the mask stays as it is, every kind of
declaration is found in the same places with the same headers and bodies, and so are the
resources of each service. -/
theorem found_congr_of_interior {form : LiteralForm} {front literal literal' rest : List Char}
    {fresh : Bool} (hscan : scan (.code true) front [] = .code fresh)
    (h : form.Holds front literal rest) (h' : form.Holds front literal' rest)
    (hlength : literal.length = literal'.length)
    (hlines : newlinesFrom 0 literal = newlinesFrom 0 literal') :
    mask (front ++ literal ++ rest) = mask (front ++ literal' ++ rest) ∧
      (∀ kind, (found (front ++ literal ++ rest) kind).map (·.footprint) =
        (found (front ++ literal' ++ rest) kind).map (·.footprint)) ∧
      (foundByService (front ++ literal ++ rest)).map (·.map (·.footprint)) =
        (foundByService (front ++ literal' ++ rest)).map (·.map (·.footprint)) := by
  have hmask := mask_congr_of_interior hscan h h' hlength hlines
  exact ⟨hmask, footprints_congr_of_mask hmask⟩

/-- An escaped quote in a string, or a block instead of it. -/
theorem found_congr_of_interior_string :
    mask ("int a = " ++ "\"a\\\"b\"" ++ ";").toList =
        mask ("int a = " ++ "\"c\x7bd\x7d\"" ++ ";").toList ∧
      ∀ kind, (found ("int a = " ++ "\"a\\\"b\"" ++ ";").toList kind).map (·.footprint) =
        (found ("int a = " ++ "\"c\x7bd\x7d\"" ++ ";").toList kind).map (·.footprint) := by
  have h : LiteralForm.string.Holds "int a = ".toList "\"a\\\"b\"".toList ";".toList :=
    ⟨['a', '\\', '"', 'b'], by decide, .plain (by decide) (by decide) (by decide)
      (.escaped (by decide) (.plain (by decide) (by decide) (by decide) .nil))⟩
  have h' : LiteralForm.string.Holds "int a = ".toList "\"c\x7bd\x7d\"".toList ";".toList :=
    ⟨['c', '{', 'd', '}'], by decide, .plain (by decide) (by decide) (by decide)
      (.plain (by decide) (by decide) (by decide) (.plain (by decide) (by decide) (by decide)
        (.plain (by decide) (by decide) (by decide) .nil)))⟩
  have hscan : scan (.code true) "int a = ".toList [] = .code false := by decide
  have hfound := found_congr_of_interior hscan h h' (by decide) (by decide)
  simp only [String.toList_append]
  exact ⟨hfound.1, hfound.2.1⟩

end SourceChunks
