import Mathlib
import SourceChunks.Proofs.Source.Interior
import SourceChunks.Proofs.Text.Rows

/-!
# Masking as reading from left to right

A text is a row of lexemes: characters of program text, comments, strings and templates, each
of which begins where the one before it ends.  What a lexeme is depends on nothing but the text
before it and the text behind it, and there is only one way to read a text.  A mask keeps the
characters of program text and the characters that open and close a literal, and blanks what
else is in a lexeme, but for line ends.

* `exists_stringBody`, `StringBody.unique`: how far a string goes.
* `Lexeme.Between`: a lexeme stands between two parts of a text.
* `Lexed`: a text is a row of lexemes.
* `Lexeme.exists_between`, `Lexeme.Between.unique`: there is one lexeme at the head of a text.
* `Lexeme.maskFrom_text`: the mask of a text that begins with a lexeme.
* `mask_of_lexemes`: the mask of a text is that of its lexemes.
-/

namespace SourceChunks

/-! ## Strings -/

/-- What may follow the body of a string: the quote or line end that ends it, or the end of the
text, also behind a last backslash. -/
inductive EndsString : List Char → Prop where
  | ending {c : Char} {rest : List Char} (hc : c = '"' ∨ c = '\n') : EndsString (c :: rest)
  | cut : EndsString []
  | slash : EndsString ['\\']

theorem exists_stringBody (text : List Char) :
    ∃ body rest, text = body ++ rest ∧ StringBody body ∧ EndsString rest := by
  -- By two characters at a time, since a backslash takes one along.
  induction text using List.twoStepInduction with
  | nil => exact ⟨[], [], rfl, .nil, .cut⟩
  | singleton c =>
      by_cases hends : c = '"' ∨ c = '\n'
      · exact ⟨[], [c], rfl, .nil, .ending hends⟩
      · obtain ⟨hquote, hline⟩ := not_or.mp hends
        by_cases hslash : c = '\\'
        · exact ⟨[], [c], rfl, .nil, hslash ▸ .slash⟩
        · exact ⟨[c], [], rfl, .plain hquote hslash hline .nil, .cut⟩
  | cons_cons c d text ih ih' =>
      by_cases hends : c = '"' ∨ c = '\n'
      · exact ⟨[], c :: d :: text, rfl, .nil, .ending hends⟩
      · obtain ⟨hquote, hline⟩ := not_or.mp hends
        by_cases hslash : c = '\\'
        · obtain ⟨body, rest, rfl, hbody, hrest⟩ := ih
          exact ⟨c :: d :: body, rest, rfl, hslash ▸ .escaped hbody, hrest⟩
        · obtain ⟨body, rest, htext, hbody, hrest⟩ := ih' d
          exact ⟨c :: body, rest, by rw [htext, List.cons_append],
            .plain hquote hslash hline hbody, hrest⟩

/-- What a string ends with is not part of its body. -/
theorem StringBody.nil_of_ends {body rest : List Char} (hbody : StringBody body)
    (hends : EndsString (body ++ rest)) : body = [] := by
  cases hbody with
  | nil => rfl
  | @plain c more hquote hslash hline =>
      exfalso
      rw [List.cons_append] at hends
      generalize more ++ rest = tail at hends
      cases hends with
      | ending hc => exact hc.elim hquote hline
      | slash => exact hslash rfl
  | @escaped c more =>
      exfalso
      rw [List.cons_append, List.cons_append] at hends
      cases hends with
      | ending hc => exact absurd hc (by decide)

/-- There is one place at which a string ends. -/
theorem StringBody.unique {body body' rest rest' : List Char} (hbody : StringBody body)
    (hbody' : StringBody body') (hrest : EndsString rest) (hrest' : EndsString rest')
    (h : body ++ rest = body' ++ rest') : body = body' ∧ rest = rest' := by
  induction hbody generalizing body' with
  | nil =>
      obtain rfl := hbody'.nil_of_ends (by rw [← h]; exact hrest)
      exact ⟨rfl, h⟩
  | @plain c more hquote hslash hline hmore ih =>
      cases hbody' with
      | nil =>
          have hnil := (StringBody.plain hquote hslash hline hmore).nil_of_ends
            (by rw [h]; exact hrest')
          contradiction
      | plain _ _ _ hmore' =>
          obtain ⟨rfl, htail⟩ := List.cons.inj h
          obtain ⟨rfl, hsame⟩ := ih hmore' htail
          exact ⟨rfl, hsame⟩
      | escaped => exact absurd (List.cons.inj h).1 hslash
  | @escaped c more hmore ih =>
      cases hbody' with
      | nil =>
          have hnil := (StringBody.escaped (c := c) hmore).nil_of_ends
            (by rw [h]; exact hrest')
          contradiction
      | plain _ hslash _ _ => exact absurd (List.cons.inj h).1.symm hslash
      | escaped hmore' =>
          rw [List.cons_append, List.cons_append, List.cons_append, List.cons_append] at h
          obtain ⟨rfl, htail⟩ := List.cons.inj (List.cons.inj h).2
          obtain ⟨rfl, hsame⟩ := ih hmore' htail
          exact ⟨rfl, hsame⟩

/-! ## Lexemes -/

/-- A piece of a text that is read at once. -/
inductive Lexeme where
  /-- A character of program text. -/
  | plain (c : Char)
  /-- A comment without the end of its line. -/
  | comment (body : List Char)
  /-- A string: what is behind its opening quote, and the quote or line end that ends it, unless
  the text ends first. -/
  | string (interior : List Char) (ending : Option Char)
  /-- A template: what is behind its opening backtick, and the one that closes it, unless the
  text ends first. -/
  | template (interior : List Char) (ending : Option Char)
  deriving Repr, DecidableEq

namespace Lexeme

/-- The text of a lexeme. -/
def text : Lexeme → List Char
  | plain c => [c]
  | comment body => body
  | string interior ending => '"' :: (interior ++ ending.toList)
  | template interior ending => MaskMode.backtick :: (interior ++ ending.toList)

/-- The mask of a lexeme. -/
def masked : Lexeme → List Char
  | plain c => [c]
  | comment body => blankOut body
  | string interior ending => '"' :: (blankOut interior ++ ending.toList)
  | template interior ending => MaskMode.backtick :: (blankOut interior ++ ending.toList)

/-- A lexeme stands between two parts of a text. -/
def Between (front rest : List Char) : Lexeme → Prop
  | plain c => ¬ OpensComment front c rest ∧ c ≠ '"' ∧ c ≠ MaskMode.backtick
  | comment body => (∃ c more, body = c :: more ∧ OpensComment front c (more ++ rest)) ∧
      '\n' ∉ body ∧ (rest = [] ∨ rest.head? = some '\n')
  | string interior (some c) => StringBody interior ∧ (c = '"' ∨ c = '\n')
  | string interior none => rest = [] ∧
      (StringBody interior ∨ ∃ body, interior = body ++ ['\\'] ∧ StringBody body)
  | template interior (some c) => MaskMode.backtick ∉ interior ∧ c = MaskMode.backtick
  | template interior none => MaskMode.backtick ∉ interior ∧ rest = []

end Lexeme

/-- A text behind another one is a row of lexemes. -/
inductive Lexed : (front text : List Char) → List Lexeme → Prop
  | done {front : List Char} : Lexed front [] []
  | next {front rest : List Char} {lexeme : Lexeme} {lexemes : List Lexeme}
      (hlexeme : lexeme.Between front rest) (hrest : Lexed (front ++ lexeme.text) rest lexemes) :
      Lexed front (lexeme.text ++ rest) (lexeme :: lexemes)

namespace Lexeme

variable {front rest rest' text : List Char} {lexeme lexeme' : Lexeme}

theorem text_ne_nil (h : lexeme.Between front rest) : lexeme.text ≠ [] := by
  cases lexeme with
  | plain | string | template => exact List.cons_ne_nil _ _
  | comment body =>
      obtain ⟨⟨c, more, rfl, -⟩, -, -⟩ := h
      exact List.cons_ne_nil c more

/-! ## What stands at the head of a text -/

/-- A string with its body and what follows. -/
theorem exists_string_between (front text : List Char) :
    ∃ (lexeme : Lexeme) (rest : List Char), '"' :: text = lexeme.text ++ rest ∧
      lexeme.Between front rest := by
  obtain ⟨body, rest, rfl, hbody, hrest⟩ := exists_stringBody text
  cases hrest with
  | @ending c rest hc =>
      exact ⟨.string body (some c), rest, by simp [Lexeme.text], hbody, hc⟩
  | cut => exact ⟨.string body none, [], by simp [Lexeme.text], rfl, .inl hbody⟩
  | slash =>
      exact ⟨.string (body ++ ['\\']) none, [], by simp [Lexeme.text], rfl,
        .inr ⟨body, rfl, hbody⟩⟩

/-- A template goes to the next backtick. -/
theorem exists_template_between (front text : List Char) :
    ∃ (lexeme : Lexeme) (rest : List Char), MaskMode.backtick :: text = lexeme.text ++ rest ∧
      lexeme.Between front rest := by
  by_cases hclosed : MaskMode.backtick ∈ text
  · obtain ⟨interior, rest, rfl, hinterior⟩ := List.eq_append_cons_of_mem hclosed
    exact ⟨.template interior (some MaskMode.backtick), rest, by simp [Lexeme.text], hinterior, rfl⟩
  · exact ⟨.template text none, [], by simp [Lexeme.text], hclosed, rfl⟩

/-- A comment goes to the end of its line. -/
theorem exists_comment_between {c : Char} (hopens : OpensComment front c text) :
    ∃ (lexeme : Lexeme) (rest : List Char), c :: text = lexeme.text ++ rest ∧
      lexeme.Between front rest := by
  have hc : c ≠ '\n' := by
    rintro rfl
    exact absurd hopens (by simp [OpensComment])
  by_cases hends : '\n' ∈ text
  · obtain ⟨body, rest, rfl, hbody⟩ := List.eq_append_cons_of_mem hends
    exact ⟨.comment (c :: body), '\n' :: rest, rfl, ⟨c, body, rfl, hopens⟩,
      List.not_mem_cons_of_ne_of_not_mem hc.symm hbody, .inr rfl⟩
  · exact ⟨.comment (c :: text), [], by simp [Lexeme.text],
      ⟨c, text, rfl, by rwa [List.append_nil]⟩,
      List.not_mem_cons_of_ne_of_not_mem hc.symm hends, .inl rfl⟩

/-- Every text that is not empty begins with a lexeme. -/
theorem exists_between (front : List Char) (h : text ≠ []) :
    ∃ (lexeme : Lexeme) (rest : List Char), text = lexeme.text ++ rest ∧
      lexeme.Between front rest := by
  obtain ⟨c, text, rfl⟩ := List.exists_cons_of_ne_nil h
  by_cases hopens : OpensComment front c text
  · exact exists_comment_between hopens
  · by_cases hquote : c = '"'
    · exact hquote ▸ exists_string_between front text
    · by_cases htick : c = MaskMode.backtick
      · exact htick ▸ exists_template_between front text
      · exact ⟨.plain c, text, rfl, hopens, hquote, htick⟩

/-! ## There is only one -/

/-- The string that is read in front of what may follow its body. -/
def stringUpTo (body : List Char) : (tail : List Char) → Lexeme
  | [] => string body none
  | c :: _ => if c = '\\' then string (body ++ ['\\']) none else string body (some c)

/-- A string is read as its body in front of what follows it. -/
theorem exists_body_of_string {interior : List Char} {ending : Option Char}
    (h : (Lexeme.string interior ending).Between front rest) :
    ∃ body tail, StringBody body ∧ EndsString tail ∧
      interior ++ (ending.toList ++ rest) = body ++ tail ∧
      Lexeme.string interior ending = stringUpTo body tail := by
  cases ending with
  | some c =>
      obtain ⟨hbody, hc⟩ := h
      have hslash : c ≠ '\\' := by
        rintro rfl
        exact absurd hc (by decide)
      exact ⟨interior, c :: rest, hbody, .ending hc, rfl, (if_neg hslash).symm⟩
  | none =>
      obtain ⟨rfl, hbody | ⟨body, rfl, hbody⟩⟩ := h
      · exact ⟨interior, [], hbody, .cut, rfl, rfl⟩
      · exact ⟨body, ['\\'], hbody, .slash, by simp, rfl⟩

theorem string_unique {interior interior' : List Char} {ending ending' : Option Char}
    (h : (Lexeme.string interior ending).Between front rest)
    (h' : (Lexeme.string interior' ending').Between front rest')
    (htext : interior ++ (ending.toList ++ rest) = interior' ++ (ending'.toList ++ rest')) :
    Lexeme.string interior ending = Lexeme.string interior' ending' := by
  obtain ⟨body, tail, hbody, htail, hsame, heq⟩ := exists_body_of_string h
  obtain ⟨body', tail', hbody', htail', hsame', heq'⟩ := exists_body_of_string h'
  obtain ⟨rfl, rfl⟩ := hbody.unique hbody' htail htail' (by rw [← hsame, htext, hsame'])
  rw [heq, heq']

/-- What stands behind the interior of a template. -/
theorem head_of_template {interior : List Char} {ending : Option Char}
    (h : (Lexeme.template interior ending).Between front rest) :
    MaskMode.backtick ∉ interior ∧ (ending.toList ++ rest = [] ∨
      (ending.toList ++ rest).head? = some MaskMode.backtick) := by
  cases ending with
  | some c => exact ⟨h.1, .inr (congrArg some h.2)⟩
  | none => exact ⟨h.1, .inl h.2⟩

theorem template_unique {interior interior' : List Char} {ending ending' : Option Char}
    (h : (Lexeme.template interior ending).Between front rest)
    (h' : (Lexeme.template interior' ending').Between front rest')
    (htext : interior ++ (ending.toList ++ rest) = interior' ++ (ending'.toList ++ rest')) :
    Lexeme.template interior ending = Lexeme.template interior' ending' := by
  obtain ⟨hinterior, hends⟩ := head_of_template h
  obtain ⟨hinterior', hends'⟩ := head_of_template h'
  obtain ⟨rfl, htail⟩ := append_unique hinterior hinterior' hends hends' htext
  cases ending with
  | some c =>
      cases ending' with
      | some c' => rw [h.2, h'.2]
      | none =>
          obtain rfl := h'.2
          exact absurd htail (List.cons_ne_nil c rest)
  | none =>
      cases ending' with
      | some c' =>
          obtain rfl := h.2
          exact absurd htail.symm (List.cons_ne_nil c' rest')
      | none => rfl

/-- What the scan of a lexeme is in behind its first character. -/
def within (fresh : Bool) : Lexeme → MaskMode
  | plain c => .code (c = '\n' || (fresh && Text.isBlank c))
  | comment _ => .comment
  | string _ _ => .string false
  | template _ _ => .template

/-- The first character of a lexeme tells what it is. -/
theorem Between.next {c : Char} {more : List Char} (h : lexeme.Between front rest)
    (htext : lexeme.text = c :: more) :
    (MaskMode.code (Text.allBlank (lineBefore front))).next c (more ++ rest) =
      lexeme.within (Text.allBlank (lineBefore front)) := by
  rw [MaskMode.next]
  cases lexeme with
  | plain d =>
      obtain ⟨rfl, rfl⟩ := List.cons.inj htext
      obtain ⟨hopens, hquote, htick⟩ := h
      rw [List.nil_append, if_neg (opensComment_iff.not.mp hopens), if_neg hquote, if_neg htick]
      rfl
  | comment body =>
      obtain ⟨⟨d, body, rfl, hopens⟩, -, -⟩ := h
      obtain ⟨rfl, rfl⟩ := List.cons.inj htext
      rw [if_pos (opensComment_iff.mp hopens)]
      rfl
  | string interior ending =>
      obtain ⟨rfl, -⟩ := List.cons.inj htext
      rfl
  | template interior ending =>
      obtain ⟨rfl, -⟩ := List.cons.inj htext
      rfl

/-- There is only one lexeme at the head of a text. -/
theorem Between.unique (h : lexeme.Between front rest) (h' : lexeme'.Between front rest')
    (htext : lexeme.text ++ rest = lexeme'.text ++ rest') : lexeme = lexeme' ∧ rest = rest' := by
  obtain ⟨c, more, hhead⟩ := List.exists_cons_of_ne_nil (text_ne_nil h)
  obtain ⟨c', more', hhead'⟩ := List.exists_cons_of_ne_nil (text_ne_nil h')
  have hsort : lexeme.within (Text.allBlank (lineBefore front)) =
      lexeme'.within (Text.allBlank (lineBefore front)) := by
    rw [← h.next hhead, ← h'.next hhead']
    rw [hhead, hhead'] at htext
    rw [(List.cons.inj htext).1, show more ++ rest = more' ++ rest' from (List.cons.inj htext).2]
  suffices hsame : lexeme = lexeme' from
    ⟨hsame, List.append_cancel_left (hsame ▸ htext)⟩
  cases lexeme with
  | plain d =>
      cases lexeme' with
      | plain d' => rw [(List.cons.inj htext).1]
      | comment | string | template => nomatch hsort
  | comment body =>
      cases lexeme' with
      | comment body' => rw [(append_unique h.2.1 h'.2.1 h.2.2 h'.2.2 htext).1]
      | plain | string | template => nomatch hsort
  | string interior ending =>
      cases lexeme' with
      | string interior' ending' =>
          exact string_unique h h' (by simpa [Lexeme.text] using htext)
      | plain | comment | template => nomatch hsort
  | template interior ending =>
      cases lexeme' with
      | template interior' ending' =>
          exact template_unique h h' (by simpa [Lexeme.text] using htext)
      | plain | comment | string => nomatch hsort

/-! ## The mask of a lexeme -/

/-- A line is blank behind a character that ends a line, or behind a blank one if it was before. -/
theorem allBlank_lineBefore_concat (front : List Char) (c : Char) :
    Text.allBlank (lineBefore (front ++ [c])) =
      (c = '\n' || (Text.allBlank (lineBefore front) && Text.isBlank c)) := by
  rw [lineBefore_concat]
  by_cases hc : c = '\n'
  · simp [hc, Text.allBlank]
  · simp [hc, Text.allBlank]

theorem maskFrom_comment_end (hrest : rest = [] ∨ rest.head? = some '\n') (fresh : Bool) :
    maskFrom .comment rest = maskFrom (.code fresh) rest := by
  cases rest with
  | nil => rfl
  | cons c rest =>
      obtain rfl : c = '\n' := by simpa using hrest
      rfl

/-- From its opening quote, the mask of a string. -/
theorem maskFrom_string_text {interior : List Char} {ending : Option Char}
    (h : (Lexeme.string interior ending).Between front rest) :
    maskFrom (.string false) (interior ++ (ending.toList ++ rest)) =
      blankOut interior ++ (ending.toList ++ maskFrom (.code (ending = some '\n')) rest) := by
  cases ending with
  | some c =>
      obtain ⟨hbody, rfl | rfl⟩ := h
      · rw [maskFrom_stringBody hbody]
        rfl
      · rw [maskFrom_stringBody hbody]
        rfl
  | none =>
      obtain ⟨rfl, hbody | ⟨body, rfl, hbody⟩⟩ := h
      · rw [maskFrom_stringBody hbody]
        rfl
      · rw [List.append_assoc, maskFrom_stringBody hbody]
        simp [blankOut, maskFrom, MaskMode.blanks]

/-- From its opening backtick, the mask of a template. -/
theorem maskFrom_template_text {interior : List Char} {ending : Option Char}
    (h : (Lexeme.template interior ending).Between front rest) :
    maskFrom .template (interior ++ (ending.toList ++ rest)) =
      blankOut interior ++ (ending.toList ++ maskFrom (.code false) rest) := by
  cases ending with
  | some c =>
      obtain ⟨hinterior, rfl⟩ := h
      exact maskFrom_template hinterior rest
  | none =>
      obtain ⟨hinterior, rfl⟩ := h
      rw [maskFrom_templateBody hinterior]
      rfl

/-- Behind the character that ends a literal, a line is blank if it was just begun. -/
theorem allBlank_lineBefore_literal {c d : Char} (hblank : Text.isBlank d = false ∨ d = '\n')
    (front interior : List Char) :
    Text.allBlank (lineBefore (front ++ c :: (interior ++ [d]))) = decide (d = '\n') := by
  rw [← List.cons_append, ← List.append_assoc, allBlank_lineBefore_concat]
  rcases hblank with hblank | rfl
  · rw [hblank, Bool.and_false, Bool.or_false]
  · rfl

/-- The mask of a text that begins with a lexeme. -/
theorem maskFrom_text (h : lexeme.Between front rest) :
    maskFrom (.code (Text.allBlank (lineBefore front))) (lexeme.text ++ rest) =
      lexeme.masked ++
        maskFrom (.code (Text.allBlank (lineBefore (front ++ lexeme.text)))) rest := by
  obtain ⟨c, more, hhead⟩ := List.exists_cons_of_ne_nil (text_ne_nil h)
  have hnext := h.next hhead
  rw [hhead, List.cons_append, maskFrom, hnext]
  cases lexeme with
  | plain d =>
      obtain ⟨rfl, rfl⟩ := List.cons.inj hhead
      have hblanks : (MaskMode.code (Text.allBlank (lineBefore front))).blanks d rest = false :=
        Bool.eq_false_iff.mpr (opensComment_iff.not.mp h.1)
      rw [List.nil_append, hblanks, allBlank_lineBefore_concat]
      rfl
  | comment body =>
      obtain ⟨⟨d, body, rfl, hopens⟩, hline, hrest⟩ := h
      obtain ⟨rfl, rfl⟩ := List.cons.inj hhead
      obtain ⟨hd, hline⟩ := not_or.mp (List.mem_cons.not.mp hline)
      have hblanks : (MaskMode.code (Text.allBlank (lineBefore front))).blanks d (body ++ rest) =
        true := opensComment_iff.mp hopens
      rw [hblanks, within, maskFrom_comment hline,
        maskFrom_comment_end hrest (Text.allBlank (lineBefore (front ++ d :: body)))]
      simp [masked, blankOut, Ne.symm hd]
  | string interior ending =>
      obtain ⟨rfl, rfl⟩ := List.cons.inj hhead
      rw [within, List.append_assoc, maskFrom_string_text h]
      cases ending with
      | some d =>
          rw [Option.toList_some, allBlank_lineBefore_literal (by
            obtain ⟨-, rfl | rfl⟩ := h
            · exact .inl rfl
            · exact .inr rfl)]
          simp [masked, MaskMode.blanks, MaskMode.opensComment]
      | none =>
          obtain ⟨rfl, -⟩ := h
          simp [masked, maskFrom, MaskMode.blanks, MaskMode.opensComment]
  | template interior ending =>
      obtain ⟨rfl, rfl⟩ := List.cons.inj hhead
      rw [within, List.append_assoc, maskFrom_template_text h]
      cases ending with
      | some d =>
          obtain ⟨-, rfl⟩ := h
          rw [Option.toList_some, allBlank_lineBefore_literal (.inl rfl)]
          simp [masked, MaskMode.blanks, MaskMode.opensComment, MaskMode.backtick]
      | none =>
          obtain ⟨-, rfl⟩ := h
          simp [masked, maskFrom, MaskMode.blanks, MaskMode.opensComment, MaskMode.backtick]

/-- The mask of a lexeme has a space in some places where there is no line end. -/
theorem masked_text (lexeme : Lexeme) :
    List.Forall₂ (fun c m => m = c ∨ (m = ' ' ∧ c ≠ '\n')) lexeme.text lexeme.masked := by
  have hsame : ∀ s : List Char,
      List.Forall₂ (fun c m => m = c ∨ (m = ' ' ∧ c ≠ '\n')) s s :=
    fun s => List.forall₂_same.mpr fun c _ => .inl rfl
  have hblank : ∀ s : List Char,
      List.Forall₂ (fun c m => m = c ∨ (m = ' ' ∧ c ≠ '\n')) s (blankOut s) := by
    intro s
    refine List.forall₂_map_right_iff.mpr (List.forall₂_same.mpr fun c _ => ?_)
    by_cases hc : c = '\n'
    · exact .inl (by rw [if_pos hc, hc])
    · exact .inr ⟨if_neg hc, hc⟩
  cases lexeme with
  | plain c => exact hsame [c]
  | comment body => exact hblank body
  | string interior ending => exact .cons (.inl rfl) (List.rel_append (hblank interior) (hsame _))
  | template interior ending => exact .cons (.inl rfl) (List.rel_append (hblank interior) (hsame _))

end Lexeme

/-! ## Rows of lexemes -/

namespace Lexed

variable {front text : List Char} {lexemes lexemes' : List Lexeme}

/-- Every text is a row of lexemes, since each of them takes a character along. -/
theorem exists_lexemes (front text : List Char) : ∃ lexemes, Lexed front text lexemes := by
  induction hlength : text.length using Nat.strongRecOn generalizing front text with
  | ind n ih =>
      by_cases hnil : text = []
      · exact ⟨[], hnil ▸ .done⟩
      · obtain ⟨lexeme, rest, rfl, hlexeme⟩ := Lexeme.exists_between front hnil
        have hshorter : rest.length < n := by
          have hpos := List.length_pos_of_ne_nil (Lexeme.text_ne_nil hlexeme)
          rw [List.length_append] at hlength
          omega
        obtain ⟨lexemes, hrest⟩ := ih rest.length hshorter (front ++ lexeme.text) rest rfl
        exact ⟨lexeme :: lexemes, .next hlexeme hrest⟩

theorem unique (h : Lexed front text lexemes) (h' : Lexed front text lexemes') :
    lexemes' = lexemes := by
  induction h generalizing lexemes' with
  | done =>
      generalize htext : ([] : List Char) = text at h'
      cases h' with
      | done => rfl
      | next hlexeme =>
          exact absurd (List.append_eq_nil_iff.mp htext.symm).1 (Lexeme.text_ne_nil hlexeme)
  | @next front rest lexeme lexemes hlexeme _ ih =>
      generalize htext : lexeme.text ++ rest = text at h'
      cases h' with
      | done => exact absurd (List.append_eq_nil_iff.mp htext).1 (Lexeme.text_ne_nil hlexeme)
      | next hlexeme' hrest' =>
          obtain ⟨rfl, rfl⟩ := hlexeme.unique hlexeme' htext
          rw [ih hrest']

theorem text_eq (h : Lexed front text lexemes) : text = lexemes.flatMap Lexeme.text := by
  induction h with
  | done => rfl
  | next _ _ ih => rw [List.flatMap_cons, ← ih]

/-- Masking from program text on gives the masks of the lexemes. -/
theorem maskFrom_eq (h : Lexed front text lexemes) :
    maskFrom (.code (Text.allBlank (lineBefore front))) text = lexemes.flatMap Lexeme.masked := by
  induction h with
  | done => rfl
  | next hlexeme _ ih => rw [Lexeme.maskFrom_text hlexeme, ih, List.flatMap_cons]

end Lexed

/-- The mask of a text is as long as the text, and has a space in some places where there is no
line end and the character of the text in all others.  There is exactly one way to read the
text from left to right as a row of lexemes, and its mask is that of the row: program text is
kept, a comment is blanked up to the end of its line, and a string or template is blanked up to
what ends it, between delimiters that are kept. -/
theorem mask_of_lexemes (text : List Char) :
    (mask text).length = text.length ∧
      List.Forall₂ (fun c m => m = c ∨ (m = ' ' ∧ c ≠ '\n')) text (mask text) ∧
      ∃ lexemes, (Lexed [] text lexemes ∧ ∀ lexemes', Lexed [] text lexemes' → lexemes' = lexemes) ∧
        text = lexemes.flatMap Lexeme.text ∧ mask text = lexemes.flatMap Lexeme.masked := by
  obtain ⟨lexemes, hlexemes⟩ := Lexed.exists_lexemes [] text
  have hmask : mask text = lexemes.flatMap Lexeme.masked := hlexemes.maskFrom_eq
  refine ⟨mask_length text, ?_, lexemes, ⟨hlexemes, fun _ h => hlexemes.unique h⟩,
    hlexemes.text_eq, hmask⟩
  rw [hmask]
  nth_rewrite 1 [hlexemes.text_eq]
  exact List.rel_flatMap (List.forall₂_same.mpr fun _ _ => rfl) fun _ _ h =>
    h ▸ Lexeme.masked_text _

/-- A line end behind a backslash does not end a string, and the next one does. -/
example : mask "a \"b\\\nc\n# d\n\"\\".toList = "a \"  \n \n   \n\" ".toList := by decide

end SourceChunks
