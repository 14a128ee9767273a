import Mathlib
import SourceChunks.Proofs.Source.Lexemes

/-!
# Where comments begin

A scan of a text knows where a comment begins: at a character of program text that opens one.
Of the lexemes of the text these are the comments.  A stretch of program text in which no
comment begins and no quote stands is the same in the text and in its mask.

* `commentsFrom`, `comments`: the offsets at which comments begin.
* `comments_eq_lexemes`: comments begin where lexemes do that are comments.
* `slice_eq_of_uncommented`: a stretch without comments and quotes.
-/

namespace SourceChunks

/-- Whether a comment begins with a character in a mode. -/
def MaskMode.opens (mode : MaskMode) (c : Char) (rest : List Char) : Bool :=
  match mode with
  | code fresh => opensComment fresh c rest
  | _ => false

/-- Neither a quote nor a backtick begins a comment. -/
@[simp] theorem MaskMode.opens_quote (fresh : Bool) (rest : List Char) :
    (MaskMode.code fresh).opens '"' rest = false := by
  simp [opens, opensComment]

@[simp] theorem MaskMode.opens_backtick (fresh : Bool) (rest : List Char) :
    (MaskMode.code fresh).opens backtick rest = false := by
  simp [opens, opensComment, backtick]

/-- The offsets at which comments begin in the rest of a text, from a mode on. -/
def commentsFrom : MaskMode → (offset : Nat) → List Char → List Nat
  | _, _, [] => []
  | mode, offset, c :: rest =>
      if mode.opens c rest then offset :: commentsFrom (mode.next c rest) (offset + 1) rest
      else commentsFrom (mode.next c rest) (offset + 1) rest

/-- The offsets at which comments begin in a text. -/
def comments (text : List Char) : List Nat :=
  commentsFrom (.code true) 0 text

/-! ## Comments among the lexemes -/

namespace Lexeme

/-- Whether a lexeme is a comment. -/
def isComment : Lexeme → Bool
  | comment _ => true
  | _ => false

/-- The offsets at which comments begin in a row of lexemes that begins at an offset. -/
def commentsFrom : (offset : Nat) → List Lexeme → List Nat
  | _, [] => []
  | offset, lexeme :: lexemes =>
      if lexeme.isComment then offset :: commentsFrom (offset + lexeme.text.length) lexemes
      else commentsFrom (offset + lexeme.text.length) lexemes

end Lexeme

section

variable {mode : MaskMode} {offset : Nat} {front rest : List Char} {lexeme : Lexeme}

theorem commentsFrom_cons_of_not_opens {c : Char} (h : mode.opens c rest = false) :
    commentsFrom mode offset (c :: rest) =
      commentsFrom (mode.next c rest) (offset + 1) rest := by
  rw [commentsFrom, h]
  rfl

theorem commentsFrom_comment {body : List Char} (hbody : '\n' ∉ body) :
    commentsFrom .comment offset (body ++ rest) =
      commentsFrom .comment (offset + body.length) rest := by
  induction body generalizing offset with
  | nil => rfl
  | cons c body ih =>
      obtain ⟨hc, hbody⟩ := not_or.mp (List.mem_cons.not.mp hbody)
      rw [List.cons_append, commentsFrom_cons_of_not_opens rfl,
        show MaskMode.comment.next c _ = .comment from if_neg (Ne.symm hc), ih hbody,
        List.length_cons, Nat.add_assoc, Nat.add_comm 1]

theorem commentsFrom_stringBody {body : List Char} (h : StringBody body) :
    commentsFrom (.string false) offset (body ++ rest) =
      commentsFrom (.string false) (offset + body.length) rest := by
  induction h generalizing offset with
  | nil => rfl
  | @plain c more hquote hslash hline _ ih =>
      have hstay : (MaskMode.string false).next c (more ++ rest) = .string false := by
        simp [MaskMode.next, hquote, hline, hslash]
      rw [List.cons_append, commentsFrom_cons_of_not_opens rfl, hstay, ih, List.length_cons,
        Nat.add_assoc, Nat.add_comm 1]
  | @escaped c more _ ih =>
      have hescape : (MaskMode.string false).next '\\' (c :: (more ++ rest)) = .string true := rfl
      have hback : (MaskMode.string true).next c (more ++ rest) = .string false := rfl
      rw [List.cons_append, List.cons_append, commentsFrom_cons_of_not_opens rfl, hescape,
        commentsFrom_cons_of_not_opens rfl, hback, ih, List.length_cons, List.length_cons]
      congr 1
      omega

theorem commentsFrom_templateBody {body : List Char} (h : MaskMode.backtick ∉ body) :
    commentsFrom .template offset (body ++ rest) =
      commentsFrom .template (offset + body.length) rest := by
  induction body generalizing offset with
  | nil => rfl
  | cons c body ih =>
      obtain ⟨hc, hbody⟩ := not_or.mp (List.mem_cons.not.mp h)
      rw [List.cons_append, commentsFrom_cons_of_not_opens rfl,
        show MaskMode.template.next c _ = .template from if_neg (Ne.symm hc), ih hbody,
        List.length_cons, Nat.add_assoc, Nat.add_comm 1]

/-- Behind a comment there is a line end, behind which program text is fresh anyway. -/
theorem commentsFrom_comment_end (hrest : rest = [] ∨ rest.head? = some '\n') (fresh : Bool) :
    commentsFrom .comment offset rest = commentsFrom (.code fresh) offset rest := by
  cases rest with
  | nil => rfl
  | cons c rest =>
      obtain rfl : c = '\n' := by simpa using hrest
      rfl

/-- From its opening quote, the comments behind a string. -/
theorem commentsFrom_string {interior : List Char} {ending : Option Char}
    (h : (Lexeme.string interior ending).Between front rest) :
    commentsFrom (.string false) offset (interior ++ ending.toList ++ rest) =
      commentsFrom
        (.code (Text.allBlank (lineBefore (front ++ '"' :: (interior ++ ending.toList)))))
        (offset + (interior ++ ending.toList).length) rest := by
  rw [List.append_assoc]
  cases ending with
  | some c =>
      obtain ⟨hbody, hc⟩ := h
      have hblank : Text.isBlank c = false ∨ c = '\n' := by
        rcases hc with rfl | rfl
        · exact .inl rfl
        · exact .inr rfl
      rw [commentsFrom_stringBody hbody, Option.toList_some,
        Lexeme.allBlank_lineBefore_literal hblank, List.length_append]
      rcases hc with rfl | rfl
      · rfl
      · rfl
  | none =>
      obtain ⟨rfl, hbody | ⟨body, rfl, hbody⟩⟩ := h
      · rw [commentsFrom_stringBody hbody]
        rfl
      · rw [List.append_assoc, commentsFrom_stringBody hbody]
        rfl

/-- From its opening backtick, the comments behind a template. -/
theorem commentsFrom_template {interior : List Char} {ending : Option Char}
    (h : (Lexeme.template interior ending).Between front rest) :
    commentsFrom .template offset (interior ++ ending.toList ++ rest) =
      commentsFrom
        (.code (Text.allBlank
          (lineBefore (front ++ MaskMode.backtick :: (interior ++ ending.toList)))))
        (offset + (interior ++ ending.toList).length) rest := by
  rw [List.append_assoc]
  cases ending with
  | some c =>
      obtain ⟨hinterior, rfl⟩ := h
      rw [commentsFrom_templateBody hinterior, Option.toList_some,
        Lexeme.allBlank_lineBefore_literal (.inl rfl), List.length_append]
      rfl
  | none =>
      obtain ⟨hinterior, rfl⟩ := h
      rw [commentsFrom_templateBody hinterior]
      rfl

/-- The comments of a text that begins with a lexeme. -/
theorem commentsFrom_text (h : lexeme.Between front rest) :
    commentsFrom (.code (Text.allBlank (lineBefore front))) offset (lexeme.text ++ rest) =
      (if lexeme.isComment then [offset] else []) ++
        commentsFrom (.code (Text.allBlank (lineBefore (front ++ lexeme.text))))
          (offset + lexeme.text.length) rest := by
  obtain ⟨c, more, hhead⟩ := List.exists_cons_of_ne_nil (Lexeme.text_ne_nil h)
  have hnext := h.next hhead
  have hlength : offset + (c :: more).length = offset + 1 + more.length := by
    rw [List.length_cons]
    omega
  rw [hhead, List.cons_append, commentsFrom, hnext, hlength]
  cases lexeme with
  | plain d =>
      obtain ⟨rfl, rfl⟩ := List.cons.inj hhead
      have hopens : (MaskMode.code (Text.allBlank (lineBefore front))).opens d rest = false :=
        Bool.eq_false_iff.mpr (opensComment_iff.not.mp h.1)
      rw [List.nil_append, hopens, Lexeme.allBlank_lineBefore_concat]
      rfl
  | comment body =>
      obtain ⟨⟨d, body, rfl, hopens⟩, hline, hrest⟩ := h
      obtain ⟨rfl, rfl⟩ := List.cons.inj hhead
      obtain ⟨-, hline⟩ := not_or.mp (List.mem_cons.not.mp hline)
      have hopens : (MaskMode.code (Text.allBlank (lineBefore front))).opens d (body ++ rest) =
        true := opensComment_iff.mp hopens
      rw [hopens, Lexeme.within, commentsFrom_comment hline,
        commentsFrom_comment_end hrest (Text.allBlank (lineBefore (front ++ d :: body)))]
      rfl
  | string interior ending =>
      obtain ⟨rfl, rfl⟩ := List.cons.inj hhead
      rw [MaskMode.opens_quote, Lexeme.within, commentsFrom_string h]
      rfl
  | template interior ending =>
      obtain ⟨rfl, rfl⟩ := List.cons.inj hhead
      rw [MaskMode.opens_backtick, Lexeme.within, commentsFrom_template h]
      rfl

theorem commentsFrom_eq_lexemes {text : List Char} {lexemes : List Lexeme}
    (h : Lexed front text lexemes) :
    commentsFrom (.code (Text.allBlank (lineBefore front))) offset text =
      Lexeme.commentsFrom offset lexemes := by
  induction h generalizing offset with
  | done => rfl
  | @next front rest lexeme lexemes hlexeme _ ih =>
      rw [commentsFrom_text hlexeme, ih, Lexeme.commentsFrom]
      split_ifs
      · rfl
      · rfl

/-- Comments begin where the lexemes of a text do that are comments. -/
theorem comments_eq_lexemes {text : List Char} {lexemes : List Lexeme}
    (h : Lexed [] text lexemes) : comments text = Lexeme.commentsFrom 0 lexemes :=
  commentsFrom_eq_lexemes h

end

/-- Two slashes in a string begin no comment, and neither do those in a comment. -/
example : comments "a \"//\" // b // c\n # d".toList = [7, 18] := by decide

/-! ## Stretches without comments -/

/-- The characters that open and close strings and templates. -/
def quotes : List Char :=
  ['"', MaskMode.backtick]

theorem le_of_mem_commentsFrom {mode : MaskMode} {offset i : Nat} {text : List Char}
    (h : i ∈ commentsFrom mode offset text) : offset ≤ i := by
  induction text generalizing mode offset with
  | nil => contradiction
  | cons c text ih =>
      rw [commentsFrom] at h
      split_ifs at h
      · rcases List.mem_cons.mp h with rfl | h
        · exact le_rfl
        · exact (Nat.le_succ _).trans (ih h)
      · exact (Nat.le_succ _).trans (ih h)

/-- The comments behind the front of a text. -/
theorem mem_commentsFrom_append {mode : MaskMode} {offset i : Nat} {front rest : List Char}
    (h : i ∈ commentsFrom (scan mode front rest) (offset + front.length) rest) :
    i ∈ commentsFrom mode offset (front ++ rest) := by
  induction front generalizing mode offset with
  | nil => exact h
  | cons c front ih =>
      rw [List.length_cons, Nat.add_comm front.length, ← Nat.add_assoc] at h
      have hmem := ih h
      rw [List.cons_append, commentsFrom]
      split_ifs
      · exact List.mem_cons_of_mem _ hmem
      · exact hmem

/-- A mask from some place on is that of a scan which has come there. -/
theorem drop_mask {text : List Char} {start : Nat} (hstart : start ≤ text.length) :
    (mask text).drop start =
      maskFrom (scan (.code true) (text.take start) (text.drop start)) (text.drop start) := by
  have hsplit := maskFrom_append (.code true) (text.take start) (text.drop start)
  rw [List.take_append_drop] at hsplit
  rw [mask, hsplit]
  exact List.drop_left' (by rw [maskBefore_length, List.length_take_of_le hstart])

/-- The comments from some place on are comments of the text. -/
theorem mem_comments_of_drop {text : List Char} {start i : Nat} (hstart : start ≤ text.length)
    (h : i ∈ commentsFrom (scan (.code true) (text.take start) (text.drop start)) start
      (text.drop start)) : i ∈ comments text := by
  have hlength : (text.take start).length = start := List.length_take_of_le hstart
  rw [comments, ← List.take_append_drop start text]
  apply mem_commentsFrom_append
  rwa [hlength, Nat.zero_add]

/-- Program text without comments and quotes is left as it is. -/
theorem take_maskFrom_of_uncommented {fresh : Bool} (offset : Nat) {n : Nat} {text : List Char}
    (hquotes : ∀ x ∈ (maskFrom (.code fresh) text).take n, x ∉ quotes)
    (hcomments : ∀ i ∈ commentsFrom (.code fresh) offset text, offset + n ≤ i) :
    (maskFrom (.code fresh) text).take n = text.take n := by
  induction text generalizing fresh offset n with
  | nil => rfl
  | cons c text ih =>
      cases n with
      | zero => rfl
      | succ n =>
          have hopens : (MaskMode.code fresh).opens c text = false := by
            by_contra hopens
            have hmem : offset ∈ commentsFrom (.code fresh) offset (c :: text) := by
              rw [commentsFrom, if_pos (by simpa using hopens)]
              exact List.mem_cons_self
            have hle := hcomments offset hmem
            omega
          have hblanks : (MaskMode.code fresh).blanks c text = false := hopens
          have hnone : MaskMode.opensComment fresh c text = false := hopens
          rw [maskFrom, hblanks, if_neg Bool.false_ne_true, List.take_succ_cons] at hquotes ⊢
          obtain ⟨hc, hquotes⟩ := List.forall_mem_cons.mp hquotes
          have hquote : c ≠ '"' := fun h => hc (by simp [quotes, h])
          have htick : c ≠ MaskMode.backtick := fun h => hc (by simp [quotes, h])
          have hnext : (MaskMode.code fresh).next c text =
              .code (c = '\n' || (fresh && Text.isBlank c)) := by
            rw [MaskMode.next, hnone, if_neg Bool.false_ne_true, if_neg hquote, if_neg htick]
          rw [commentsFrom_cons_of_not_opens hopens, hnext] at hcomments
          rw [hnext] at hquotes ⊢
          rw [List.take_succ_cons]
          refine congrArg (c :: ·) (ih (offset + 1) hquotes fun i hi => ?_)
          have hle := hcomments i hi
          omega

/-- The same in any mode in which the first character is left in the mask. -/
theorem take_maskFrom_of_visible {mode : MaskMode} (offset : Nat) {n : Nat} {text : List Char}
    {x : Char}
    (hx : (maskFrom mode text).head? = some x) (hvisible : Text.isBlank x = false)
    (hquotes : ∀ y ∈ (maskFrom mode text).take n, y ∉ quotes)
    (hcomments : ∀ i ∈ commentsFrom mode offset text, i < offset ∨ offset + n ≤ i) :
    (maskFrom mode text).take n = text.take n := by
  cases n with
  | zero => rfl
  | succ n =>
      obtain ⟨more, hmore⟩ := List.head?_eq_some_iff.mp hx
      obtain ⟨c, rest, rfl, hshown, -⟩ := maskFrom_eq_cons hmore
      have hblanks : mode.blanks c rest = false := by
        by_contra hblanks
        rw [if_pos (by simpa using hblanks)] at hshown
        rw [← hshown] at hvisible
        exact absurd hvisible (by decide)
      rw [hblanks, if_neg Bool.false_ne_true] at hshown
      have hline : c ≠ '\n' := by
        rintro rfl
        rw [← hshown] at hvisible
        exact absurd hvisible (by decide)
      rw [maskFrom, hblanks, if_neg Bool.false_ne_true, List.take_succ_cons] at hquotes ⊢
      obtain ⟨hc, hquotes⟩ := List.forall_mem_cons.mp hquotes
      obtain ⟨fresh, hnext⟩ := MaskMode.next_of_shown hblanks hline
        (fun h => hc (by simp [quotes, h])) (fun h => hc (by simp [quotes, h]))
      rw [hnext] at hquotes ⊢
      have hbehind : ∀ i ∈ commentsFrom (.code fresh) (offset + 1) rest, offset + 1 + n ≤ i := by
        intro i hi
        have hmem : i ∈ commentsFrom mode offset (c :: rest) := by
          rw [commentsFrom, hnext]
          split_ifs
          · exact List.mem_cons_of_mem _ hi
          · exact hi
        have hle := le_of_mem_commentsFrom hi
        rcases hcomments i hmem with hlt | hstop
        · omega
        · omega
      rw [List.take_succ_cons, take_maskFrom_of_uncommented (offset + 1) hquotes hbehind]

/-- A stretch that begins with a visible character of program text is the same in a text and in
its mask, if no comment begins in it and the mask has no quote there. -/
theorem slice_eq_of_uncommented {text : List Char} {span : Span} {x : Char}
    (hspan : span.start ≤ span.stop) (hx : (mask text)[span.start]? = some x)
    (hvisible : Text.isBlank x = false) (hquotes : ∀ y ∈ span.slice (mask text), y ∉ quotes)
    (hcomments : ∀ i ∈ comments text, i < span.start ∨ span.stop ≤ i) :
    span.slice text = span.slice (mask text) := by
  obtain ⟨hlt, -⟩ := List.getElem?_eq_some_iff.mp hx
  rw [mask_length] at hlt
  have hhead : ((mask text).drop span.start).head? = some x := by rwa [List.head?_drop]
  rw [Span.slice, drop_mask hlt.le] at hquotes
  rw [drop_mask hlt.le] at hhead
  rw [Span.slice, Span.slice, drop_mask hlt.le]
  refine (take_maskFrom_of_visible span.start hhead hvisible hquotes fun i hi => ?_).symm
  have houtside := hcomments i (mem_comments_of_drop hlt.le hi)
  omega

end SourceChunks
