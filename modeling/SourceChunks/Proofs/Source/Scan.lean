import Mathlib
import SourceChunks.Source.Mask

/-!
# Masking scans in two parts

A scan of two texts in a row is a scan of the first one and then, in the mode in which
that ended, a scan of the second one.  What follows the first text matters to its scan
only by its first character, and only if the first text ends with a slash.

* `scan` and `maskBefore`: the mode behind some characters, and their mask.
* `maskFrom_append`: a mask is put together from the masks of two parts.
* `scan_eq_or_comment`: where a scan that ends in program text may end if more follows.
* `scan_fresh`: program text is fresh if its line holds only white space.
* `mask_append`: behind a line end in program text, masking begins anew.
* `blank_between_quotes`: what a mask has between two quotes of a line, of which the first
  opens a string, is blank.
-/

namespace SourceChunks

/-- The mode of a scan behind some characters in front of a rest. -/
def scan : MaskMode → List Char → (rest : List Char) → MaskMode
  | mode, [], _ => mode
  | mode, c :: front, rest => scan (mode.next c (front ++ rest)) front rest

/-- The mask of some characters in front of a rest. -/
def maskBefore : MaskMode → List Char → (rest : List Char) → List Char
  | _, [], _ => []
  | mode, c :: front, rest =>
      (if mode.blanks c (front ++ rest) then ' ' else c) ::
        maskBefore (mode.next c (front ++ rest)) front rest

theorem maskFrom_append (mode : MaskMode) (front rest : List Char) :
    maskFrom mode (front ++ rest) =
      maskBefore mode front rest ++ maskFrom (scan mode front rest) rest := by
  induction front generalizing mode with
  | nil => rfl
  | cons c front ih =>
      rw [List.cons_append, maskFrom, maskBefore, scan, List.cons_append, ih]

@[simp] theorem maskBefore_nil (mode : MaskMode) (text : List Char) :
    maskBefore mode text [] = maskFrom mode text := by
  have h := maskFrom_append mode text []
  rw [List.append_nil, maskFrom.eq_1, List.append_nil] at h
  exact h.symm

@[simp] theorem maskBefore_length (mode : MaskMode) (front rest : List Char) :
    (maskBefore mode front rest).length = front.length := by
  induction front generalizing mode with
  | nil => rfl
  | cons c front ih => rw [maskBefore, List.length_cons, ih, List.length_cons]

@[simp] theorem scan_append (mode : MaskMode) (front more rest : List Char) :
    scan mode (front ++ more) rest = scan (scan mode front (more ++ rest)) more rest := by
  induction front generalizing mode with
  | nil => rfl
  | cons c front ih => rw [List.cons_append, scan, scan, ih, List.append_assoc]

theorem scan_concat (mode : MaskMode) (front : List Char) (c : Char) (rest : List Char) :
    scan mode (front ++ [c]) rest = (scan mode front (c :: rest)).next c rest := by
  rw [scan_append]
  rfl

/-! ## What follows -/

namespace MaskMode

theorem opensComment_congr (fresh : Bool) (c : Char) {rest rest' : List Char}
    (h : rest.head? = rest'.head? ∨ c ≠ '/') :
    opensComment fresh c rest = opensComment fresh c rest' := by
  rcases h with h | h
  · rw [opensComment, opensComment, h]
  · have hfalse : (c == '/') = false := by simpa using h
    rw [opensComment, opensComment, hfalse, Bool.false_and, Bool.false_and]

theorem next_congr (mode : MaskMode) (c : Char) {rest rest' : List Char}
    (h : rest.head? = rest'.head? ∨ c ≠ '/') : mode.next c rest = mode.next c rest' := by
  cases mode with
  | code fresh => rw [next, next, opensComment_congr fresh c h]
  | comment => rfl
  | string escaped => cases escaped <;> rfl
  | template => rfl

theorem blanks_congr (mode : MaskMode) (c : Char) {rest rest' : List Char}
    (h : rest.head? = rest'.head? ∨ c ≠ '/') : mode.blanks c rest = mode.blanks c rest' := by
  cases mode with
  | code fresh => rw [blanks, blanks, opensComment_congr fresh c h]
  | comment => rfl
  | string escaped => rfl
  | template => rfl

end MaskMode

theorem head_append_congr {front rest rest' : List Char} (h : rest.head? = rest'.head?) :
    (front ++ rest).head? = (front ++ rest').head? := by
  rw [List.head?_append, List.head?_append, h]

/-- What follows some characters matters only by its first character. -/
theorem scan_congr (mode : MaskMode) (front : List Char) {rest rest' : List Char}
    (h : rest.head? = rest'.head?) : scan mode front rest = scan mode front rest' := by
  induction front generalizing mode with
  | nil => rfl
  | cons c front ih =>
      rw [scan, scan, mode.next_congr c (.inl (head_append_congr h)), ih]

theorem maskBefore_congr (mode : MaskMode) (front : List Char) {rest rest' : List Char}
    (h : rest.head? = rest'.head?) : maskBefore mode front rest = maskBefore mode front rest' := by
  induction front generalizing mode with
  | nil => rfl
  | cons c front ih =>
      rw [maskBefore, maskBefore, mode.next_congr c (.inl (head_append_congr h)),
        mode.blanks_congr c (.inl (head_append_congr h)), ih]

/-- What follows a character that is no slash does not matter at all. -/
theorem scan_concat_congr (mode : MaskMode) (front : List Char) {c : Char} (hc : c ≠ '/')
    (rest rest' : List Char) : scan mode (front ++ [c]) rest = scan mode (front ++ [c]) rest' := by
  rw [scan_concat, scan_concat, MaskMode.next_congr _ c (.inr hc)]
  exact congrArg (MaskMode.next · c rest') (scan_congr mode front rfl)

theorem maskBefore_concat_congr (mode : MaskMode) (front : List Char) {c : Char} (hc : c ≠ '/')
    (rest rest' : List Char) :
    maskBefore mode (front ++ [c]) rest = maskBefore mode (front ++ [c]) rest' := by
  induction front generalizing mode with
  | nil =>
      show [if mode.blanks c rest then ' ' else c] = [if mode.blanks c rest' then ' ' else c]
      rw [mode.blanks_congr c (.inr hc)]
  | cons d front ih =>
      have hhead : (front ++ [c] ++ rest).head? = (front ++ [c] ++ rest').head? := by
        rw [List.append_assoc, List.append_assoc]
        exact head_append_congr rfl
      rw [List.cons_append, maskBefore, maskBefore, mode.next_congr d (.inl hhead),
        mode.blanks_congr d (.inl hhead), ih]

/-- A scan that ends in program text still does if more follows, unless two slashes meet. -/
theorem scan_eq_or_comment {mode : MaskMode} {front : List Char} {fresh : Bool}
    (h : scan mode front [] = .code fresh) (rest : List Char) :
    scan mode front rest = .code fresh ∨
      (scan mode front rest = .comment ∧ rest.head? = some '/') := by
  cases front using List.reverseRecOn with
  | nil => exact .inl h
  | append_singleton front c =>
      have hsame : scan mode front [c] = scan mode front (c :: rest) := scan_congr mode front rfl
      rw [scan_concat, hsame] at h
      rw [scan_concat]
      -- Only two slashes that meet can begin something that was not there before.
      by_cases hhead : rest.head? = some '/' ∧ c = '/'
      · obtain ⟨hhead, rfl⟩ := hhead
        cases hmode : scan mode front ('/' :: rest) with
        | code fresh' =>
            refine .inr ⟨?_, hhead⟩
            simp [MaskMode.next, MaskMode.opensComment, hhead]
        | comment => rw [hmode] at h; exact .inl h
        | string escaped => rw [hmode] at h; cases escaped <;> exact .inl h
        | template => rw [hmode] at h; exact .inl h
      · left
        rw [← h]
        by_cases hc : c = '/'
        · have hrest : rest.head? ≠ some '/' := fun h => hhead ⟨h, hc⟩
          cases hmode : scan mode front (c :: rest) with
          | code fresh' =>
              have hfalse : (rest.head? == some '/') = false := by simpa using hrest
              simp [MaskMode.next, MaskMode.opensComment, hfalse]
          | comment => rfl
          | string escaped => cases escaped <;> rfl
          | template => rfl
        · exact MaskMode.next_congr _ c (.inr hc)

/-! ## Lines -/

/-- The characters behind the last line end. -/
def lineBefore (front : List Char) : List Char :=
  front.rtakeWhile (· != '\n')

@[simp] theorem lineBefore_concat (front : List Char) (c : Char) :
    lineBefore (front ++ [c]) = if c = '\n' then [] else lineBefore front ++ [c] := by
  rw [lineBefore, List.rtakeWhile_concat, lineBefore]
  by_cases hc : c = '\n'
  · simp [hc]
  · simp [hc]

/-- Behind white space at the beginning of a line, it does not matter what follows. -/
theorem maskBefore_congr_of_blank (mode : MaskMode) {front : List Char}
    (hblank : Text.allBlank (lineBefore front) = true) (rest rest' : List Char) :
    maskBefore mode front rest = maskBefore mode front rest' := by
  cases front using List.reverseRecOn with
  | nil => rfl
  | append_singleton front c =>
      apply maskBefore_concat_congr
      rintro rfl
      rw [lineBefore_concat, if_neg (by decide), Text.allBlank, List.all_append,
        Bool.and_eq_true] at hblank
      exact absurd hblank.2 (by decide)

/-- Program text is fresh exactly if there is only white space before it on its line. -/
theorem scan_fresh {front rest : List Char} {fresh : Bool}
    (h : scan (.code true) front rest = .code fresh) :
    fresh = Text.allBlank (lineBefore front) := by
  -- By induction from the back: the last character tells whether its line stays blank.
  induction front using List.reverseRecOn generalizing rest fresh with
  | nil =>
      obtain rfl : true = fresh := MaskMode.code.inj h
      rfl
  | append_singleton front c ih =>
      rw [scan_concat] at h
      rw [lineBefore_concat]
      cases hmode : scan (.code true) front (c :: rest) with
      | code fresh' =>
          have hfresh' := ih hmode
          rw [hmode, MaskMode.next] at h
          split_ifs at h
          obtain rfl := MaskMode.code.inj h
          by_cases hc : c = '\n'
          · simp [hc, Text.allBlank]
          · simp [hc, hfresh', Text.allBlank]
      | comment =>
          rw [hmode, MaskMode.next] at h
          split_ifs at h with hc
          obtain rfl := MaskMode.code.inj h
          simp [hc, Text.allBlank]
      | string escaped =>
          rw [hmode] at h
          cases escaped with
          | true => contradiction
          | false =>
              rw [MaskMode.next] at h
              split_ifs at h with hquote hc
              · obtain rfl := MaskMode.code.inj h
                subst hquote
                simp [Text.allBlank, show Text.isBlank '"' = false by decide]
              · obtain rfl := MaskMode.code.inj h
                simp [hc, Text.allBlank]
      | template =>
          rw [hmode, MaskMode.next] at h
          split_ifs at h with hc
          obtain rfl := MaskMode.code.inj h
          subst hc
          simp [Text.allBlank, MaskMode.backtick, show Text.isBlank '\x60' = false by decide]

/-- Behind a line that ends in program text, masking begins anew. -/
theorem mask_append {front : List Char} {fresh : Bool}
    (h : scan (.code true) (front ++ ['\n']) [] = .code fresh) (rest : List Char) :
    mask (front ++ ['\n'] ++ rest) = mask (front ++ ['\n']) ++ mask rest := by
  have hfresh : fresh = true := by
    rw [scan_fresh h, lineBefore_concat, if_pos rfl]
    rfl
  rw [hfresh] at h
  -- A line end is no slash, so the scan of the front is the same without the rest.
  rw [mask, maskFrom_append, maskBefore_concat_congr _ _ (by decide) rest [], maskBefore_nil,
    scan_concat_congr _ _ (by decide) rest [], h]
  rfl

/-- What a mask shows, other than a space, stands in the text. -/
theorem getElem?_of_maskFrom {mode : MaskMode} {text : List Char} {i : Nat} {c : Char}
    (hc : c ≠ ' ') (h : (maskFrom mode text)[i]? = some c) : text[i]? = some c := by
  induction text generalizing mode i with
  | nil => simp [maskFrom] at h
  | cons x text ih =>
      cases i with
      | zero =>
          rw [maskFrom, List.getElem?_cons_zero, Option.some.injEq] at h
          split_ifs at h
          · exact absurd h.symm hc
          · rw [List.getElem?_cons_zero, h]
      | succ i => exact ih h

/-! ## Strings in a mask -/

/-- A mask in two parts is the mask of a text in two parts. -/
theorem exists_split_of_maskFrom {mode : MaskMode} {text front rest : List Char}
    (h : maskFrom mode text = front ++ rest) :
    ∃ front' rest', text = front' ++ rest' ∧ maskFrom (scan mode front' rest') rest' = rest := by
  refine ⟨text.take front.length, text.drop front.length, (List.take_append_drop _ _).symm, ?_⟩
  have hlength : front.length ≤ text.length := by
    rw [← maskFrom_length mode text, h, List.length_append]
    exact Nat.le_add_right _ _
  have hsplit := maskFrom_append mode (text.take front.length) (text.drop front.length)
  rw [List.take_append_drop, h] at hsplit
  refine (List.append_inj hsplit ?_).2.symm
  rw [maskBefore_length, List.length_take, Nat.min_eq_left hlength]

/-- A character of a mask, and the mask of what follows. -/
theorem maskFrom_eq_cons {mode : MaskMode} {text : List Char} {x : Char} {rest : List Char}
    (h : maskFrom mode text = x :: rest) :
    ∃ c more, text = c :: more ∧ (if mode.blanks c more then ' ' else c) = x ∧
      maskFrom (mode.next c more) more = rest := by
  cases text with
  | nil => contradiction
  | cons c more =>
      obtain ⟨hx, hrest⟩ := List.cons.inj h
      exact ⟨c, more, rfl, hx, hrest⟩

/-- A mode in which a quote, if it is left in the mask, opens a string. -/
def MaskMode.isOutside : MaskMode → Bool
  | code _ => true
  | comment => true
  | string _ => false
  | template => false

/-- Behind a character that is left in a mask there is program text, unless it is a delimiter. -/
theorem MaskMode.next_of_shown {mode : MaskMode} {c : Char} {rest : List Char}
    (h : mode.blanks c rest = false) (hline : c ≠ '\n') (hquote : c ≠ '"')
    (htick : c ≠ MaskMode.backtick) : ∃ fresh, mode.next c rest = .code fresh := by
  cases mode with
  | code fresh =>
      have hopens : MaskMode.opensComment fresh c rest = false := h
      rw [MaskMode.next, hopens, if_neg (by decide), if_neg hquote, if_neg htick]
      exact ⟨_, rfl⟩
  | comment => simp [MaskMode.blanks, hline] at h
  | string escaped => simp [MaskMode.blanks, hline, hquote] at h
  | template => simp [MaskMode.blanks, hline, htick] at h

/-- Behind a word of a mask there is program text. -/
theorem exists_code_of_visible {mode : MaskMode} {text : List Char} {x : Char} {rest : List Char}
    (h : maskFrom mode text = x :: rest) (hblank : Text.isBlank x = false) (hquote : x ≠ '"')
    (htick : x ≠ MaskMode.backtick) :
    ∃ fresh more, text = x :: more ∧ maskFrom (.code fresh) more = rest := by
  obtain ⟨c, more, rfl, hx, hrest⟩ := maskFrom_eq_cons h
  -- What is blanked would be white space, so the character is one of the text.
  by_cases hblanks : mode.blanks c more = true
  · rw [if_pos hblanks] at hx
    rw [← hx] at hblank
    exact absurd hblank (by decide)
  · rw [if_neg hblanks] at hx
    subst hx
    have hline : c ≠ '\n' := fun h => absurd (h ▸ hblank) (by decide)
    obtain ⟨fresh, hnext⟩ :=
      MaskMode.next_of_shown (Bool.eq_false_iff.mpr hblanks) hline hquote htick
    exact ⟨fresh, more, rfl, hnext ▸ hrest⟩

/-- Blanks of a mask outside of literals lead nowhere else. -/
theorem isOutside_of_blanks {mode : MaskMode} (hmode : mode.isOutside = true)
    {text blanks rest : List Char} (hblanks : ∀ x ∈ blanks, Text.isBlank x = true)
    (h : maskFrom mode text = blanks ++ rest) :
    ∃ mode' more, mode'.isOutside = true ∧ maskFrom mode' more = rest := by
  induction blanks generalizing mode text with
  | nil => exact ⟨mode, text, hmode, h⟩
  | cons x blanks ih =>
      obtain ⟨c, more, rfl, hx, hrest⟩ := maskFrom_eq_cons h
      refine ih ?_ (fun y hy => hblanks y (List.mem_cons_of_mem x hy)) hrest
      have hblank := hblanks x List.mem_cons_self
      cases mode with
      | code fresh =>
          rw [MaskMode.next]
          split_ifs with hopens hquote htick
          · rfl
          · subst hquote
            rw [MaskMode.blanks, if_neg hopens] at hx
            exact absurd (hx ▸ hblank) (by decide)
          · subst htick
            rw [MaskMode.blanks, if_neg hopens] at hx
            exact absurd (hx ▸ hblank) (by decide)
          · rfl
      | comment =>
          rw [MaskMode.next]
          split_ifs
          · rfl
          · rfl
      | string escaped => contradiction
      | template => contradiction

/-- What a string leaves in a mask up to a quote or line end is blank. -/
theorem blank_of_string {escaped : Bool} {text interior rest : List Char}
    (hquote : '"' ∉ interior) (hline : '\n' ∉ interior)
    (h : maskFrom (.string escaped) text = interior ++ rest) :
    ∀ x ∈ interior, x = ' ' := by
  induction interior generalizing escaped text with
  | nil => simp
  | cons x interior ih =>
      obtain ⟨c, more, rfl, hx, hrest⟩ := maskFrom_eq_cons h
      obtain ⟨hxquote, hquote⟩ := not_or.mp (List.mem_cons.not.mp hquote)
      obtain ⟨hxline, hline⟩ := not_or.mp (List.mem_cons.not.mp hline)
      have hcline : c ≠ '\n' := by
        rintro rfl
        rw [MaskMode.blanks, if_neg (by simp)] at hx
        exact hxline hx
      -- Only a quote or a line end would leave the string.
      have hstay : ∃ escaped', (MaskMode.string escaped).next c more = .string escaped' := by
        cases escaped with
        | true => exact ⟨false, rfl⟩
        | false =>
            have hcquote : c ≠ '"' := by
              rintro rfl
              exact hxquote hx
            exact ⟨c = '\\', by rw [MaskMode.next, if_neg hcquote, if_neg hcline]⟩
      obtain ⟨escaped', hnext⟩ := hstay
      rw [hnext] at hrest
      have hspace : x = ' ' := by
        by_cases hblanks : (MaskMode.string escaped).blanks c more = true
        · rw [if_pos hblanks] at hx
          exact hx.symm
        · have hc : escaped = false ∧ c = '"' := by simpa [MaskMode.blanks, hcline] using hblanks
          rw [if_neg hblanks, hc.2] at hx
          exact absurd hx hxquote
      intro y hy
      rcases List.mem_cons.mp hy with rfl | hy
      · exact hspace
      · exact ih hquote hline hrest y hy

/-- Behind a word and white space, a quote of a mask opens a string, so that it is blank
up to the next quote of its line. -/
theorem blank_between_quotes {text front blanks interior rest : List Char} {x : Char}
    (h : mask text = front ++ x :: (blanks ++ '"' :: (interior ++ rest)))
    (hx : Text.isBlank x = false) (hxquote : x ≠ '"') (hxtick : x ≠ MaskMode.backtick)
    (hblanks : ∀ y ∈ blanks, Text.isBlank y = true) (hquote : '"' ∉ interior)
    (hline : '\n' ∉ interior) : ∀ y ∈ interior, y = ' ' := by
  obtain ⟨front', text', -, hword⟩ := exists_split_of_maskFrom h
  obtain ⟨fresh, more, -, hmore⟩ := exists_code_of_visible hword hx hxquote hxtick
  have hcode : (MaskMode.code fresh).isOutside = true := rfl
  obtain ⟨mode', more', hmode', hopen⟩ := isOutside_of_blanks hcode hblanks hmore
  obtain ⟨c, inside, rfl, hc, hinside⟩ := maskFrom_eq_cons hopen
  -- The quote is in the mask, so that it is not in a comment.
  cases mode' with
  | code fresh =>
      rw [MaskMode.blanks] at hc
      split_ifs at hc with hopens
      · exact absurd hc (by decide)
      · subst hc
        rw [MaskMode.next, if_neg hopens, if_pos rfl] at hinside
        exact blank_of_string hquote hline hinside
  | comment =>
      rw [MaskMode.blanks] at hc
      split_ifs at hc with hcline
      · exact absurd hc (by decide)
      · subst hc
        exact absurd rfl hcline
  | string escaped => contradiction
  | template => contradiction

end SourceChunks
