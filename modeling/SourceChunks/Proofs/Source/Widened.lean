import Mathlib
import SourceChunks.Proofs.Source.Blocks
import SourceChunks.Proofs.Text.Returns
import SourceChunks.Source.Mask

/-!
# Wide line ends

A carriage return in front of each line feed moves all that stands behind it by one more
character.  A mask keeps the carriage return or blanks it, so in a mask the line ends are wide
in either way.  Searching for brackets passes over white space, and so finds the same brackets
at the offsets to which they have moved.

* `wideOffset`: the offset to which a place of a text moves.
* `slice_withReturns`: what a stretch of the text becomes.
* `Widened`: one text has wide line ends, where the other one has line feeds.
* `widened_withReturns`, `Widened.maskFrom`: texts with carriage returns, and their masks.
* `Widened.closingFrom`, `Widened.outermostFrom`: brackets and blocks move with the text.
* `Widens`: the same for whole texts, with all their stretches.
-/

namespace SourceChunks

open Text

/-- The stretch between the places to which the ends of a stretch move. -/
def Span.place (φ : Nat → Nat) (span : Span) : Span :=
  ⟨φ span.start, φ span.stop⟩

/-! ## Offsets -/

/-- The offset to which a place moves if every line feed gets a carriage return. -/
def wideOffset (text : List Char) (offset : Nat) : Nat :=
  offset + (text.take offset).count '\n'

theorem strictMono_wideOffset (text : List Char) : StrictMono (wideOffset text) := by
  refine strictMono_nat_of_lt_succ fun n => ?_
  have hcount := (List.take_sublist_take_left (l := text) (Nat.le_add_right n 1)).count_le '\n'
  rw [wideOffset, wideOffset]
  omega

theorem wideOffset_append (front : List Char) (c : Char) (rest : List Char) :
    wideOffset (front ++ c :: rest) (front.length + 1) =
      wideOffset (front ++ c :: rest) front.length + if c = '\n' then 2 else 1 := by
  have htake : (front ++ c :: rest).take (front.length + 1) = front ++ [c] := by
    rw [List.take_append, List.take_of_length_le (Nat.le_succ _), Nat.add_sub_cancel_left]
    rfl
  rw [wideOffset, wideOffset, htake, List.take_left, List.count_append, List.count_singleton]
  split_ifs <;> simp_all <;> omega

theorem wideOffset_eq_length {text : List Char} {n : Nat} (hn : n ≤ text.length) :
    wideOffset text n = (withReturns (text.take n)).length := by
  rw [length_withReturns, List.length_take_of_le hn, wideOffset]

@[simp] theorem take_withReturns (text : List Char) (n : Nat) :
    (withReturns text).take (wideOffset text n) = withReturns (text.take n) := by
  rcases Nat.le_total n text.length with hn | hn
  · have hsplit := withReturns_append (text.take n) (text.drop n)
    rw [List.take_append_drop] at hsplit
    rw [hsplit, wideOffset_eq_length hn, List.take_left]
  · rw [List.take_of_length_le hn, List.take_of_length_le]
    rw [length_withReturns, wideOffset, List.take_of_length_le hn]
    omega

@[simp] theorem drop_withReturns (text : List Char) (n : Nat) :
    (withReturns text).drop (wideOffset text n) = withReturns (text.drop n) := by
  rcases Nat.le_total n text.length with hn | hn
  · have hsplit := withReturns_append (text.take n) (text.drop n)
    rw [List.take_append_drop] at hsplit
    rw [hsplit, wideOffset_eq_length hn, List.drop_left]
  · rw [List.drop_of_length_le hn, List.drop_of_length_le]
    · rfl
    · rw [length_withReturns, wideOffset, List.take_of_length_le hn]
      omega

/-- What a stretch of a text becomes. -/
@[simp] theorem slice_withReturns (text : List Char) (span : Span) :
    (span.place (wideOffset text)).slice (withReturns text) = withReturns (span.slice text) := by
  rw [Span.slice, Span.slice, Span.place, ← List.drop_take, ← List.drop_take, take_withReturns]
  rcases Nat.le_total span.start span.stop with hle | hle
  · have hoffset : wideOffset text span.start = wideOffset (text.take span.stop) span.start := by
      rw [wideOffset, wideOffset, List.take_take, Nat.min_eq_left hle]
    rw [hoffset, drop_withReturns]
  · have hlength : (withReturns (text.take span.stop)).length ≤ wideOffset text span.stop := by
      rw [← take_withReturns]
      exact List.length_take_le _ _
    rw [List.drop_of_length_le (hlength.trans ((strictMono_wideOffset text).monotone hle)),
      List.drop_of_length_le ((List.length_take_le _ _).trans hle)]
    rfl

/-! ## Wide line ends -/

/-- What a wide line end may begin with: a carriage return, or the space to which it was
blanked. -/
def IsFiller (b : Char) : Prop :=
  b = ' ' ∨ b = '\r'

theorem IsFiller.isBlank {b : Char} (hb : IsFiller b) : isBlank b = true := by
  rcases hb with rfl | rfl
  · decide
  · decide

/-- The second text is the first one with wide line ends; `φ` tells the offsets to which the
places of the first one, which begins at an offset, have moved. -/
inductive Widened (φ : Nat → Nat) : (offset : Nat) → List Char → List Char → Prop
  | nil {offset : Nat} : Widened φ offset [] []
  | plain {offset : Nat} {c : Char} {s s' : List Char} (hc : c ≠ '\n')
      (hφ : φ (offset + 1) = φ offset + 1) (h : Widened φ (offset + 1) s s') :
      Widened φ offset (c :: s) (c :: s')
  | newline {offset : Nat} {b : Char} {s s' : List Char} (hb : IsFiller b)
      (hφ : φ (offset + 1) = φ offset + 2) (h : Widened φ (offset + 1) s s') :
      Widened φ offset ('\n' :: s) (b :: '\n' :: s')

theorem widened_withReturns_of_append (front rest : List Char) :
    Widened (wideOffset (front ++ rest)) front.length rest (withReturns rest) := by
  induction rest generalizing front with
  | nil => exact .nil
  | cons c rest ih =>
      have hnext := ih (front ++ [c])
      rw [List.append_assoc, List.length_append] at hnext
      have hoffset := wideOffset_append front c rest
      by_cases hc : c = '\n'
      · subst hc
        exact .newline (.inr rfl) hoffset hnext
      · rw [if_neg hc] at hoffset
        rw [withReturns_cons hc]
        exact .plain hc hoffset hnext

/-- With carriage returns, a text has wide line ends. -/
theorem widened_withReturns (text : List Char) :
    Widened (wideOffset text) 0 text (withReturns text) :=
  widened_withReturns_of_append [] text

namespace Widened

variable {φ : Nat → Nat} {offset : Nat} {s s' : List Char}

theorem alike (h : Widened φ offset s s') : Alike s s' := by
  induction h with
  | nil => exact .nil
  | plain hc hφ h ih => exact .same _ ih
  | newline hb hφ h ih => exact .wide (by decide) hb.isBlank (by decide) ih

theorem length (h : Widened φ offset s s') : φ (offset + s.length) = φ offset + s'.length := by
  induction h with
  | nil => rfl
  | plain hc hφ h ih =>
      simp only [List.length_cons]
      rw [Nat.add_comm _ 1, ← Nat.add_assoc, ih, hφ]
      omega
  | newline hb hφ h ih =>
      simp only [List.length_cons]
      rw [Nat.add_comm _ 1, ← Nat.add_assoc, ih, hφ]
      omega

/-- A text without line ends is the same. -/
theorem eq_self (h : Widened φ offset s s') (hs : '\n' ∉ s) : s' = s := by
  induction h with
  | nil => rfl
  | plain hc hφ h ih => rw [ih fun hmem => hs (List.mem_cons_of_mem _ hmem)]
  | newline hb hφ h ih => exact absurd List.mem_cons_self hs

theorem newline_mem (h : Widened φ offset s s') (hs : '\n' ∈ s) : '\n' ∈ s' := by
  induction h with
  | nil => exact hs
  | plain hc hφ h ih =>
      rcases List.mem_cons.mp hs with heq | hs
      · exact absurd heq.symm hc
      · exact List.mem_cons_of_mem _ (ih hs)
  | newline hb hφ h ih => exact List.mem_cons_of_mem _ List.mem_cons_self

/-- What is in front of the first text, unless it is white space, is in front of the second
one, and behind it the line ends are wide again. -/
theorem of_cons {c : Char} (hc : c ≠ '\n') (h : Widened φ offset (c :: s) s') :
    φ (offset + 1) = φ offset + 1 ∧ ∃ rest, s' = c :: rest ∧ Widened φ (offset + 1) s rest := by
  cases h with
  | plain hc hφ h => exact ⟨hφ, _, rfl, h⟩
  | newline hb hφ h => exact absurd rfl hc

theorem head?_eq_some {c : Char} (hc : isBlank c = false) (h : Widened φ offset s s') :
    s'.head? = some c ↔ s.head? = some c := by
  cases h with
  | nil => rfl
  | plain hc' hφ h => rfl
  | newline hb hφ h =>
      constructor
      · exact fun heq => absurd (Option.some.inj heq) (ne_of_isBlank hb.isBlank hc)
      · exact fun heq => absurd (Option.some.inj heq) (ne_of_isBlank isBlank_newline hc)

/-- Behind some characters that do not end a line, the line ends are wide again. -/
theorem drop_of_isPrefixOf {word : List Char} (hword : '\n' ∉ word) (h : Widened φ offset s s')
    (hs : word.isPrefixOf s = true) :
    φ (offset + word.length) = φ offset + word.length ∧
      Widened φ (offset + word.length) (s.drop word.length) (s'.drop word.length) := by
  induction word generalizing offset s s' with
  | nil => exact ⟨rfl, h⟩
  | cons y word ih =>
      rw [List.mem_cons, not_or] at hword
      cases s with
      | nil => contradiction
      | cons c s =>
          rw [List.isPrefixOf, Bool.and_eq_true, beq_iff_eq] at hs
          obtain ⟨rfl, hs⟩ := hs
          obtain ⟨hφ, rest, rfl, hrest⟩ := h.of_cons (Ne.symm hword.1)
          obtain ⟨hoffset, hdrop⟩ := ih hword.2 hrest hs
          rw [Nat.add_right_comm] at hoffset hdrop
          exact ⟨by rw [List.length_cons, ← Nat.add_assoc]; omega, hdrop⟩

/-- White space in front of both texts can be trimmed off. -/
theorem trimLeft (h : Widened φ offset s s') :
    ∃ n n', s.length = n + (Text.trimLeft s).length ∧ s'.length = n' + (Text.trimLeft s').length ∧
      φ (offset + n) = φ offset + n' ∧
        Widened φ (offset + n) (Text.trimLeft s) (Text.trimLeft s') := by
  induction h with
  | nil => exact ⟨0, 0, rfl, rfl, rfl, .nil⟩
  | @plain offset c s s' hc hφ h ih =>
      rw [trimLeft_cons, trimLeft_cons]
      split_ifs
      · obtain ⟨n, n', hn, hn', hstep, hrest⟩ := ih
        rw [Nat.add_right_comm] at hstep hrest
        exact ⟨n + 1, n' + 1, by rw [List.length_cons]; omega, by rw [List.length_cons]; omega,
          by rw [← Nat.add_assoc]; omega, hrest⟩
      · exact ⟨0, 0, by omega, by omega, rfl, .plain hc hφ h⟩
  | @newline offset b s s' hb hφ h ih =>
      rw [trimLeft_cons, trimLeft_cons, trimLeft_cons, if_pos isBlank_newline, if_pos hb.isBlank,
        if_pos isBlank_newline]
      obtain ⟨n, n', hn, hn', hstep, hrest⟩ := ih
      rw [Nat.add_right_comm] at hstep hrest
      exact ⟨n + 1, n' + 2, by rw [List.length_cons]; omega,
        by rw [List.length_cons, List.length_cons]; omega, by rw [← Nat.add_assoc]; omega, hrest⟩

/-- Behind the white space, what is left of both texts is reached by the lengths of what is
trimmed off. -/
theorem behind_trimLeft (h : Widened φ offset s s') :
    φ (offset + (s.length - (Text.trimLeft s).length)) =
        φ offset + (s'.length - (Text.trimLeft s').length) ∧
      Widened φ (offset + (s.length - (Text.trimLeft s).length)) (Text.trimLeft s)
        (Text.trimLeft s') := by
  obtain ⟨n, n', hn, hn', hstep, hafter⟩ := h.trimLeft
  rw [show s.length - (Text.trimLeft s).length = n by omega,
    show s'.length - (Text.trimLeft s').length = n' by omega]
  exact ⟨hstep, hafter⟩

/-! ### Stretches -/

/-- The two texts can be taken apart at a place. -/
theorem exists_split (h : Widened φ offset s s') {n : Nat} (hn : n ≤ s.length) :
    ∃ front rest, s' = front ++ rest ∧ φ (offset + n) = φ offset + front.length ∧
      Widened φ offset (s.take n) front ∧ Widened φ (offset + n) (s.drop n) rest := by
  induction h generalizing n with
  | nil =>
      obtain rfl := Nat.le_zero.mp hn
      exact ⟨[], [], rfl, rfl, .nil, .nil⟩
  | @plain offset c s s' hc hφ h ih =>
      cases n with
      | zero => exact ⟨[], _, rfl, rfl, .nil, .plain hc hφ h⟩
      | succ n =>
          obtain ⟨front, rest, rfl, hstep, hfront, hrest⟩ := ih (Nat.le_of_succ_le_succ hn)
          rw [Nat.add_right_comm] at hstep hrest
          exact ⟨c :: front, rest, rfl, by rw [List.length_cons, ← Nat.add_assoc]; omega,
            .plain hc hφ hfront, hrest⟩
  | @newline offset b s s' hb hφ h ih =>
      cases n with
      | zero => exact ⟨[], _, rfl, rfl, .nil, .newline hb hφ h⟩
      | succ n =>
          obtain ⟨front, rest, rfl, hstep, hfront, hrest⟩ := ih (Nat.le_of_succ_le_succ hn)
          rw [Nat.add_right_comm] at hstep hrest
          exact ⟨b :: '\n' :: front, rest, rfl,
            by rw [List.length_cons, List.length_cons, ← Nat.add_assoc]; omega,
            .newline hb hφ hfront, hrest⟩

theorem take (hmono : StrictMono φ) (h : Widened φ offset s s') (n : Nat) :
    Widened φ offset (s.take n) (s'.take (φ (offset + n) - φ offset)) := by
  rcases Nat.le_total n s.length with hn | hn
  · obtain ⟨front, rest, rfl, hstep, hfront, -⟩ := h.exists_split hn
    rwa [hstep, Nat.add_sub_cancel_left, List.take_left]
  · have hlength := h.length
    have hle := hmono.monotone (Nat.add_le_add_left hn offset)
    rwa [List.take_of_length_le hn, List.take_of_length_le (by omega)]

theorem drop (hmono : StrictMono φ) (h : Widened φ offset s s') (n : Nat) :
    Widened φ (offset + n) (s.drop n) (s'.drop (φ (offset + n) - φ offset)) := by
  rcases Nat.le_total n s.length with hn | hn
  · obtain ⟨front, rest, rfl, hstep, -, hrest⟩ := h.exists_split hn
    rwa [hstep, Nat.add_sub_cancel_left, List.drop_left]
  · have hlength := h.length
    have hle := hmono.monotone (Nat.add_le_add_left hn offset)
    rw [List.drop_of_length_le hn, List.drop_of_length_le (by omega)]
    exact .nil

/-- The last characters are the same. -/
theorem getLast?_eq (h : Widened φ offset s s') : s'.getLast? = s.getLast? := by
  induction h with
  | nil => rfl
  | plain hc hφ h ih => rw [List.getLast?_cons, List.getLast?_cons, ih]
  | newline hb hφ h ih =>
      rw [List.getLast?_cons, List.getLast?_cons, List.getLast?_cons, ih]
      rfl

/-- Behind a character that does not end a line, no more has moved. -/
theorem succ_of_getElem? (h : Widened φ offset s s') {n : Nat} {c : Char} (hc : c ≠ '\n')
    (hs : s[n]? = some c) : φ (offset + n + 1) = φ (offset + n) + 1 := by
  have hn : n < s.length := (List.getElem?_eq_some_iff.mp hs).1
  obtain ⟨front, rest, rfl, -, -, hrest⟩ := h.exists_split hn.le
  rw [← List.getElem_cons_drop hn] at hrest
  rw [List.getElem?_eq_getElem hn, Option.some.injEq] at hs
  exact (hrest.of_cons (hs ▸ hc)).1

end Widened

/-! ## Masks -/

namespace MaskMode

variable {mode : MaskMode} {rest : List Char}

/-- A filler leaves every mode as it is, unless it belongs to a backslash. -/
theorem next_filler {b : Char} (hb : IsFiller b) (hmode : mode ≠ .string true) :
    mode.next b rest = mode := by
  rcases hb with rfl | rfl
  all_goals
    cases mode with
    | code fresh => cases fresh <;> rfl
    | comment => rfl
    | string escaped =>
        cases escaped with
        | false => rfl
        | true => exact absurd rfl hmode
    | template => rfl

@[simp] theorem blanks_newline (mode : MaskMode) (rest : List Char) :
    mode.blanks '\n' rest = false := by
  cases mode <;> rfl

theorem opensComment_widened {φ : Nat → Nat} {offset : Nat} {s s' : List Char}
    (h : Widened φ offset s s') (fresh : Bool) (c : Char) :
    opensComment fresh c s' = opensComment fresh c s := by
  have hhead : (s'.head? == some '/') = (s.head? == some '/') := by
    rw [Bool.eq_iff_iff, beq_iff_eq, beq_iff_eq, h.head?_eq_some (by decide)]
  rw [opensComment, opensComment, hhead]

theorem next_widened {φ : Nat → Nat} {offset : Nat} {s s' : List Char}
    (h : Widened φ offset s s') (mode : MaskMode) (c : Char) : mode.next c s' = mode.next c s := by
  cases mode with
  | code fresh => rw [next, next, opensComment_widened h]
  | comment => rfl
  | string escaped => cases escaped <;> rfl
  | template => rfl

theorem blanks_widened {φ : Nat → Nat} {offset : Nat} {s s' : List Char}
    (h : Widened φ offset s s') (mode : MaskMode) (c : Char) : mode.blanks c s' = mode.blanks c s := by
  cases mode with
  | code fresh => rw [blanks, blanks, opensComment_widened h]
  | comment => rfl
  | string escaped => rfl
  | template => rfl

/-- Only a backslash takes the character behind it with it. -/
theorem eq_backslash_of_next {c : Char} (h : mode.next c rest = .string true) : c = '\\' := by
  cases mode with
  | code fresh =>
      rw [next] at h
      split_ifs at h
      contradiction
  | comment =>
      rw [next] at h
      split_ifs at h
  | string escaped =>
      cases escaped with
      | true => exact absurd (MaskMode.string.inj h) (by decide)
      | false =>
          rw [next] at h
          split_ifs at h
          exact of_decide_eq_true (MaskMode.string.inj h)
  | template =>
      rw [next] at h
      split_ifs at h

end MaskMode

/-- A mask shows the line feeds of its text. -/
theorem getElem?_maskFrom_newline {mode : MaskMode} {text : List Char} {i : Nat}
    (h : text[i]? = some '\n') : (maskFrom mode text)[i]? = some '\n' := by
  induction text generalizing mode i with
  | nil => contradiction
  | cons x text ih =>
      cases i with
      | zero =>
          obtain rfl := Option.some.inj h
          rw [maskFrom, mode.blanks_newline]
          rfl
      | succ i => exact ih h

/-- Masks of texts with wide line ends have wide line ends, unless a backslash takes a filler
with it. -/
theorem Widened.maskFrom {φ : Nat → Nat} {offset : Nat} {s s' : List Char}
    (h : Widened φ offset s s') (hescape : ¬ ['\\', '\n'] <:+: s) {mode : MaskMode}
    (hmode : mode = .string true → s.head? ≠ some '\n') :
    Widened φ offset (maskFrom mode s) (maskFrom mode s') := by
  -- Along both texts: what blanks a character of one of them blanks it in the other one, and
  -- behind a filler the mode is the one in front of it.
  induction h generalizing mode with
  | nil => exact .nil
  | @plain offset c s s' hc hφ h ih =>
      rw [SourceChunks.maskFrom, SourceChunks.maskFrom, MaskMode.blanks_widened h,
        MaskMode.next_widened h]
      refine .plain ?_ hφ (ih (fun hs => hescape (hs.trans (List.suffix_cons c s).isInfix)) ?_)
      · split_ifs
        · decide
        · exact hc
      · intro hnext hhead
        obtain ⟨rest, rfl⟩ := List.head?_eq_some_iff.mp hhead
        rw [MaskMode.eq_backslash_of_next hnext] at hescape
        exact hescape ⟨[], rest, rfl⟩
  | @newline offset b s s' hb hφ h ih =>
      have hne : mode ≠ .string true := fun heq => hmode heq rfl
      rw [SourceChunks.maskFrom, SourceChunks.maskFrom, SourceChunks.maskFrom,
        MaskMode.next_filler hb hne, MaskMode.next_widened h, mode.blanks_newline,
        mode.blanks_newline]
      refine .newline ?_ hφ (ih (fun hs => hescape (hs.trans (List.suffix_cons _ s).isInfix)) ?_)
      · split_ifs
        · exact .inl rfl
        · exact hb
      · exact fun hnext => absurd (MaskMode.eq_backslash_of_next hnext) (by decide)

/-! ## Brackets and blocks -/

namespace Bracket

/-- White space is passed over in the search for a bracket that closes another one. -/
theorem closingFrom_blank {opening closing c : Char} (hopening : isBlank opening = false)
    (hclosing : isBlank closing = false) (hc : isBlank c = true) (depth offset : Nat)
    (rest : List Char) :
    closingFrom opening closing depth offset (c :: rest) =
      closingFrom opening closing depth (offset + 1) rest := by
  simp [ne_of_isBlank hc hopening, ne_of_isBlank hc hclosing]

end Bracket

namespace Widened

variable {φ : Nat → Nat} {offset : Nat} {s s' : List Char}

/-- The bracket that closes another one moves with the text. -/
theorem closingFrom (h : Widened φ offset s s') {opening closing : Char}
    (hopening : isBlank opening = false) (hclosing : isBlank closing = false) (depth : Nat) :
    Bracket.closingFrom opening closing depth (φ offset) s' =
      (Bracket.closingFrom opening closing depth offset s).map φ := by
  induction h generalizing depth with
  | nil => rfl
  | plain hc hφ h ih =>
      rw [closingFrom_cons, closingFrom_cons, ← hφ]
      -- The same character is read in both texts, so the same number of brackets is open.
      cases depthAfter? opening closing depth _ with
      | none => rfl
      | some depth' => exact ih depth'
  | newline hb hφ h ih =>
      rw [Bracket.closingFrom_blank hopening hclosing hb.isBlank,
        Bracket.closingFrom_blank hopening hclosing isBlank_newline,
        Bracket.closingFrom_blank hopening hclosing isBlank_newline, ← ih, hφ]

theorem blockEndFrom (h : Widened φ offset s s') :
    Bracket.blockEndFrom (φ offset) s' = (Bracket.blockEndFrom offset s).map φ :=
  h.closingFrom (by decide) (by decide) 0

/-- The outermost blocks move with the text. -/
theorem outermostFrom (h : Widened φ offset s s') (stop opened depth : Nat) :
    outermostFrom (φ stop) (φ opened) depth (φ offset) s' =
      (outermostFrom stop opened depth offset s).map (Span.place φ) := by
  induction h generalizing opened depth with
  | nil =>
      rw [SourceChunks.outermostFrom, SourceChunks.outermostFrom]
      split_ifs <;> rfl
  | @plain offset c s s' hc hφ h ih =>
      rw [SourceChunks.outermostFrom, SourceChunks.outermostFrom, ← hφ]
      split_ifs with hopen hzero hclose hone
      · exact ih offset _
      · exact ih opened _
      · rw [ih]
        rfl
      · exact ih _ _
      · exact ih _ _
  | @newline offset b s s' hb hφ h ih =>
      have hskip : ∀ {c : Char}, isBlank c = true → ∀ stop opened depth offset rest,
          SourceChunks.outermostFrom stop opened depth offset (c :: rest) =
            SourceChunks.outermostFrom stop opened depth (offset + 1) rest := by
        intro c hblank stop opened depth offset rest
        rw [SourceChunks.outermostFrom, if_neg (ne_of_isBlank hblank (by decide)),
          if_neg (ne_of_isBlank hblank (by decide))]
      rw [hskip hb.isBlank, hskip isBlank_newline, hskip isBlank_newline, ← ih, hφ]

end Widened

/-! ## Whole texts -/

/-- The second text is the first one with wide line ends, and `φ` tells where its places have
moved. -/
structure Widens (φ : Nat → Nat) (text text' : List Char) : Prop where
  mono : StrictMono φ
  zero : φ 0 = 0
  widened : Widened φ 0 text text'

namespace Widens

variable {φ : Nat → Nat} {text text' : List Char}

/-- With carriage returns, a mask has wide line ends, unless a line ends behind a backslash. -/
theorem of_mask {text : List Char} (hescape : ¬ ['\\', '\n'] <:+: text) :
    Widens (wideOffset text) (mask text) (mask (withReturns text)) where
  mono := strictMono_wideOffset text
  zero := rfl
  widened := (widened_withReturns text).maskFrom hescape nofun

theorem length (h : Widens φ text text') : text'.length = φ text.length := by
  have hlength := h.widened.length
  rw [h.zero, Nat.zero_add, Nat.zero_add] at hlength
  exact hlength.symm

theorem drop (h : Widens φ text text') (n : Nat) :
    Widened φ n (text.drop n) (text'.drop (φ n)) := by
  have hdrop := h.widened.drop h.mono n
  rwa [h.zero, Nat.zero_add, Nat.sub_zero] at hdrop

theorem take (h : Widens φ text text') (n : Nat) :
    Widened φ 0 (text.take n) (text'.take (φ n)) := by
  have htake := h.widened.take h.mono n
  rwa [h.zero, Nat.zero_add, Nat.sub_zero] at htake

theorem slice (h : Widens φ text text') (span : Span) :
    Widened φ span.start (span.slice text) ((span.place φ).slice text') := by
  have htake := (h.drop span.start).take h.mono (span.stop - span.start)
  rcases Nat.le_total span.start span.stop with hle | hle
  · rwa [Nat.add_sub_cancel' hle] at htake
  · have hsub : φ span.stop - φ span.start = 0 := Nat.sub_eq_zero_of_le (h.mono.monotone hle)
    rw [Span.slice, Span.slice, Span.place, Nat.sub_eq_zero_of_le hle, hsub]
    exact .nil

/-- Behind a character that does not end a line, no more has moved. -/
theorem succ (h : Widens φ text text') {n : Nat} {c : Char} (hc : c ≠ '\n')
    (hn : text[n]? = some c) : φ (n + 1) = φ n + 1 := by
  have hsucc := h.widened.succ_of_getElem? hc hn
  rwa [Nat.zero_add] at hsucc

/-- A character that does not end a line has moved as far as the place behind it. -/
theorem pred (h : Widens φ text text') {n : Nat} {c : Char} (hpos : 0 < n) (hc : c ≠ '\n')
    (hn : text[n - 1]? = some c) : φ (n - 1) = φ n - 1 := by
  have hsucc := h.succ hc hn
  rw [Nat.sub_add_cancel hpos] at hsucc
  rw [hsucc, Nat.add_sub_cancel]

/-- The blocks of a region move with it. -/
theorem blocks_ofRegion (h : Widens φ text text') (region : Span) :
    (BlockMap.ofRegion text' (region.place φ)).blocks =
      (BlockMap.ofRegion text region).blocks.map (Span.place φ) :=
  (h.slice region).outermostFrom region.stop region.start 0

theorem enclosing_ofRegion (h : Widens φ text text') (region : Span) (offset : Nat) :
    (BlockMap.ofRegion text' (region.place φ)).enclosing? (φ offset) =
      ((BlockMap.ofRegion text region).enclosing? offset).map (Span.place φ) := by
  have hinside : (fun block : Span => decide (block.start < φ offset) && decide (φ offset < block.stop)) ∘
      Span.place φ = fun block => decide (block.start < offset) && decide (offset < block.stop) := by
    funext block
    simp [Span.place, h.mono.lt_iff_lt]
  rw [BlockMap.enclosing_ofRegion, BlockMap.enclosing_ofRegion, h.blocks_ofRegion, List.find?_map,
    hinside]

theorem isTopLevel_ofRegion (h : Widens φ text text') (region : Span) (offset : Nat) :
    (BlockMap.ofRegion text' (region.place φ)).isTopLevel (φ offset) =
      (BlockMap.ofRegion text region).isTopLevel offset := by
  rw [BlockMap.isTopLevel, BlockMap.isTopLevel, h.enclosing_ofRegion, Option.isNone_map]

theorem ofMask_eq (h : Widens φ text text') :
    BlockMap.ofMask text' = BlockMap.ofRegion text' (Span.place φ ⟨0, text.length⟩) := by
  rw [BlockMap.ofMask, h.length, Span.place, h.zero]

theorem enclosing_ofMask (h : Widens φ text text') (offset : Nat) :
    (BlockMap.ofMask text').enclosing? (φ offset) =
      ((BlockMap.ofMask text).enclosing? offset).map (Span.place φ) := by
  rw [h.ofMask_eq, h.enclosing_ofRegion]
  rfl

theorem isTopLevel_ofMask (h : Widens φ text text') (offset : Nat) :
    (BlockMap.ofMask text').isTopLevel (φ offset) = (BlockMap.ofMask text).isTopLevel offset := by
  rw [h.ofMask_eq, h.isTopLevel_ofRegion]
  rfl

end Widens

end SourceChunks
