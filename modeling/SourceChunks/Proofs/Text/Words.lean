import Mathlib
import SourceChunks.Proofs.Text.Blank

/-!
# The words of a text

White space ends a word, so the words of a text are those in front of some white space and
those behind it.

* `words_append_blanks`: the words in front of white space and behind it.
* `collapse_trim`: the white space at the two ends of a text does not matter to its words.
* `areLast_words`: the words of the end of a text.
* `infix_of_mem_words`: a word stands in the text.
* `filter_collapse`: a text on one line has all that is not white space.
-/

namespace SourceChunks.Text

theorem wordsFrom_append_blank {b : Char} (hb : isBlank b = true) (word s t : List Char) :
    wordsFrom word (s ++ b :: t) = wordsFrom word s ++ words t := by
  induction s generalizing word with
  | nil =>
      simp only [List.nil_append, wordsFrom, if_pos hb]
      split_ifs <;> rfl
  | cons c s ih =>
      rw [List.cons_append, wordsFrom, wordsFrom]
      split_ifs
      · exact ih []
      · rw [ih [], List.cons_append]
      · exact ih (c :: word)

/-- A white-space character parts the words in front of it from those behind it. -/
theorem words_append_blank {b : Char} (hb : isBlank b = true) (s t : List Char) :
    words (s ++ b :: t) = words s ++ words t :=
  wordsFrom_append_blank hb [] s t

/-- There are no words in white space. -/
theorem words_blanks_append {gap : List Char} (hgap : ∀ x ∈ gap, isBlank x = true)
    (t : List Char) : words (gap ++ t) = words t := by
  induction gap with
  | nil => rfl
  | cons b gap ih =>
      obtain ⟨hb, hgap⟩ := List.forall_mem_cons.mp hgap
      rw [List.cons_append, ← List.nil_append (b :: (gap ++ t)), words_append_blank hb, ih hgap]
      rfl

/-- White space parts the words in front of it from those behind it. -/
theorem words_append_blanks {gap : List Char} (hne : gap ≠ [])
    (hgap : ∀ x ∈ gap, isBlank x = true) (s t : List Char) :
    words (s ++ gap ++ t) = words s ++ words t := by
  cases gap with
  | nil => contradiction
  | cons b gap =>
      obtain ⟨hb, hgap⟩ := List.forall_mem_cons.mp hgap
      rw [List.append_assoc, List.cons_append, words_append_blank hb, words_blanks_append hgap]

/-- Trimming a text leaves its words. -/
@[simp] theorem words_trim (s : List Char) : words (trim s) = words s := by
  obtain ⟨front, behind, hs, hfront, hbehind⟩ := exists_trim s
  have hend : words (trim s ++ behind) = words (trim s) := by
    by_cases hne : behind = []
    · rw [hne, List.append_nil]
    · have hparts := words_append_blanks hne hbehind (trim s) []
      rwa [List.append_nil, show words [] = [] from rfl, List.append_nil] at hparts
  conv_rhs => rw [hs, List.append_assoc, words_blanks_append hfront, hend]

@[simp] theorem collapse_trim (s : List Char) : collapse (trim s) = collapse s := by
  rw [collapse, collapse, words_trim]

theorem wordsFrom_append_of_not_blank {s : List Char} (hs : ∀ x ∈ s, isBlank x = false)
    (word t : List Char) : wordsFrom word (s ++ t) = wordsFrom (s.reverse ++ word) t := by
  induction s generalizing word with
  | nil => rfl
  | cons c s ih =>
      obtain ⟨hc, hs⟩ := List.forall_mem_cons.mp hs
      rw [List.cons_append, wordsFrom, if_neg (by simp [hc]), ih hs, List.reverse_cons,
        List.append_assoc, List.singleton_append]

/-- Whether a text is a word. -/
def isUnbroken (word : List Char) : Bool :=
  !word.isEmpty && word.all (!isBlank ·)

theorem isUnbroken_iff {word : List Char} :
    isUnbroken word = true ↔ word ≠ [] ∧ ∀ x ∈ word, isBlank x = false := by
  simp [isUnbroken]

/-- A text without white space is a word. -/
theorem words_eq_singleton {word : List Char} (hword : isUnbroken word = true) :
    words word = [word] := by
  obtain ⟨hne, hblank⟩ := isUnbroken_iff.mp hword
  have hall := wordsFrom_append_of_not_blank hblank [] []
  rw [List.append_nil, List.append_nil, wordsFrom, if_neg (by simpa using hne),
    List.reverse_reverse] at hall
  exact hall

/-- A word in front of white space. -/
theorem words_word_append {word gap : List Char} (hword : isUnbroken word = true) (hgap : gap ≠ [])
    (hblank : ∀ x ∈ gap, isBlank x = true) (t : List Char) :
    words (word ++ gap ++ t) = word :: words t := by
  rw [words_append_blanks hgap hblank, words_eq_singleton hword, List.singleton_append]

/-- A word in front of any white space, at the end of a text. -/
theorem words_word_append_blanks {word gap : List Char} (hword : isUnbroken word = true)
    (hblank : ∀ x ∈ gap, isBlank x = true) : words (word ++ gap) = [word] := by
  rw [← List.append_nil gap, ← List.append_assoc]
  by_cases hgap : gap = []
  · rw [hgap, List.append_nil, List.append_nil, words_eq_singleton hword]
  · rw [words_word_append hword hgap hblank]
    rfl

/-! ## The end of a text -/

/-- Some words are the last ones of a list of words, but the first of them may have lost
letters at its beginning. -/
def AreLast (ws vs : List (List Char)) : Prop :=
  ws = [] ∨ ∃ w v rest, ws = w :: rest ∧ w <:+ v ∧ v :: rest <:+ vs

theorem AreLast.of_suffix {ws vs : List (List Char)} (h : ws <:+ vs) : AreLast ws vs := by
  cases ws with
  | nil => exact .inl rfl
  | cons w rest => exact .inr ⟨w, w, rest, rfl, List.suffix_refl w, h⟩

theorem AreLast.trans {us vs ws : List (List Char)} (h : AreLast us vs) (h' : AreLast vs ws) :
    AreLast us ws := by
  rcases h with rfl | ⟨w, v, rest, rfl, hwv, hvs⟩
  · exact .inl rfl
  rcases h' with rfl | ⟨w', v', rest', rfl, hwv', hws⟩
  · exact absurd hvs (by simp)
  rcases List.suffix_cons_iff.mp hvs with heq | hvs
  · obtain ⟨rfl, rfl⟩ := List.cons.inj heq
    exact .inr ⟨w, v', rest, rfl, hwv.trans hwv', hws⟩
  · exact .inr ⟨w, v, rest, rfl, hwv, (hvs.trans (List.suffix_cons v' rest')).trans hws⟩

theorem AreLast.length_le {ws vs : List (List Char)} (h : AreLast ws vs) : ws.length ≤ vs.length := by
  rcases h with rfl | ⟨w, v, rest, rfl, -, hvs⟩
  · exact Nat.zero_le _
  · exact hvs.length_le

theorem AreLast.exists_of_mem {ws vs : List (List Char)} (h : AreLast ws vs) :
    ∀ w ∈ ws, ∃ v ∈ vs, w <:+ v := by
  rcases h with rfl | ⟨w, v, rest, rfl, hwv, hvs⟩
  · simp
  · intro u hu
    rcases List.mem_cons.mp hu with rfl | hu
    · exact ⟨v, hvs.subset List.mem_cons_self, hwv⟩
    · exact ⟨u, hvs.subset (List.mem_cons_of_mem v hu), List.suffix_refl u⟩

/-- More letters in front of the current word change no other word. -/
theorem areLast_wordsFrom (word more t : List Char) :
    AreLast (wordsFrom word t) (wordsFrom (word ++ more) t) := by
  have hsuffix : ∀ word : List Char, word.reverse <:+ (word ++ more).reverse := by
    intro word
    rw [List.reverse_append]
    exact List.suffix_append _ _
  induction t generalizing word with
  | nil =>
      rw [wordsFrom, wordsFrom]
      split_ifs with hnil hmore
      · exact .inl rfl
      · exact .inl rfl
      · simp_all
      · exact .inr ⟨_, _, [], rfl, hsuffix word, List.suffix_refl _⟩
  | cons c t ih =>
      rw [wordsFrom, wordsFrom]
      split_ifs with hc hnil hmore hmore
      · exact .of_suffix (List.suffix_refl _)
      · exact .of_suffix (List.suffix_cons _ _)
      · simp_all
      · exact .inr ⟨_, _, _, rfl, hsuffix word, List.suffix_refl _⟩
      · exact ih (c :: word)

/-- The words of the end of a text are the last words of the text; the first of them may have
begun before. -/
theorem areLast_words {s t : List Char} (h : t <:+ s) : AreLast (words t) (words s) := by
  obtain ⟨front, rfl⟩ := h
  induction front with
  | nil => exact .of_suffix (List.suffix_refl _)
  | cons c front ih =>
      refine ih.trans ?_
      rw [List.cons_append, words, words, wordsFrom]
      split_ifs
      · exact .of_suffix (List.suffix_refl _)
      · contradiction
      · exact areLast_wordsFrom [] [c] (front ++ t)

theorem infix_of_mem_wordsFrom {word t w : List Char} (hw : w ∈ wordsFrom word t) :
    w <:+: word.reverse ++ t := by
  induction t generalizing word with
  | nil =>
      rw [wordsFrom] at hw
      split_ifs at hw
      · contradiction
      · rw [List.mem_singleton.mp hw, List.append_nil]
  | cons c t ih =>
      rw [wordsFrom] at hw
      split_ifs at hw
      · exact (ih hw).trans ⟨word.reverse ++ [c], [], by simp⟩
      · rcases List.mem_cons.mp hw with rfl | hw
        · exact (List.prefix_append _ _).isInfix
        · exact (ih hw).trans ⟨word.reverse ++ [c], [], by simp⟩
      · have hmore := ih hw
        rwa [List.reverse_cons, List.append_assoc, List.singleton_append] at hmore

/-- A word stands in the text. -/
theorem infix_of_mem_words {t w : List Char} (hw : w ∈ words t) : w <:+: t :=
  infix_of_mem_wordsFrom hw

/-! ## What is left -/

/-- Splitting a text into words drops white space only. -/
theorem filter_flatten_wordsFrom (word s : List Char) :
    (wordsFrom word s).flatten.filter (!isBlank ·) =
      word.reverse.filter (!isBlank ·) ++ s.filter (!isBlank ·) := by
  induction s generalizing word with
  | nil => cases word <;> simp [wordsFrom]
  | cons c rest ih =>
      rw [wordsFrom]
      split_ifs with hc hword
      · obtain rfl := List.isEmpty_iff.mp hword
        simp [hc, ih]
      · rw [List.flatten_cons, List.filter_append, ih, List.filter_cons_of_neg (by simp [hc])]
        rfl
      · rw [ih, List.reverse_cons, List.filter_append, List.append_assoc, ← List.filter_append]
        rfl

theorem filter_intercalate_space (ws : List (List Char)) :
    (List.intercalate [' '] ws).filter (!isBlank ·) = ws.flatten.filter (!isBlank ·) := by
  induction ws with
  | nil => rfl
  | cons w ws ih =>
      cases ws with
      | nil => rw [List.intercalate_singleton, List.flatten_singleton]
      | cons w' ws =>
          rw [List.intercalate_cons_cons, List.filter_append, List.filter_append, ih,
            List.flatten_cons, List.filter_append]
          simp [isBlank_space]

/-- Collapsing a text leaves what is not white space in it. -/
@[simp] theorem filter_collapse (s : List Char) :
    (collapse s).filter (!isBlank ·) = s.filter (!isBlank ·) := by
  rw [collapse, filter_intercalate_space, words, filter_flatten_wordsFrom]
  rfl

end SourceChunks.Text
