import Mathlib
import SourceChunks.Proofs.Text.Rows
import SourceChunks.Proofs.Text.Words

/-!
# Texts on one line

A text that is written again with one space between neighbouring words begins and ends with a
word, and no two characters of white space stand side by side in it.  What is not white space
is still there, in the same order.

* `visible`: a text without its white space.
* `visible_intercalate`, `visible_collapse`: what is left of joined and of collapsed texts.
* `SingleSpaced`: a text on one line.
* `singleSpaced_collapse`: a collapsed text is one, unless there is nothing in it.
-/

namespace SourceChunks.Text

/-! ## What is not white space -/

/-- A text without its white space. -/
def visible (s : List Char) : List Char :=
  s.filter (!isBlank ·)

@[simp] theorem visible_nil : visible [] = [] := rfl

@[simp] theorem visible_append (s t : List Char) : visible (s ++ t) = visible s ++ visible t :=
  List.filter_append ..

theorem visible_cons_of_isBlank {c : Char} (hc : isBlank c = true) (s : List Char) :
    visible (c :: s) = visible s :=
  List.filter_cons_of_neg (by simp [hc])

@[simp] theorem visible_cons {c : Char} (hc : isBlank c = false) (s : List Char) :
    visible (c :: s) = c :: visible s :=
  List.filter_cons_of_pos (by simp [hc])

/-- A text without white space has nothing to lose. -/
theorem visible_eq_self {s : List Char} (hs : ∀ c ∈ s, isBlank c = false) : visible s = s :=
  List.filter_eq_self.mpr fun c hc => by simp [hs c hc]

@[simp] theorem visible_eq_nil_iff {s : List Char} : visible s = [] ↔ allBlank s = true := by
  simp [visible, allBlank]

theorem visible_of_blanks {s : List Char} (hs : ∀ c ∈ s, isBlank c = true) : visible s = [] :=
  visible_eq_nil_iff.mpr (List.all_eq_true.mpr hs)

@[simp] theorem visible_flatten (rows : List (List Char)) :
    visible rows.flatten = (rows.map visible).flatten :=
  List.filter_flatten ..

@[simp] theorem visible_collapse (s : List Char) : visible (collapse s) = visible s :=
  filter_collapse s

@[simp] theorem visible_trim (s : List Char) : visible (trim s) = visible s := by
  rw [← visible_collapse, collapse_trim, visible_collapse]

@[simp] theorem visible_intercalate (sep : List Char) (rows : List (List Char)) :
    visible (List.intercalate sep rows) = List.intercalate (visible sep) (rows.map visible) :=
  intercalate_of_append visible_nil visible_append sep rows

/-! ## Words -/

theorem isUnbroken_reverse {word : List Char} (hne : word.isEmpty = false)
    (hword : ∀ x ∈ word, isBlank x = false) : isUnbroken word.reverse = true := by
  rw [isUnbroken_iff]
  exact ⟨by simpa using hne, by simpa using hword⟩

theorem isUnbroken_of_mem_wordsFrom {word s w : List Char} (hword : ∀ x ∈ word, isBlank x = false)
    (hw : w ∈ wordsFrom word s) : isUnbroken w = true := by
  induction s generalizing word with
  | nil =>
      rw [wordsFrom] at hw
      split_ifs at hw with hnil
      · contradiction
      · rw [List.mem_singleton.mp hw]
        exact isUnbroken_reverse (Bool.eq_false_iff.mpr hnil) hword
  | cons c s ih =>
      rw [wordsFrom] at hw
      split_ifs at hw with hc hnil
      · exact ih (by simp) hw
      · rcases List.mem_cons.mp hw with rfl | hw
        · exact isUnbroken_reverse (Bool.eq_false_iff.mpr hnil) hword
        · exact ih (by simp) hw
      · exact ih (List.forall_mem_cons.mpr ⟨Bool.eq_false_iff.mpr hc, hword⟩) hw

/-- The words of a text are not empty, and there is no white space in them. -/
theorem isUnbroken_of_mem_words {s w : List Char} (hw : w ∈ words s) : isUnbroken w = true :=
  isUnbroken_of_mem_wordsFrom (by simp) hw

/-- There are words in a text that is not blank. -/
theorem words_ne_nil {s : List Char} (hs : allBlank s = false) : words s ≠ [] := by
  intro hnil
  have hvisible := visible_collapse s
  rw [collapse, hnil, List.intercalate_nil, visible_nil] at hvisible
  rw [visible_eq_nil_iff.mp hvisible.symm] at hs
  contradiction

/-! ## One line -/

/-- A text on one line: it is not blank, it has white space neither at its beginning nor at its
end, and all other white space in it are single spaces. -/
structure SingleSpaced (s : List Char) : Prop where
  not_blank : allBlank s = false
  head : ∀ c ∈ s.head?, isBlank c = false
  last : ∀ c ∈ s.getLast?, isBlank c = false
  apart : s.IsChain fun c d => ¬ (isBlank c = true ∧ isBlank d = true)
  spaces : ∀ c ∈ s, isBlank c = true → c = ' '

theorem singleSpaced_of_isUnbroken {w : List Char} (hw : isUnbroken w = true) :
    SingleSpaced w := by
  obtain ⟨hne, hblank⟩ := isUnbroken_iff.mp hw
  obtain ⟨c, hc⟩ := List.exists_mem_of_ne_nil w hne
  constructor
  · exact List.all_eq_false.mpr ⟨c, hc, by simp [hblank c hc]⟩
  · exact fun c hc => hblank c (List.mem_of_mem_head? hc)
  · exact fun c hc => hblank c (List.mem_of_getLast? hc)
  · refine (List.pairwise_of_forall_mem_list fun c hc _ _ hboth => ?_).isChain
    rw [hblank c hc] at hboth
    exact absurd hboth.1 (by decide)
  · exact fun c hc hc' => absurd (hblank c hc) (by simp [hc'])

/-- A word and a space in front of a text on one line. -/
theorem SingleSpaced.cons_word {w s : List Char} (hw : isUnbroken w = true)
    (hs : SingleSpaced s) : SingleSpaced (w ++ ' ' :: s) := by
  have hword := singleSpaced_of_isUnbroken hw
  obtain ⟨hne, -⟩ := isUnbroken_iff.mp hw
  have hne' : s ≠ [] := by
    rintro rfl
    exact absurd hs.not_blank (by decide)
  constructor
  · obtain ⟨c, hc, hvisible⟩ := List.all_eq_false.mp hword.not_blank
    exact List.all_eq_false.mpr ⟨c, List.mem_append_left _ hc, hvisible⟩
  · rw [List.head?_append_of_ne_nil _ hne]
    exact hword.head
  · rw [List.getLast?_append_of_ne_nil _ (List.cons_ne_nil _ _), List.getLast?_cons_of_ne_nil hne']
    exact hs.last
  · refine List.isChain_append.mpr ⟨hword.apart, List.isChain_cons.mpr ⟨?_, hs.apart⟩, ?_⟩
    · exact fun d hd hboth => absurd (hs.head d hd) (by simp [hboth.2])
    · exact fun c hc _ _ hboth => absurd (hword.last c hc) (by simp [hboth.1])
  · exact List.forall_mem_append.mpr
      ⟨hword.spaces, List.forall_mem_cons.mpr ⟨fun _ => rfl, hs.spaces⟩⟩

theorem singleSpaced_intercalate {ws : List (List Char)} (hne : ws ≠ [])
    (hws : ∀ w ∈ ws, isUnbroken w = true) : SingleSpaced (List.intercalate [' '] ws) := by
  induction ws with
  | nil => contradiction
  | cons w ws ih =>
      obtain ⟨hw, hws⟩ := List.forall_mem_cons.mp hws
      cases ws with
      | nil =>
          rw [List.intercalate_singleton]
          exact singleSpaced_of_isUnbroken hw
      | cons w' ws =>
          rw [List.intercalate_cons_cons, List.append_assoc, List.singleton_append]
          exact .cons_word hw (ih (by simp) hws)

/-- A text that is not blank is on one line when it is collapsed. -/
theorem singleSpaced_collapse {s : List Char} (hs : allBlank s = false) :
    SingleSpaced (collapse s) :=
  singleSpaced_intercalate (words_ne_nil hs) fun _ hw => isUnbroken_of_mem_words hw

/-- The words of a text that is put together from words. -/
theorem words_intercalate {ws : List (List Char)} (hws : ∀ w ∈ ws, isUnbroken w = true) :
    words (List.intercalate [' '] ws) = ws := by
  induction ws with
  | nil => rfl
  | cons w ws ih =>
      obtain ⟨hw, hws⟩ := List.forall_mem_cons.mp hws
      cases ws with
      | nil =>
          rw [List.intercalate_singleton]
          exact words_eq_singleton hw
      | cons w' ws =>
          rw [List.intercalate_cons_cons, words_word_append hw (by simp) (by simp [isBlank_space]),
            ih hws]

@[simp] theorem collapse_collapse (s : List Char) : collapse (collapse s) = collapse s := by
  rw [collapse, collapse, words_intercalate fun _ hw => isUnbroken_of_mem_words hw]

end SourceChunks.Text
