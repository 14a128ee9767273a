import Mathlib
import SourceChunks.Proofs.Text.Blank
import SourceChunks.Proofs.Text.Rows

/-!
# Carriage returns in front of line feeds

The line ends of a text may be written with a carriage return in front of the line feed.  That
moves what stands behind them, but it changes no word, and trimming commutes with it.

* `withReturns`, `withoutReturns`: the two ways to write a text; `crlf`, `withoutCr` for strings.
* `trim_withReturns`: trimming looks at white space only.
* `Alike`: two texts that differ in how much white space there is at some places.
* `Alike.words_eq`: such texts have the same words.
-/

namespace SourceChunks.Text

/-- A text with a carriage return in front of every line feed. -/
def withReturns (s : List Char) : List Char :=
  s.flatMap fun c => if c = '\n' then ['\r', '\n'] else [c]

/-- A text without its carriage returns. -/
def withoutReturns (s : List Char) : List Char :=
  s.filter (· != '\r')

@[simp] theorem withReturns_newline (s : List Char) :
    withReturns ('\n' :: s) = '\r' :: '\n' :: withReturns s := rfl

@[simp] theorem withReturns_cons {c : Char} (hc : c ≠ '\n') (s : List Char) :
    withReturns (c :: s) = c :: withReturns s := by
  rw [withReturns, List.flatMap_cons, if_neg hc]
  rfl

@[simp] theorem withReturns_append (s t : List Char) :
    withReturns (s ++ t) = withReturns s ++ withReturns t :=
  List.flatMap_append

theorem withReturns_concat (s : List Char) (c : Char) :
    withReturns (s ++ [c]) = withReturns s ++ if c = '\n' then ['\r', '\n'] else [c] := by
  rw [withReturns_append]
  exact congrArg (withReturns s ++ ·) (List.append_nil _)

theorem withReturns_eq_self {s : List Char} (hs : '\n' ∉ s) : withReturns s = s := by
  induction s with
  | nil => rfl
  | cons c s ih =>
      rw [List.mem_cons, not_or] at hs
      rw [withReturns_cons (Ne.symm hs.1), ih hs.2]

theorem newline_mem_withReturns {s : List Char} (hs : '\n' ∈ s) : '\n' ∈ withReturns s :=
  List.mem_flatMap.mpr ⟨'\n', hs, by decide⟩

/-- A text that becomes one without line feeds had none. -/
theorem withReturns_eq_iff {s t : List Char} (ht : '\n' ∉ t) : withReturns s = t ↔ s = t := by
  constructor
  · rintro rfl
    exact (withReturns_eq_self fun hs => ht (newline_mem_withReturns hs)).symm
  · rintro rfl
    exact withReturns_eq_self ht

@[simp] theorem isEmpty_withReturns (s : List Char) : (withReturns s).isEmpty = s.isEmpty := by
  rw [Bool.eq_iff_iff, List.isEmpty_iff, List.isEmpty_iff, withReturns_eq_iff List.not_mem_nil]

@[simp] theorem withReturns_intercalate (sep : List Char) (ls : List (List Char)) :
    withReturns (sep.intercalate ls) = (withReturns sep).intercalate (ls.map withReturns) :=
  intercalate_of_append rfl withReturns_append sep ls

/-- The characters that a reader holds, the latest first, if their text gets carriage returns. -/
def heldReturns (held : List Char) : List Char :=
  (withReturns held.reverse).reverse

theorem reverse_heldReturns (held : List Char) :
    (heldReturns held).reverse = withReturns held.reverse :=
  List.reverse_reverse _

theorem heldReturns_newline (held : List Char) :
    heldReturns ('\n' :: held) = '\n' :: '\r' :: heldReturns held := by
  rw [heldReturns, List.reverse_cons, withReturns_concat, if_pos rfl, List.reverse_append]
  rfl

theorem heldReturns_cons {c : Char} (hc : c ≠ '\n') (held : List Char) :
    heldReturns (c :: held) = c :: heldReturns held := by
  rw [heldReturns, List.reverse_cons, withReturns_concat, if_neg hc, List.reverse_append]
  rfl

theorem isEmpty_heldReturns (held : List Char) : (heldReturns held).isEmpty = held.isEmpty := by
  rw [heldReturns, List.isEmpty_reverse, isEmpty_withReturns, List.isEmpty_reverse]

@[simp] theorem length_withReturns (s : List Char) :
    (withReturns s).length = s.length + s.count '\n' := by
  induction s with
  | nil => rfl
  | cons c s ih =>
      by_cases hc : c = '\n'
      · subst hc
        rw [withReturns_newline, List.count_cons_self]
        simp only [List.length_cons, ih]
        omega
      · rw [withReturns_cons hc, List.count_cons_of_ne hc]
        simp only [List.length_cons, ih]
        omega

@[simp] theorem count_withReturns (s : List Char) : (withReturns s).count '\n' = s.count '\n' := by
  induction s with
  | nil => rfl
  | cons c s ih =>
      by_cases hc : c = '\n'
      · subst hc
        rw [withReturns_newline, List.count_cons_of_ne (by decide), List.count_cons_self,
          List.count_cons_self, ih]
      · rw [withReturns_cons hc, List.count_cons_of_ne hc, List.count_cons_of_ne hc, ih]

/-- The two ways to write a text differ in their carriage returns only. -/
@[simp] theorem withoutReturns_withReturns (s : List Char) :
    withoutReturns (withReturns s) = withoutReturns s := by
  induction s with
  | nil => rfl
  | cons c s ih =>
      by_cases hc : c = '\n'
      · subst hc
        exact congrArg ('\n' :: ·) ih
      · rw [withReturns_cons hc, withoutReturns, withoutReturns, List.filter_cons, List.filter_cons]
        rw [withoutReturns, withoutReturns] at ih
        rw [ih]

/-! ## Trimming -/

section

variable {drops : Char → Bool}

theorem dropWhile_withReturns (h : drops '\r' = drops '\n') (s : List Char) :
    (withReturns s).dropWhile drops = withReturns (s.dropWhile drops) := by
  induction s with
  | nil => rfl
  | cons c s ih =>
      by_cases hc : c = '\n'
      · subst hc
        rw [withReturns_newline, List.dropWhile_cons, List.dropWhile_cons, List.dropWhile_cons, h, ih]
        split_ifs
        · rfl
        · rfl
      · rw [withReturns_cons hc, List.dropWhile_cons, List.dropWhile_cons, ih]
        split_ifs
        · rfl
        · rw [withReturns_cons hc]

theorem rdropWhile_withReturns (h : drops '\r' = drops '\n') (s : List Char) :
    (withReturns s).rdropWhile drops = withReturns (s.rdropWhile drops) := by
  induction s using List.reverseRecOn with
  | nil => rfl
  | append_singleton s c ih =>
      by_cases hc : c = '\n'
      · subst hc
        have hsplit : withReturns s ++ ['\r', '\n'] = withReturns s ++ ['\r'] ++ ['\n'] := by
          rw [List.append_assoc]
          rfl
        rw [withReturns_concat, if_pos rfl, hsplit, List.rdropWhile_concat, List.rdropWhile_concat,
          List.rdropWhile_concat, h, ih]
        split_ifs
        · rfl
        · rw [withReturns_concat, if_pos rfl, List.append_assoc]
          rfl
      · rw [withReturns_concat, if_neg hc, List.rdropWhile_concat, List.rdropWhile_concat, ih]
        split_ifs
        · rfl
        · rw [withReturns_concat, if_neg hc]

end

theorem trimRight_eq (s : List Char) : trimRight s = s.rdropWhile isBlank := rfl

theorem trimLeft_cons (c : Char) (s : List Char) :
    trimLeft (c :: s) = if isBlank c then trimLeft s else c :: s :=
  List.dropWhile_cons

/-- Trimming looks at white space only. -/
@[simp] theorem trim_withReturns (s : List Char) : trim (withReturns s) = withReturns (trim s) := by
  rw [trim, trim, trimRight_eq, trimRight_eq, trimLeft, trimLeft, dropWhile_withReturns (by decide),
    rdropWhile_withReturns (by decide)]

@[simp] theorem allBlank_withReturns (s : List Char) : allBlank (withReturns s) = allBlank s := by
  induction s with
  | nil => rfl
  | cons c s ih =>
      by_cases hc : c = '\n'
      · subst hc
        exact ih
      · rw [withReturns_cons hc, allBlank, allBlank, List.all_cons, List.all_cons]
        exact congrArg (isBlank c && ·) ih

/-! ## White space of different widths -/

theorem ne_of_isBlank {b c : Char} (hb : isBlank b = true) (hc : isBlank c = false) : b ≠ c := by
  rintro rfl
  rw [hb] at hc
  contradiction

/-- Two texts differ only in that some white-space characters of the first one are pairs of
such characters in the second one. -/
inductive Alike : List Char → List Char → Prop
  | nil : Alike [] []
  | same (c : Char) {s s' : List Char} (h : Alike s s') : Alike (c :: s) (c :: s')
  | wide {x b b' : Char} {s s' : List Char} (hx : isBlank x = true) (hb : isBlank b = true)
      (hb' : isBlank b' = true) (h : Alike s s') : Alike (x :: s) (b :: b' :: s')

namespace Alike

variable {s s' : List Char}

theorem trimLeft (h : Alike s s') : Alike (Text.trimLeft s) (Text.trimLeft s') := by
  induction h with
  | nil => exact .nil
  | same c h ih =>
      rw [trimLeft_cons, trimLeft_cons]
      split_ifs
      · exact ih
      · exact .same c h
  | wide hx hb hb' h ih =>
      rw [trimLeft_cons, trimLeft_cons, trimLeft_cons, if_pos hx, if_pos hb, if_pos hb']
      exact ih

/-- Whether a text begins inside of a word is the same for both. -/
theorem head_isWord (h : Alike s s') : s'.head?.any isWord = s.head?.any isWord := by
  cases h with
  | nil => rfl
  | same c h => rfl
  | wide hx hb hb' h =>
      show isWord _ = isWord _
      rw [isWord_of_isBlank hb, isWord_of_isBlank hx]

/-- A word in front of one of the texts is in front of the other one. -/
theorem isPrefixOf_eq {word : List Char} (hword : ∀ x ∈ word, isBlank x = false) (h : Alike s s') :
    word.isPrefixOf s' = word.isPrefixOf s ∧
      (word.isPrefixOf s = true → Alike (s.drop word.length) (s'.drop word.length)) := by
  induction word generalizing s s' with
  | nil => exact ⟨rfl, fun _ => h⟩
  | cons y word ih =>
      obtain ⟨hy, hword⟩ := List.forall_mem_cons.mp hword
      have hne : ∀ {x}, isBlank x = true → (y == x) = false := fun hx =>
        beq_eq_false_iff_ne.mpr (ne_of_isBlank hx hy).symm
      cases h with
      | nil => exact ⟨rfl, fun h => absurd h (by simp)⟩
      | same c h =>
          obtain ⟨heq, hdrop⟩ := ih hword h
          refine ⟨?_, fun hbegins => ?_⟩
          · rw [List.isPrefixOf, List.isPrefixOf, heq]
          · rw [List.isPrefixOf, Bool.and_eq_true] at hbegins
            exact hdrop hbegins.2
      | wide hx hb hb' h =>
          rw [List.isPrefixOf, List.isPrefixOf, hne hx, hne hb]
          exact ⟨rfl, fun hbegins => absurd hbegins (by simp)⟩

theorem wordsFrom_eq (h : Alike s s') (word : List Char) :
    wordsFrom word s' = wordsFrom word s := by
  induction h generalizing word with
  | nil => rfl
  | same c h ih =>
      rw [wordsFrom, wordsFrom, ih, ih]
  | wide hx hb hb' h ih =>
      -- The second one of a pair finds no letters of a word that it could end.
      simp only [wordsFrom, hx, hb, hb', if_true, List.isEmpty_nil, ih]

/-- Such texts have the same words. -/
theorem words_eq (h : Alike s s') : words s' = words s :=
  h.wordsFrom_eq []

end Alike

theorem alike_withReturns (s : List Char) : Alike s (withReturns s) := by
  induction s with
  | nil => exact .nil
  | cons c s ih =>
      by_cases hc : c = '\n'
      · subst hc
        exact .wide (by decide) (by decide) (by decide) ih
      · rw [withReturns_cons hc]
        exact .same c ih

@[simp] theorem collapse_withReturns (s : List Char) : collapse (withReturns s) = collapse s := by
  rw [collapse, collapse, (alike_withReturns s).words_eq]

/-! ## Strings -/

/-- A text with a carriage return in front of every line feed. -/
def crlf (s : String) : String :=
  String.ofList (withReturns s.toList)

/-- A text without its carriage returns. -/
def withoutCr (s : String) : String :=
  String.ofList (withoutReturns s.toList)

@[simp] theorem toList_crlf (s : String) : (crlf s).toList = withReturns s.toList :=
  String.toList_ofList

@[simp] theorem crlf_ofList (l : List Char) :
    crlf (String.ofList l) = String.ofList (withReturns l) := by
  rw [crlf, String.toList_ofList]

@[simp] theorem withoutCr_crlf (s : String) : withoutCr (crlf s) = withoutCr s := by
  rw [withoutCr, toList_crlf, withoutReturns_withReturns]
  rfl

theorem crlf_eq_self {s : String} (hs : '\n' ∉ s.toList) : crlf s = s := by
  rw [crlf, withReturns_eq_self hs, String.ofList_toList]

/-- A text that becomes one without line feeds had none. -/
theorem crlf_eq_iff {s t : String} (ht : '\n' ∉ t.toList) : crlf s = t ↔ s = t := by
  rw [← String.toList_inj, ← String.toList_inj, toList_crlf, withReturns_eq_iff ht]

@[simp] theorem isEmpty_crlf (s : String) : (crlf s).isEmpty = s.isEmpty := by
  rw [Bool.eq_iff_iff, String.isEmpty_iff, String.isEmpty_iff, crlf_eq_iff (by decide)]

@[simp] theorem crlf_append (s t : String) : crlf (s ++ t) = crlf s ++ crlf t := by
  rw [crlf, String.toList_append, withReturns_append, String.ofList_append]
  rfl

@[simp] theorem withoutCr_append (s t : String) :
    withoutCr (s ++ t) = withoutCr s ++ withoutCr t := by
  rw [withoutCr, String.toList_append, withoutReturns, List.filter_append, String.ofList_append]
  rfl

@[simp] theorem withoutCr_intercalate (sep : String) (ls : List String) :
    withoutCr (sep.intercalate ls) = (withoutCr sep).intercalate (ls.map withoutCr) := by
  have hjoined := intercalate_of_append rfl (fun s t => List.filter_append (p := (· != '\r')) s t)
    sep.toList (ls.map String.toList)
  apply String.toList_injective
  rw [withoutCr, String.toList_ofList, String.toList_intercalate, String.toList_intercalate,
    withoutReturns, hjoined, List.map_map, List.map_map, withoutCr, String.toList_ofList]
  congr 2
  exact funext fun l => String.toList_ofList.symm

end SourceChunks.Text
