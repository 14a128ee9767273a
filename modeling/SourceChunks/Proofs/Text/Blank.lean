import Mathlib
import SourceChunks.Text.Blank
import SourceChunks.Text.Word

/-!
# White space and words

White space is no part of a word, and trimming stops at the first other character.

* `isWord_of_isBlank`: no character is both.
* `exists_trimLeft`, `exists_trim`: what is trimmed off is white space.
* `trim_ne_nil`: something is left if there is more than white space.
* `trimLeft_append`: what follows a text does not matter if there is more than white space
  in it.
-/

namespace SourceChunks.Text

/-- The code points of the white-space characters. -/
def blankCodes : List Nat :=
  [0x09, 0x0A, 0x0B, 0x0C, 0x0D, 0x1C, 0x1D, 0x1E, 0x1F, 0x20, 0x85, 0xA0, 0x1680, 0x2000, 0x2001,
    0x2002, 0x2003, 0x2004, 0x2005, 0x2006, 0x2007, 0x2008, 0x2009, 0x200A, 0x2028, 0x2029, 0x202F,
    0x205F, 0x3000]

theorem mem_blankCodes {x : Char} (hx : isBlank x = true) : x.toNat ∈ blankCodes := by
  simp only [isBlank, Bool.or_eq_true, Bool.and_eq_true, decide_eq_true_eq] at hx
  simp only [blankCodes, List.mem_cons, List.not_mem_nil, or_false]
  omega

/-- White space is no part of a word. -/
theorem isWord_of_isBlank {x : Char} (hx : isBlank x = true) : isWord x = false := by
  have hcodes : ∀ n ∈ blankCodes, isWord (Char.ofNat n) = false := by decide +kernel
  rw [← Char.ofNat_toNat x]
  exact hcodes x.toNat (mem_blankCodes hx)

theorem isBlank_of_isWord {x : Char} (hx : isWord x = true) : isBlank x = false := by
  by_contra hblank
  rw [isWord_of_isBlank (by simpa using hblank)] at hx
  contradiction

/-- What is trimmed off is white space. -/
theorem exists_trimLeft (s : List Char) :
    ∃ gap, s = gap ++ trimLeft s ∧ ∀ x ∈ gap, isBlank x = true :=
  ⟨s.takeWhile isBlank, List.takeWhile_append_dropWhile.symm, fun _ hx => List.mem_takeWhile_imp hx⟩

/-- White space in front of another character is trimmed off, and no more. -/
theorem trimLeft_blanks_cons {gap : List Char} (hgap : ∀ x ∈ gap, isBlank x = true) {c : Char}
    (hc : isBlank c = false) (rest : List Char) : trimLeft (gap ++ c :: rest) = c :: rest := by
  rw [trimLeft, List.dropWhile_append_of_pos hgap, List.dropWhile_cons_of_neg (by simp [hc])]

theorem exists_trim (s : List Char) :
    ∃ front behind, s = front ++ trim s ++ behind ∧ (∀ x ∈ front, isBlank x = true) ∧
      ∀ x ∈ behind, isBlank x = true := by
  obtain ⟨front, hfront, hblank⟩ := exists_trimLeft s
  obtain ⟨behind, hbehind, hblank'⟩ := exists_trimLeft (trimLeft s).reverse
  have hright : trimLeft s = trim s ++ behind.reverse := by
    rw [trim, trimRight, ← List.reverse_append, ← hbehind, List.reverse_reverse]
  refine ⟨front, behind.reverse, ?_, hblank, by simpa using hblank'⟩
  rw [List.append_assoc, ← hright, ← hfront]

theorem trim_ne_nil {s : List Char} (h : allBlank s = false) : trim s ≠ [] := by
  intro hnil
  obtain ⟨front, behind, hsplit, hfront, hbehind⟩ := exists_trim s
  obtain ⟨x, hx, hvisible⟩ := List.all_eq_false.mp h
  rw [hsplit, hnil, List.append_nil] at hx
  rcases List.mem_append.mp hx with hx | hx
  · exact hvisible (hfront x hx)
  · exact hvisible (hbehind x hx)

/-- What follows a text does not matter to the trimming of what is in front of it. -/
theorem trimLeft_append {s : List Char} (hs : ∃ x ∈ s, isBlank x = false) (more : List Char) :
    trimLeft (s ++ more) = trimLeft s ++ more := by
  rw [trimLeft, trimLeft, List.dropWhile_append]
  have hne : s.dropWhile isBlank ≠ [] := by
    rw [Ne, List.dropWhile_eq_nil_iff]
    obtain ⟨x, hx, hblank⟩ := hs
    intro hall
    rw [hall x hx] at hblank
    contradiction
  rw [List.isEmpty_eq_false_iff.mpr hne]
  rfl

end SourceChunks.Text
