import Mathlib
import SourceChunks.Proofs.Declaration.Headers
import SourceChunks.Proofs.Pattern.Seam

/-!
# Declarations stop at a semicolon

That the pattern of a declaration does not get past a semicolon can be told from its
structure, but for two of them: the path of a service may be a string, which may hold
semicolons, and a variable does not begin at the edge of a word.

* `Patterns.stays_service`: a string is closed on its line, or not before the next text.
* `Patterns.allMatches_append_moduleVariable`: no variable begins in white space.
-/

namespace SourceChunks

namespace Patterns

open Pattern

variable {tail more : List Char}

/-! ## Services -/

/-- A string that begins before the semicolon is closed there or not on its line, and then
not before the end of the text either. -/
theorem stays_quoted (hblank : ∀ x ∈ tail, Text.isBlank x = true) (hline : '\n' ∈ tail) :
    (one (· == '"') ++ run (fun x => x != '"' && x != '\n') ++ one (· == '"') :
      Pattern Part).Stays tail more where
  isLocal := by
    intro c hc
    have hopen : (one (L := Part) (· == '"')).Stays tail more := stays_one (by decide)
    rw [ends_seq, ends_seq, ends_seq, ends_seq, hopen.isLocal c hc, List.flatMap_map,
      List.flatMap_assoc, List.flatMap_assoc, List.map_flatMap]
    refine List.flatMap_congr fun d hd => ?_
    have hmem : '\n' ∈ d.rest :=
      (hopen.stays c hc d hd).subset (List.mem_cons_of_mem _ hline)
    rw [ends_run_extend rfl ⟨'\n', hmem, rfl⟩, List.flatMap_map, List.map_flatMap]
    refine List.flatMap_congr fun e he => ?_
    have hsort : (run (L := Part) fun x => x != '"' && x != '\n').Reads (· ≠ '\n') :=
      fun x hx => (by simpa using hx : x ≠ '"' ∧ x ≠ '\n').2
    obtain ⟨passed, hlead, hpassed⟩ := passes_of_mem_ends hsort he
    have hne : e.rest ≠ [] := by
      intro hnil
      rw [hlead.rest_eq, hnil, List.append_nil] at hmem
      exact hpassed '\n' hmem rfl
    obtain ⟨x, rest, hrest⟩ := List.exists_cons_of_ne_nil hne
    exact ends_one_extend hrest more
  stays := by
    intro c hc d hd
    obtain ⟨interior, hlead, -⟩ := exists_of_mem_quoted hd
    have hd : d.rest <:+ c.rest := ⟨_, hlead.rest_eq.symm⟩
    rcases List.suffix_or_suffix_of_suffix hc hd with hsuffix | hsuffix
    · exact hsuffix
    · obtain ⟨gap, hgap⟩ := hsuffix
      cases gap using List.reverseRecOn with
      | nil => exact ⟨[], hgap.symm⟩
      | append_singleton gap x =>
          -- The quote that closes the string would be the semicolon or white space.
          obtain ⟨front, hfront⟩ := hc
          rw [← hgap, hlead.rest_eq, ← List.append_assoc, List.append_left_inj,
            ← List.append_assoc, ← List.cons_append, ← List.concat_eq_append,
            ← List.concat_eq_append] at hfront
          have hx : x = '"' := (List.concat_inj.mp hfront).2
          have hmem : x ∈ ';' :: tail := by rw [← hgap]; simp
          rw [hx] at hmem
          rcases List.mem_cons.mp hmem with hsemicolon | htail
          · exact absurd hsemicolon (by decide)
          · exact absurd (hblank '"' htail) (by decide)

/-- The path of a service may be a string with semicolons; all else stops at one. -/
theorem stays_service (hblank : ∀ x ∈ tail, Text.isBlank x = true) (hline : '\n' ∈ tail) :
    service.Stays tail more := by
  have hpath : servicePath.Stays tail more :=
    stays_either (stays_of_stops (by decide)) (stays_quoted hblank hline)
  have hplace : servicePlace.Stays tail more :=
    stays_either
      (stays_either (stays_seq (stays_of_stops (by decide)) (stays_mark _ hpath))
        (stays_of_stops (by decide)))
      stays_empty
  rw [service_eq]
  exact stays_seq (stays_seq (stays_of_stops (by decide)) hplace) (stays_of_stops (by decide))

/-! ## White space behind the semicolon -/

theorem isTypeChar_of_isBlank {x : Char} (hx : Text.isBlank x = true) : isTypeChar x = false := by
  have hcodes : ∀ n ∈ Text.blankCodes, isTypeChar (Char.ofNat n) = false := by decide +kernel
  rw [← Char.ofNat_toNat x]
  exact hcodes x.toNat (Text.mem_blankCodes hx)

theorem ends_one_eq_nil {accepts : Char → Bool} {c : Cursor Part} {x : Char} {rest : List Char}
    (hrest : c.rest = x :: rest) (hx : accepts x = false) : ends (one accepts) c = [] := by
  simp [ends_one_cons accepts hrest, hx]

/-- A word does not begin with white space. -/
theorem ends_words_eq_nil {choices : List String} (hne : choices ≠ [])
    (hchoices : ∀ s ∈ choices, s.toList.head?.any Text.isWord = true) {c : Cursor Part} {x : Char}
    {rest : List Char} (hrest : c.rest = x :: rest) (hx : Text.isBlank x = true) :
    ends (anyOf (choices.map word)) c = [] := by
  have hword : ∀ s ∈ choices, ends (word s) c = [] := by
    intro s hs
    obtain ⟨y, hhead, hy⟩ := (Option.any_eq_true ..).mp (hchoices s hs)
    obtain ⟨text, htext⟩ := List.head?_eq_some_iff.mp hhead
    have hy : (x == y) = false := by
      rw [beq_eq_false_iff_ne]
      rintro rfl
      rw [Text.isWord_of_isBlank hx] at hy
      contradiction
    rw [word, htext]
    show (ends (one _) c).flatMap _ = []
    rw [ends_one_eq_nil hrest hy, List.flatMap_nil]
  clear hchoices
  induction choices with
  | nil => contradiction
  | cons s choices ih =>
      cases choices with
      | nil => exact hword s List.mem_cons_self
      | cons t choices =>
          show ends (word s) c ++ ends (anyOf ((t :: choices).map word)) c = []
          rw [hword s List.mem_cons_self,
            ih (by simp) fun u hu => hword u (List.mem_cons_of_mem s hu)]
          rfl

/-- No variable begins in the white space behind the semicolon, since the last character of
it ends a line. -/
theorem matchAt_moduleVariable_eq_none {rest extra : List Char}
    (hblank : ∀ x ∈ rest, Text.isBlank x = true) (hline : '\n' ∈ rest) (before : Option Char)
    (offset : Nat) : moduleVariable.matchAt before offset (rest ++ extra) = none := by
  rw [matchAt_eq]
  suffices hnil : ends moduleVariable ⟨before, rest ++ extra, offset, []⟩ = [] by
    rw [hnil]
    rfl
  show (ends (lineStart ++ run fun c => c == ' ' || c == '\t') _).flatMap _ = []
  rw [List.flatMap_eq_nil_iff]
  intro d hd
  have hsort : (lineStart ++ run fun c => c == ' ' || c == '\t' : Pattern Part).Reads (· ≠ '\n') := by
    refine ⟨trivial, ?_⟩
    rintro x hx rfl
    exact absurd hx (by decide)
  obtain ⟨passed, hlead, hpassed⟩ := passes_of_mem_ends hsort hd
  have hrest : rest ++ extra = passed ++ d.rest := hlead.rest_eq
  -- The run of spaces and tabs ends within the white space.
  obtain ⟨x, more, hd, hx⟩ : ∃ x more, d.rest = x :: more ∧ Text.isBlank x = true := by
    rcases List.append_eq_append_iff.mp hrest with ⟨gap, hgap, -⟩ | ⟨gap, hgap, hd⟩
    · exact absurd rfl (hpassed '\n' (by rw [hgap]; exact List.mem_append_left _ hline))
    · cases gap with
      | nil =>
          rw [List.append_nil] at hgap
          exact absurd rfl (hpassed '\n' (by rw [← hgap]; exact hline))
      | cons x gap =>
          exact ⟨x, gap ++ extra, hd, hblank x (by rw [hgap]; simp)⟩
  have hwords : ends (anyOf [word "public", word "isolated", word "listener"] ++ blanks) d = [] := by
    rw [ends_seq]
    show (ends (anyOf (["public", "isolated", "listener"].map word)) d).flatMap _ = []
    rw [ends_words_eq_nil (by simp) (by decide) hd hx, List.flatMap_nil]
  have hmany : ends (many (anyOf [word "public", word "isolated", word "listener"] ++ blanks)) d =
      [d] := by
    rw [ends, hd, List.length_cons, roundEnds, hwords]
    rfl
  have htype : ends typeName d = [] := by
    show ((ends (one isTypeChar) d).flatMap _).map _ = []
    rw [ends_one_eq_nil hd (isTypeChar_of_isBlank hx)]
    rfl
  rw [ends, List.map_eq_nil_iff]
  simp only [ends_seq]
  rw [hmany, List.flatMap_singleton, htype]
  rfl

/-! ## Searches in two texts -/

variable {text : List Char}

theorem newline_mem (hseam : Seam tail text) : '\n' ∈ tail :=
  List.mem_of_getLast? hseam.line

theorem allMatches_append_moduleVariable (hseam : Seam tail text) (more : List Char) :
    moduleVariable.allMatches (text ++ more) =
      moduleVariable.allMatches text ++ (moduleVariable.allMatches more).map (·.shift text.length) := by
  refine allMatches_append hseam (local_of_stops (by decide)) fun before offset rest extra _ hne hrest => ?_
  refine matchAt_moduleVariable_eq_none (fun x hx => hseam.blank x (hrest.subset hx)) ?_ _ _
  obtain ⟨gap, rfl⟩ := hrest
  have hlast := hseam.line
  rw [List.getLast?_append_of_ne_nil gap hne] at hlast
  exact List.mem_of_getLast? hlast

end Patterns

end SourceChunks
